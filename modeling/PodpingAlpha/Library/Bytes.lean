import Mathlib.Algebra.Ring.Nat
import Mathlib.Data.List.Basic

/-!
# Byte strings

Fixed-width integers in lists of bytes.
-/

namespace PodpingAlpha

/-- A byte string. -/
abbrev Bytes := List UInt8

namespace Bytes

/-- The `w` little-endian bytes of `n`. -/
def toLe : ℕ → ℕ → Bytes
  | 0, _ => []
  | w + 1, n => UInt8.ofNat n :: toLe w (n / 256)

/-- The number with the given little-endian bytes. -/
def ofLe : Bytes → ℕ
  | [] => 0
  | b :: bs => b.toNat + 256 * ofLe bs

@[simp] theorem length_toLe (w n : ℕ) : (toLe w n).length = w := by
  induction w generalizing n with
  | zero => rfl
  | succ w ih => simp [toLe, ih]

/-- `w` bytes hold the numbers below `256 ^ w`. -/
theorem ofLe_lt (b : Bytes) : ofLe b < 256 ^ b.length := by
  induction b with
  | nil => exact Nat.one_pos
  | cons x b ih =>
    have hx : x.toNat < 256 := x.toNat_lt
    rw [ofLe, List.length_cons, Nat.pow_succ]
    omega

@[simp] theorem ofLe_toLe {w n : ℕ} (h : n < 256 ^ w) : ofLe (toLe w n) = n := by
  induction w generalizing n with
  | zero => exact (Nat.lt_one_iff.1 h).symm
  | succ w ih =>
    have hdiv : n / 256 < 256 ^ w := Nat.div_lt_of_lt_mul (by rwa [Nat.pow_succ, Nat.mul_comm] at h)
    have hbyte : (UInt8.ofNat n).toNat = n % 256 := UInt8.toNat_ofNat' ..
    rw [toLe, ofLe, ih hdiv, hbyte]
    omega

@[simp] theorem toLe_ofLe (b : Bytes) : toLe b.length (ofLe b) = b := by
  induction b with
  | nil => rfl
  | cons x b ih =>
    have hx : x.toNat < 256 := x.toNat_lt
    have hhead : UInt8.ofNat (x.toNat + 256 * ofLe b) = x := by
      refine UInt8.toNat_inj.1 ?_
      rw [UInt8.toNat_ofNat']
      omega
    have htail : (x.toNat + 256 * ofLe b) / 256 = ofLe b := by omega
    rw [List.length_cons, toLe, ofLe, hhead, htail, ih]

/-- The `w` big-endian bytes of `n`. -/
def toBe (w n : ℕ) : Bytes := (toLe w n).reverse

/-- The number with the given big-endian bytes. -/
def ofBe (b : Bytes) : ℕ := ofLe b.reverse

@[simp] theorem length_toBe (w n : ℕ) : (toBe w n).length = w := by
  rw [toBe, List.length_reverse, length_toLe]

@[simp] theorem ofBe_toBe {w n : ℕ} (h : n < 256 ^ w) : ofBe (toBe w n) = n := by
  rw [ofBe, toBe, List.reverse_reverse, ofLe_toLe h]

end Bytes

end PodpingAlpha
