import Mathlib.GroupTheory.OrderOfElement

/-!
# Schnorr signatures

A group of points whose order is a prime times a small cofactor, points as bytes, and a hash. A signature
`(r, s)` is accepted for a text under a key when the point `s • base - k • A` is written `r`, where `A` is
the point of the key and `k`, the challenge, is the hash of `r`, the key and the text.

A key of small order, which the cofactor takes to zero, says nothing about the text. Under any other key
a signature fixes the challenge.

* `Accepts.challenge_nsmul` — what two accepted texts have to do with each other.
* `Accepts.challenge_eq` — under a key that is not of small order, their challenges are the same.
* `accepts_of_zero` — under the key zero, one signature is accepted for every text.
-/

namespace PodpingAlpha

universe u v w x

/-- A signature scheme over the points `G`, with points and keys written as `ρ` and `κ`, and texts `τ`. -/
structure Schnorr (G : Type u) (ρ : Type v) (κ : Type w) (τ : Type x) [AddCommGroup G] where
  base : G
  order : ℕ
  prime : order.Prime
  cofactor : ℕ
  torsion : ∀ P : G, (order * cofactor) • P = 0
  /-- How a point is written. -/
  encode : G → ρ
  encode_injective : Function.Injective encode
  /-- The point of a key. -/
  decode : κ → Option G
  /-- The hash of a point, a key and a text. -/
  challenge : ρ → κ → τ → ℕ
  challenge_lt : ∀ r key text, challenge r key text < order

namespace Schnorr

variable {G : Type u} {ρ : Type v} {κ : Type w} {τ : Type x} [AddCommGroup G] {S : Schnorr G ρ κ τ}

/-- The signature `(r, s)` is accepted for a text under a key. -/
def Accepts (S : Schnorr G ρ κ τ) (key : κ) (text : τ) (r : ρ) (s : ℕ) : Prop :=
  ∃ A, S.decode key = some A ∧ S.encode (s • S.base - S.challenge r key text • A) = r

/-- The cofactor takes the point to zero. -/
def SmallOrder (S : Schnorr G ρ κ τ) (A : G) : Prop := S.cofactor • A = 0

/-- Two texts have the same challenge. -/
def Collide (S : Schnorr G ρ κ τ) (r : ρ) (key : κ) (text text' : τ) : Prop :=
  text ≠ text' ∧ S.challenge r key text = S.challenge r key text'

variable {key key' : κ} {text text' : τ} {r : ρ} {s : ℕ} {A A' : G}

/-- The challenges of two accepted texts take the points of their keys to the same point. -/
theorem Accepts.challenge_nsmul (h : S.Accepts key text r s) (h' : S.Accepts key' text' r s)
    (hkey : S.decode key = some A) (hkey' : S.decode key' = some A') :
    S.challenge r key text • A = S.challenge r key' text' • A' := by
  obtain ⟨B, hB, hr⟩ := h
  obtain ⟨B', hB', hr'⟩ := h'
  cases hkey.symm.trans hB
  cases hkey'.symm.trans hB'
  exact sub_right_inj.1 (S.encode_injective (hr.trans hr'.symm))

/-- A multiple of a point that is not of small order tells the factor, below the order. -/
theorem eq_of_nsmul_eq (hA : ¬S.SmallOrder A) {k k' : ℕ} (hk : k < S.order) (hk' : k' < S.order)
    (h : k • A = k' • A) : k = k' := by
  have hprime : Fact S.order.Prime := ⟨S.prime⟩
  have horder : addOrderOf (S.cofactor • A) = S.order := by
    refine addOrderOf_eq_prime ?_ hA
    rw [← mul_nsmul', S.torsion]
  have hcofactor : k • S.cofactor • A = k' • S.cofactor • A := by
    rw [nsmul_left_comm, h, nsmul_left_comm]
  have hmod := nsmul_eq_nsmul_iff_modEq.1 hcofactor
  rw [horder] at hmod
  exact hmod.eq_of_lt_of_lt hk hk'

/-- **A signature fixes the challenge** under a key that is not of small order. -/
theorem Accepts.challenge_eq (h : S.Accepts key text r s) (h' : S.Accepts key text' r s)
    (hkey : S.decode key = some A) (hA : ¬S.SmallOrder A) :
    S.challenge r key text = S.challenge r key text' :=
  eq_of_nsmul_eq hA (S.challenge_lt r key text) (S.challenge_lt r key text')
    (h.challenge_nsmul h' hkey hkey)

/-- **A key that is zero signs everything.** -/
theorem accepts_of_zero (hkey : S.decode key = some 0) (text : τ) :
    S.Accepts key text (S.encode 0) 0 := by
  refine ⟨0, hkey, ?_⟩
  rw [zero_nsmul, nsmul_zero, sub_zero]

end Schnorr

end PodpingAlpha
