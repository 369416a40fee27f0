import PodpingAlpha.Library.Bytes
import Mathlib.Tactic.IntervalCases

/-!
# Hexadecimal text

Bytes as pairs of hexadecimal digits, with lower-case digits when written and digits of either case
when read. What is written is read back: `decode_encode`.
-/

namespace PodpingAlpha.Hex

/-- The digit of a number below 16. -/
def digit (n : ℕ) : Char := if n < 10 then Char.ofNat (48 + n) else Char.ofNat (87 + n)

/-- The two digits of each byte. -/
def encode (b : Bytes) : String :=
  String.ofList (b.flatMap fun x => [digit (x.toNat / 16), digit (x.toNat % 16)])

/-- The value of a digit, of either case. -/
def value (c : Char) : Option ℕ :=
  if '0' ≤ c ∧ c ≤ '9' then some (c.toNat - 48)
  else if 'a' ≤ c ∧ c ≤ 'f' then some (c.toNat - 87)
  else if 'A' ≤ c ∧ c ≤ 'F' then some (c.toNat - 55)
  else none

/-- The bytes of a list of digits. -/
def decodeChars : List Char → Option Bytes
  | [] => some []
  | [_] => none
  | c :: d :: cs => do
    let hi ← value c
    let lo ← value d
    let bytes ← decodeChars cs
    pure (UInt8.ofNat (16 * hi + lo) :: bytes)

/-- The bytes of a hexadecimal text. -/
def decode (s : String) : Option Bytes := decodeChars s.toList

/-- A digit is read back. -/
theorem value_digit {n : ℕ} (h : n < 16) : value (digit n) = some n := by
  interval_cases n <;> rfl

theorem decodeChars_flatMap (b : Bytes) :
    decodeChars (b.flatMap fun x => [digit (x.toNat / 16), digit (x.toNat % 16)]) = some b := by
  induction b with
  | nil => rfl
  | cons x b ih =>
    have hlt := x.toNat_lt
    have hhi : value (digit (x.toNat / 16)) = some (x.toNat / 16) := value_digit (by omega)
    have hlo : value (digit (x.toNat % 16)) = some (x.toNat % 16) := value_digit (by omega)
    have hx : UInt8.ofNat (16 * (x.toNat / 16) + x.toNat % 16) = x := by
      rw [Nat.div_add_mod, UInt8.ofNat_toNat]
    rw [List.flatMap_cons]
    simp only [List.cons_append, List.nil_append, decodeChars, hhi, hlo, ih, Option.bind_eq_bind,
      Option.bind_some, Option.pure_def, hx]

/-- **The round trip.** -/
theorem decode_encode (b : Bytes) : decode (encode b) = some b := by
  rw [decode, encode, String.toList_ofList, decodeChars_flatMap]

theorem encode_injective : Function.Injective encode := by
  intro a b h
  rw [← Option.some_inj, ← decode_encode a, ← decode_encode b, h]

end PodpingAlpha.Hex
