import PodpingAlpha.Library.Json
import Mathlib.Algebra.BigOperators.Group.List.Basic
import Mathlib.Algebra.Ring.Nat
import Mathlib.Tactic.IntervalCases

/-!
# The size of compact JSON

How many bytes the text of a value takes. Every item of an array and every field of an object
brings its own text and one character, a comma or the bracket at the end.
-/

namespace PodpingAlpha.Json

/-- The bytes a text takes. -/
def textSize (cs : List Char) : ℕ := (cs.map Char.utf8Size).sum

/-- The bytes a value takes. -/
def size (v : Json) : ℕ := textSize (render v)

@[simp] theorem textSize_nil : textSize [] = 0 := rfl

@[simp] theorem textSize_cons (c : Char) (cs : List Char) :
    textSize (c :: cs) = c.utf8Size + textSize cs := rfl

@[simp] theorem textSize_append (cs ds : List Char) :
    textSize (cs ++ ds) = textSize cs + textSize ds := by
  simp [textSize]

theorem length_toBytes (v : Json) : v.toBytes.length = v.size := by
  unfold toBytes size textSize
  rw [List.length_flatMap]
  simp

/-- A character takes at least a byte. -/
theorem length_le_textSize (cs : List Char) : cs.length ≤ textSize cs := by
  induction cs with
  | nil => exact le_refl 0
  | cons c cs ih =>
    have hpos : 0 < c.utf8Size := Char.utf8Size_pos c
    rw [List.length_cons, textSize_cons]
    omega

/-! ### Numbers and strings -/

/-- A digit takes a byte. -/
theorem utf8Size_of_isDigit {c : Char} (h : c.isDigit) : c.utf8Size = 1 := by
  have hle : c.val ≤ 57 := by
    simp only [Char.isDigit, Bool.and_eq_true, decide_eq_true_eq] at h
    exact h.2
  have hascii : c.val ≤ 127 := UInt32.le_trans hle (by decide)
  exact if_pos hascii

theorem textSize_digits {cs : List Char} (h : ∀ c ∈ cs, c.isDigit) : textSize cs = cs.length := by
  induction cs with
  | nil => rfl
  | cons c cs ih =>
    obtain ⟨hc, hcs⟩ := List.forall_mem_cons.1 h
    rw [textSize_cons, List.length_cons, utf8Size_of_isDigit hc, ih hcs, Nat.add_comm]

/-- The digits of a number. -/
def digits (n : ℕ) : ℕ := (Nat.toDigits 10 n).length

@[simp] theorem size_num (n : ℕ) : (Json.num n).size = digits n :=
  textSize_digits fun _ hc => Nat.isDigit_of_mem_toDigits (by omega) (by omega) hc

@[simp] theorem size_u64 (n : UInt64) : (u64 n).size = digits n.toNat := size_num _

/-- A string literal: the quotes, and the characters as they are escaped. -/
theorem size_str (s : String) : (Json.str s).size = 2 + textSize (s.toList.flatMap escape) := by
  show textSize ('"' :: (s.toList.flatMap escape ++ ['"'])) = _
  have hquote : '"'.utf8Size = 1 := rfl
  rw [textSize_cons, textSize_append, textSize_cons, textSize_nil, hquote]
  omega

/-- Escaping does not make a text shorter. -/
theorem length_le_length_escape (cs : List Char) : cs.length ≤ (cs.flatMap escape).length := by
  induction cs with
  | nil => exact le_refl 0
  | cons c cs ih =>
    have hpos : 0 < (escape c).length := by
      rw [escape]
      split_ifs <;> exact Nat.succ_pos _
    rw [List.flatMap_cons, List.length_append, List.length_cons]
    omega

/-- A hexadecimal digit is written as it is. -/
theorem escape_digit {n : ℕ} (h : n < 16) :
    escape (Hex.digit n) = [Hex.digit n] ∧ (Hex.digit n).utf8Size = 1 := by
  interval_cases n <;> decide

/-- Hexadecimal text: two characters a byte, and the quotes. -/
theorem size_str_encode (b : Bytes) : (Json.str (Hex.encode b)).size = 2 + 2 * b.length := by
  rw [size_str, Hex.encode, String.toList_ofList]
  congr 1
  induction b with
  | nil => rfl
  | cons x b ih =>
    have hlt := x.toNat_lt
    obtain ⟨hhi, hhi'⟩ := escape_digit (n := x.toNat / 16) (by omega)
    obtain ⟨hlo, hlo'⟩ := escape_digit (n := x.toNat % 16) (by omega)
    simp only [List.flatMap_cons, List.cons_append, List.nil_append, hhi, hlo, textSize_cons, hhi',
      hlo', ih, List.length_cons]
    omega

/-! ### Arrays and objects -/

/-- The items of an array, each with a character after it. -/
theorem textSize_renderItems {vs : List Json} (h : vs ≠ []) :
    textSize (renderItems vs) + 1 = (vs.map fun v => v.size + 1).sum := by
  induction vs with
  | nil => exact absurd rfl h
  | cons v vs ih =>
    cases vs with
    | nil => rfl
    | cons w vs =>
      have hcomma : ','.utf8Size = 1 := rfl
      have hrest := ih (List.cons_ne_nil w vs)
      show textSize (render v ++ ',' :: renderItems (w :: vs)) + 1 = _
      rw [textSize_append, textSize_cons, hcomma, List.map_cons, List.sum_cons, ← hrest]
      simp only [size]
      omega

/-- An array that has items. -/
theorem size_arr {vs : List Json} (h : vs ≠ []) :
    (Json.arr vs).size = 1 + (vs.map fun v => v.size + 1).sum := by
  have hbrackets : '['.utf8Size = 1 ∧ ']'.utf8Size = 1 := ⟨rfl, rfl⟩
  have hitems := textSize_renderItems h
  show textSize ('[' :: (renderItems vs ++ [']'])) = _
  rw [textSize_cons, textSize_append, textSize_cons, textSize_nil, hbrackets.1, hbrackets.2]
  omega

/-- The fields of an object, each with a colon and a character after it. -/
theorem textSize_renderFields {fs : List (String × Json)} (h : fs ≠ []) :
    textSize (renderFields fs) + 1 = (fs.map fun f => (Json.str f.1).size + f.2.size + 2).sum := by
  have hcolon : ':'.utf8Size = 1 := rfl
  induction fs with
  | nil => exact absurd rfl h
  | cons f fs ih =>
    obtain ⟨k, v⟩ := f
    cases fs with
    | nil =>
      show textSize (quote k ++ ':' :: render v) + 1 = _
      rw [textSize_append, textSize_cons, hcolon]
      simp only [List.map_cons, List.map_nil, List.sum_cons, List.sum_nil, size, render]
      omega
    | cons g fs =>
      obtain ⟨l, w⟩ := g
      have hcomma : ','.utf8Size = 1 := rfl
      have hrest := ih (List.cons_ne_nil (l, w) fs)
      show textSize (quote k ++ ':' :: render v ++ ',' :: renderFields ((l, w) :: fs)) + 1 = _
      rw [textSize_append, textSize_append, textSize_cons, textSize_cons, hcolon, hcomma,
        List.map_cons, List.sum_cons, ← hrest]
      simp only [size, render]
      omega

/-- An object that has fields. -/
theorem size_obj {fs : List (String × Json)} (h : fs ≠ []) :
    (Json.obj fs).size = 1 + (fs.map fun f => (Json.str f.1).size + f.2.size + 2).sum := by
  have hbraces : '\x7b'.utf8Size = 1 ∧ '\x7d'.utf8Size = 1 := ⟨rfl, rfl⟩
  have hfields := textSize_renderFields h
  show textSize ('\x7b' :: (renderFields fs ++ ['\x7d'])) = _
  rw [textSize_cons, textSize_append, textSize_cons, textSize_nil, hbraces.1, hbraces.2]
  omega

end PodpingAlpha.Json
