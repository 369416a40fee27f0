import PodpingAlpha.Library.Hex
import Mathlib.Tactic.IntervalCases

/-!
# Compact JSON

JSON values of nulls, strings, natural numbers, arrays and objects, and their compact text: no white
space, fields in the order given, and of the characters of a string only the quote, the backslash
and the control characters escaped, the latter by their short form where there is one.
-/

namespace PodpingAlpha

/-- A JSON value. -/
inductive Json where
  /-- `null`. -/
  | null
  /-- A string. -/
  | str (s : String)
  /-- A natural number. -/
  | num (n : ℕ)
  /-- An array. -/
  | arr (vs : List Json)
  /-- An object, with its fields in order. -/
  | obj (fields : List (String × Json))

namespace Json

/-- A `u64`. -/
def u64 (n : UInt64) : Json := .num n.toNat

/-- An optional field, left out when there is none. -/
def optionalField {α : Type} (key : String) (value : α → Json) : Option α → List (String × Json)
  | none => []
  | some a => [(key, value a)]

/-- A character of a string literal. -/
def escape (c : Char) : List Char :=
  if c = '"' then ['\\', '"']
  else if c = '\\' then ['\\', '\\']
  else if c.toNat = 8 then ['\\', 'b']
  else if c.toNat = 9 then ['\\', 't']
  else if c.toNat = 10 then ['\\', 'n']
  else if c.toNat = 12 then ['\\', 'f']
  else if c.toNat = 13 then ['\\', 'r']
  else if c.toNat < 32 then
    ['\\', 'u', '0', '0', Hex.digit (c.toNat / 16), Hex.digit (c.toNat % 16)]
  else [c]

/-- A string literal. -/
def quote (s : String) : List Char := '"' :: s.toList.flatMap escape ++ ['"']

mutual

/-- The text of a value. -/
def render : Json → List Char
  | .null => "null".toList
  | .str s => quote s
  | .num n => Nat.toDigits 10 n
  | .arr vs => '[' :: renderItems vs ++ [']']
  | .obj fields => '\x7b' :: renderFields fields ++ ['\x7d']

/-- The items of an array. -/
def renderItems : List Json → List Char
  | [] => []
  | [v] => render v
  | v :: vs => render v ++ ',' :: renderItems vs

/-- The fields of an object. -/
def renderFields : List (String × Json) → List Char
  | [] => []
  | [(k, v)] => quote k ++ ':' :: render v
  | (k, v) :: fields => quote k ++ ':' :: render v ++ ',' :: renderFields fields

end

/-- The UTF-8 bytes of the text. -/
def toBytes (v : Json) : Bytes := (render v).flatMap String.utf8EncodeChar

/-! ### One line -/

/-- Not a control character of ASCII. -/
def Printable (c : Char) : Prop := 32 ≤ c.toNat

instance (c : Char) : Decidable (Printable c) := inferInstanceAs (Decidable (_ ≤ _))

theorem printable_hexDigit {n : ℕ} (h : n < 16) : Printable (Hex.digit n) := by
  interval_cases n <;> decide

theorem printable_pair {c d : Char} (hc : Printable c) (hd : Printable d) :
    ∀ e ∈ [c, d], Printable e := List.forall_mem_cons.2 ⟨hc, List.forall_mem_singleton.2 hd⟩

theorem printable_escape (c : Char) : ∀ d ∈ escape c, Printable d := by
  unfold escape
  split_ifs with h1 h2 h3 h4 h5 h6 h7 h8
  · exact printable_pair (by decide) (by decide)
  · exact printable_pair (by decide) (by decide)
  · exact printable_pair (by decide) (by decide)
  · exact printable_pair (by decide) (by decide)
  · exact printable_pair (by decide) (by decide)
  · exact printable_pair (by decide) (by decide)
  · exact printable_pair (by decide) (by decide)
  · simp only [List.forall_mem_cons]
    exact ⟨by decide, by decide, by decide, by decide, printable_hexDigit (by omega),
      printable_hexDigit (by omega), List.forall_mem_nil _⟩
  · exact List.forall_mem_singleton.2 (Nat.not_lt.1 h8)

theorem printable_quote (s : String) : ∀ c ∈ quote s, Printable c := by
  have hbody : ∀ c ∈ s.toList.flatMap escape, Printable c := fun c hc => by
    obtain ⟨d, -, hd⟩ := List.mem_flatMap.1 hc
    exact printable_escape d c hd
  simp only [quote, List.cons_append, List.forall_mem_cons, List.forall_mem_append]
  exact ⟨by decide, hbody, by decide, List.forall_mem_nil _⟩

theorem printable_digits (n : ℕ) : ∀ c ∈ Nat.toDigits 10 n, Printable c := fun c hc => by
  have hdigit : c.isDigit := Nat.isDigit_of_mem_toDigits (by omega) (by omega) hc
  simp only [Char.isDigit, Bool.and_eq_true, decide_eq_true_eq] at hdigit
  have hle : 48 ≤ c.toNat := UInt32.le_iff_toNat_le.1 hdigit.1
  exact Nat.le_trans (by decide) hle

mutual

/-- **The text of a value is one line**: it has no control character. -/
theorem printable_render : ∀ v : Json, ∀ c ∈ render v, Printable c
  | .null => by
    show ∀ c ∈ ['n', 'u', 'l', 'l'], Printable c
    simp only [List.forall_mem_cons]
    exact ⟨by decide, by decide, by decide, by decide, List.forall_mem_nil _⟩
  | .str s => printable_quote s
  | .num n => printable_digits n
  | .arr vs => by
    simp only [render, List.cons_append, List.forall_mem_cons, List.forall_mem_append]
    exact ⟨by decide, printable_renderItems vs, by decide, List.forall_mem_nil _⟩
  | .obj fields => by
    simp only [render, List.cons_append, List.forall_mem_cons, List.forall_mem_append]
    exact ⟨by decide, printable_renderFields fields, by decide, List.forall_mem_nil _⟩

theorem printable_renderItems : ∀ vs : List Json, ∀ c ∈ renderItems vs, Printable c
  | [] => List.forall_mem_nil _
  | [v] => printable_render v
  | v :: w :: vs => by
    simp only [renderItems, List.forall_mem_append, List.forall_mem_cons]
    exact ⟨printable_render v, by decide, printable_renderItems (w :: vs)⟩

theorem printable_renderFields : ∀ fields : List (String × Json), ∀ c ∈ renderFields fields, Printable c
  | [] => List.forall_mem_nil _
  | [(k, v)] => by
    simp only [renderFields, List.forall_mem_append, List.forall_mem_cons]
    exact ⟨printable_quote k, by decide, printable_render v⟩
  | (k, v) :: f :: fields => by
    simp only [renderFields, List.append_assoc, List.cons_append, List.forall_mem_append,
      List.forall_mem_cons]
    exact ⟨printable_quote k, by decide, printable_render v, by decide,
      printable_renderFields (f :: fields)⟩

end

end Json

end PodpingAlpha
