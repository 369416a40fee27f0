import PodpingAlpha.Library.Json

/-!
# Reading compact JSON

A reader of the texts that `Library.Json` writes: it takes back every value from its text, so that
the text determines the value.

* `read_render` — the round trip, whatever follows the text.
* `fromBytes_toBytes`, `toBytes_injective` — the bytes of the text determine the value.
-/

namespace PodpingAlpha.Json

/-! ### The reader -/

/-- The character that a backslash and a letter stand for. -/
def unescape (c : Char) : Option Char :=
  if c = '"' then some '"'
  else if c = '\\' then some '\\'
  else if c = '/' then some '/'
  else if c = 'b' then some (Char.ofNat 8)
  else if c = 't' then some (Char.ofNat 9)
  else if c = 'n' then some (Char.ofNat 10)
  else if c = 'f' then some (Char.ofNat 12)
  else if c = 'r' then some (Char.ofNat 13)
  else none

/-- The characters of a string literal after its opening quote, and what follows the closing one. -/
def readString : List Char → Option (List Char × List Char)
  | [] => none
  | '"' :: cs => some ([], cs)
  | '\\' :: 'u' :: '0' :: '0' :: hi :: lo :: cs => do
    let hi ← Hex.value hi
    let lo ← Hex.value lo
    let (s, rest) ← readString cs
    pure (Char.ofNat (16 * hi + lo) :: s, rest)
  | '\\' :: c :: cs => do
    let c ← unescape c
    let (s, rest) ← readString cs
    pure (c :: s, rest)
  | c :: cs => do
    let (s, rest) ← readString cs
    pure (c :: s, rest)

/-- A number, and what follows its digits. -/
def readNumber (cs : List Char) : Option (Json × List Char) :=
  if cs.takeWhile Char.isDigit = [] then none
  else some (.num (Nat.ofDigitChars 10 (cs.takeWhile Char.isDigit) 0), cs.dropWhile Char.isDigit)

mutual

/-- A value at the beginning of a text, and what follows it. -/
def read : ℕ → List Char → Option (Json × List Char)
  | 0, _ => none
  | _ + 1, 'n' :: 'u' :: 'l' :: 'l' :: cs => some (.null, cs)
  | _ + 1, '"' :: cs => (readString cs).map fun p => (.str (String.ofList p.1), p.2)
  | _ + 1, '[' :: ']' :: cs => some (.arr [], cs)
  | fuel + 1, '[' :: cs => (readItems fuel cs).map fun p => (.arr p.1, p.2)
  | _ + 1, '\x7b' :: '\x7d' :: cs => some (.obj [], cs)
  | fuel + 1, '\x7b' :: cs => (readFields fuel cs).map fun p => (.obj p.1, p.2)
  | _ + 1, cs => readNumber cs

/-- The items of an array up to its closing bracket, and what follows it. -/
def readItems : ℕ → List Char → Option (List Json × List Char)
  | 0, _ => none
  | fuel + 1, cs => do
    let (v, cs) ← read fuel cs
    match cs with
    | ']' :: cs => pure ([v], cs)
    | ',' :: cs => do
      let (vs, cs) ← readItems fuel cs
      pure (v :: vs, cs)
    | _ => none

/-- The fields of an object up to its closing brace, and what follows it. -/
def readFields : ℕ → List Char → Option (List (String × Json) × List Char)
  | fuel + 1, '"' :: cs => do
    let (k, cs) ← readString cs
    match cs with
    | ':' :: cs => do
      let (v, cs) ← read fuel cs
      match cs with
      | '\x7d' :: cs => pure ([(String.ofList k, v)], cs)
      | ',' :: cs => do
        let (fields, cs) ← readFields fuel cs
        pure ((String.ofList k, v) :: fields, cs)
      | _ => none
    | _ => none
  | _, _ => none

end

/-! ### Strings and numbers -/

/-- What is no quote and no backslash stands for itself. -/
theorem readString_cons {c : Char} (hquote : c ≠ '"') (hbackslash : c ≠ '\\') (cs : List Char) :
    readString (c :: cs) = (readString cs).map fun p => (c :: p.1, p.2) := by
  rw [readString.eq_def]
  split
  · contradiction
  · simp_all
  · simp_all
  · simp_all
  · rename_i heq
    obtain ⟨rfl, rfl⟩ := List.cons.inj heq
    cases readString cs <;> rfl

/-- A letter after a backslash stands for its character. -/
theorem readString_unescape {c d : Char} (h : unescape d = some c) (cs : List Char) :
    readString ('\\' :: d :: cs) = (readString cs).map fun p => (c :: p.1, p.2) := by
  rw [readString.eq_def]
  split
  · contradiction
  · rename_i heq
    cases heq
  · rename_i heq
    obtain ⟨-, heq⟩ := List.cons.inj heq
    obtain ⟨rfl, -⟩ := List.cons.inj heq
    cases h
  · rename_i heq
    obtain ⟨-, heq⟩ := List.cons.inj heq
    obtain ⟨rfl, rfl⟩ := List.cons.inj heq
    rw [h]
    cases readString cs <;> rfl
  · rename_i hother heq
    obtain ⟨rfl, rfl⟩ := List.cons.inj heq
    exact absurd rfl (hother d cs rfl)

/-- An escaped character is read back. -/
theorem readString_escape (c : Char) (cs : List Char) :
    readString (escape c ++ cs) = (readString cs).map fun p => (c :: p.1, p.2) := by
  have hshort : ∀ n, c.toNat = n → c = Char.ofNat n := fun n h => by rw [← h, Char.ofNat_toNat]
  rw [escape]
  by_cases h1 : c = '"'
  · rw [if_pos h1, h1]
    exact readString_unescape (by decide) cs
  by_cases h2 : c = '\\'
  · rw [if_neg h1, if_pos h2, h2]
    exact readString_unescape (by decide) cs
  rw [if_neg h1, if_neg h2]
  by_cases h3 : c.toNat = 8
  · rw [if_pos h3, hshort 8 h3]
    exact readString_unescape (by decide) cs
  by_cases h4 : c.toNat = 9
  · rw [if_neg h3, if_pos h4, hshort 9 h4]
    exact readString_unescape (by decide) cs
  by_cases h5 : c.toNat = 10
  · rw [if_neg h3, if_neg h4, if_pos h5, hshort 10 h5]
    exact readString_unescape (by decide) cs
  rw [if_neg h3, if_neg h4, if_neg h5]
  by_cases h6 : c.toNat = 12
  · rw [if_pos h6, hshort 12 h6]
    exact readString_unescape (by decide) cs
  by_cases h7 : c.toNat = 13
  · rw [if_neg h6, if_pos h7, hshort 13 h7]
    exact readString_unescape (by decide) cs
  rw [if_neg h6, if_neg h7]
  split_ifs with h8
  · have hc : Char.ofNat (16 * (c.toNat / 16) + c.toNat % 16) = c := by
      rw [Nat.div_add_mod, Char.ofNat_toNat]
    have hhi : Hex.value (Hex.digit (c.toNat / 16)) = some (c.toNat / 16) := Hex.value_digit (by omega)
    have hlo : Hex.value (Hex.digit (c.toNat % 16)) = some (c.toNat % 16) := Hex.value_digit (by omega)
    cases h : readString cs <;> simp [readString, hhi, hlo, hc, h]
  · exact readString_cons h1 h2 cs

/-- A string literal is read back, whatever follows it. -/
theorem readString_flatMap (s rest : List Char) :
    readString (s.flatMap escape ++ '"' :: rest) = some (s, rest) := by
  induction s with
  | nil => rfl
  | cons c s ih => rw [List.flatMap_cons, List.append_assoc, readString_escape, ih, Option.map_some]

/-- The text does not go on with a digit. -/
def NoDigit (cs : List Char) : Prop := ∀ c ∈ cs.head?, c.isDigit = false

/-- A number is read back, unless a digit follows it. -/
theorem readNumber_toDigits (n : ℕ) {rest : List Char} (h : NoDigit rest) :
    readNumber (Nat.toDigits 10 n ++ rest) = some (.num n, rest) := by
  have hdigits : ∀ c ∈ Nat.toDigits 10 n, c.isDigit :=
    fun c hc => Nat.isDigit_of_mem_toDigits (by omega) (by omega) hc
  have hrest : rest.takeWhile Char.isDigit = [] ∧ rest.dropWhile Char.isDigit = rest := by
    cases rest with
    | nil => exact ⟨rfl, rfl⟩
    | cons c cs => simp [h c rfl]
  have htake : (Nat.toDigits 10 n ++ rest).takeWhile Char.isDigit = Nat.toDigits 10 n := by
    rw [List.takeWhile_append_of_pos hdigits, hrest.1, List.append_nil]
  have hdrop : (Nat.toDigits 10 n ++ rest).dropWhile Char.isDigit = rest := by
    rw [List.dropWhile_append_of_pos hdigits, hrest.2]
  rw [readNumber]
  rw [htake, hdrop, if_neg Nat.toDigits_ne_nil, Nat.ofDigitChars_toDigits (by omega) (by omega)]

/-! ### The round trip -/

theorem noDigit_nil : NoDigit [] := nofun

theorem noDigit_cons {c : Char} (h : c.isDigit = false) (cs : List Char) : NoDigit (c :: cs) := by
  rintro d hd
  cases hd
  exact h

/-- A text that begins with a digit is a number. -/
theorem read_of_digit {c : Char} (h : c.isDigit) (fuel : ℕ) (cs : List Char) :
    read (fuel + 1) (c :: cs) = readNumber (c :: cs) := by
  rw [read.eq_def]
  split <;> first | rfl | simp_all

/-- No value begins with a closing bracket. -/
theorem render_ne_bracket (v : Json) (rest cs : List Char) : render v ++ rest ≠ ']' :: cs := by
  intro h
  cases v with
  | null => simp [render] at h
  | str s => simp [render, quote] at h
  | num n =>
    obtain ⟨d, ds, hds⟩ := List.exists_cons_of_ne_nil (Nat.toDigits_ne_nil (n := n) (b := 10))
    have hdigit : d.isDigit :=
      Nat.isDigit_of_mem_toDigits (by omega) (by omega) (hds ▸ List.mem_cons_self)
    rw [render, hds, List.cons_append] at h
    obtain ⟨rfl, -⟩ := List.cons.inj h
    revert hdigit
    decide
  | arr vs => simp [render] at h
  | obj fields => simp [render] at h

/-- An array that has items. -/
theorem read_bracket {cs : List Char} (h : ∀ cs', cs ≠ ']' :: cs') (fuel : ℕ) :
    read (fuel + 1) ('[' :: cs) = (readItems fuel cs).map fun p => (.arr p.1, p.2) := by
  rw [read.eq_def]
  split <;> simp_all

/-- An object that has fields. -/
theorem read_brace (fuel : ℕ) (cs : List Char) :
    read (fuel + 1) ('\x7b' :: '"' :: cs) =
      (readFields fuel ('"' :: cs)).map fun p => (.obj p.1, p.2) := by
  rw [read.eq_def]
  rfl

theorem renderItems_cons_cons (v w : Json) (vs : List Json) :
    renderItems (v :: w :: vs) = render v ++ ',' :: renderItems (w :: vs) := rfl

theorem renderFields_cons_cons (k l : String) (v w : Json) (fs : List (String × Json)) :
    renderFields ((k, v) :: (l, w) :: fs) =
      quote k ++ ':' :: render v ++ ',' :: renderFields ((l, w) :: fs) := rfl

/-- With this much fuel the reader takes back the texts that are no longer. -/
structure Reads (fuel : ℕ) : Prop where
  /-- Values, unless a digit follows. -/
  value : ∀ v rest, (render v).length ≤ fuel → NoDigit rest →
    read fuel (render v ++ rest) = some (v, rest)
  /-- The items of an array. -/
  items : ∀ v vs rest, (renderItems (v :: vs)).length < fuel →
    readItems fuel (renderItems (v :: vs) ++ ']' :: rest) = some (v :: vs, rest)
  /-- The fields of an object. -/
  fields : ∀ k v fs rest, (renderFields ((k, v) :: fs)).length < fuel →
    readFields fuel (renderFields ((k, v) :: fs) ++ '\x7d' :: rest) = some ((k, v) :: fs, rest)

theorem Reads.read_succ {fuel : ℕ} (ih : Reads fuel) (v : Json) (rest : List Char)
    (hfuel : (render v).length ≤ fuel + 1) (hrest : NoDigit rest) :
    read (fuel + 1) (render v ++ rest) = some (v, rest) := by
  cases v with
  | null => simp [render, read]
  | str s =>
    simp only [render, quote, List.cons_append, List.append_assoc, List.nil_append, read,
      readString_flatMap, Option.map_some, String.ofList_toList]
  | num n =>
    obtain ⟨d, ds, hds⟩ := List.exists_cons_of_ne_nil (Nat.toDigits_ne_nil (n := n) (b := 10))
    have hdigit : d.isDigit :=
      Nat.isDigit_of_mem_toDigits (by omega) (by omega) (hds ▸ List.mem_cons_self)
    have hnumber := readNumber_toDigits n hrest
    rw [hds, List.cons_append] at hnumber
    rw [render, hds, List.cons_append, read_of_digit hdigit, hnumber]
  | arr vs =>
    cases vs with
    | nil => simp [render, renderItems, read]
    | cons v vs =>
      have hlen : (renderItems (v :: vs)).length < fuel := by
        simp only [render, List.length_cons, List.length_append, List.length_nil] at hfuel
        omega
      have hitems := ih.items v vs rest hlen
      have hopen : ∀ cs, renderItems (v :: vs) ++ ']' :: rest ≠ ']' :: cs := by
        intro cs
        cases vs with
        | nil => exact render_ne_bracket v _ cs
        | cons w vs =>
          rw [renderItems_cons_cons, List.append_assoc]
          exact render_ne_bracket v _ cs
      simp only [render, List.cons_append, List.append_assoc, List.nil_append]
      rw [read_bracket hopen, hitems, Option.map_some]
  | obj fs =>
    cases fs with
    | nil => simp [render, renderFields, read]
    | cons f fs =>
      obtain ⟨k, v⟩ := f
      have hlen : (renderFields ((k, v) :: fs)).length < fuel := by
        simp only [render, List.length_cons, List.length_append, List.length_nil] at hfuel
        omega
      have hfields := ih.fields k v fs rest hlen
      simp only [render, List.cons_append, List.append_assoc, List.nil_append]
      obtain ⟨cs, hcs⟩ : ∃ cs, renderFields ((k, v) :: fs) ++ '\x7d' :: rest = '"' :: cs := by
        cases fs with
        | nil => exact ⟨_, rfl⟩
        | cons f fs => exact ⟨_, rfl⟩
      rw [hcs] at hfields ⊢
      rw [read_brace, hfields, Option.map_some]

theorem Reads.readItems_succ {fuel : ℕ} (ih : Reads fuel) (v : Json) (vs : List Json)
    (rest : List Char) (hfuel : (renderItems (v :: vs)).length < fuel + 1) :
    readItems (fuel + 1) (renderItems (v :: vs) ++ ']' :: rest) = some (v :: vs, rest) := by
  cases vs with
  | nil =>
    rw [renderItems] at hfuel ⊢
    have hv := ih.value v (']' :: rest) (by omega) (noDigit_cons rfl _)
    rw [readItems, hv]
    rfl
  | cons w vs =>
    rw [renderItems_cons_cons, List.length_append, List.length_cons] at hfuel
    have hv := ih.value v (',' :: (renderItems (w :: vs) ++ ']' :: rest)) (by omega)
      (noDigit_cons rfl _)
    have hvs := ih.items w vs rest (by omega)
    rw [renderItems_cons_cons, List.append_assoc, List.cons_append, readItems, hv]
    simp [hvs]

theorem Reads.readFields_succ {fuel : ℕ} (ih : Reads fuel) (k : String) (v : Json)
    (fs : List (String × Json)) (rest : List Char)
    (hfuel : (renderFields ((k, v) :: fs)).length < fuel + 1) :
    readFields (fuel + 1) (renderFields ((k, v) :: fs) ++ '\x7d' :: rest) =
      some ((k, v) :: fs, rest) := by
  cases fs with
  | nil =>
    rw [renderFields, List.length_append, List.length_cons] at hfuel
    have hv := ih.value v ('\x7d' :: rest) (by omega) (noDigit_cons rfl _)
    rw [renderFields]
    simp [quote, readFields, readString_flatMap, hv]
  | cons f fs =>
    obtain ⟨l, w⟩ := f
    rw [renderFields_cons_cons] at hfuel
    simp only [List.length_append, List.length_cons] at hfuel
    have hv := ih.value v (',' :: (renderFields ((l, w) :: fs) ++ '\x7d' :: rest)) (by omega)
      (noDigit_cons rfl _)
    have hfs := ih.fields l w fs rest (by omega)
    rw [renderFields_cons_cons]
    simp [quote, readFields, readString_flatMap, hv, hfs]

theorem length_render_pos (v : Json) : 0 < (render v).length := by
  cases v with
  | null => decide
  | str s => simp [render, quote]
  | num n => exact Nat.length_toDigits_pos
  | arr vs => simp [render]
  | obj fs => simp [render]

theorem reads (fuel : ℕ) : Reads fuel := by
  induction fuel with
  | zero =>
    refine ⟨fun v _ h _ => ?_, fun _ _ _ h => ?_, fun _ _ _ _ h => ?_⟩
    · have := length_render_pos v
      omega
    · omega
    · omega
  | succ fuel ih => exact ⟨ih.read_succ, ih.readItems_succ, ih.readFields_succ⟩

/-- **The round trip**: a value is read back from its text, unless a digit follows it. -/
theorem read_render (v : Json) {rest : List Char} (h : NoDigit rest) :
    read (render v ++ rest).length (render v ++ rest) = some (v, rest) :=
  (reads _).value v rest (by simp) h

/-- The value whose text this is. -/
def fromText (s : String) : Option Json := do
  let (v, rest) ← read s.toList.length s.toList
  if rest.isEmpty then some v else none

/-- **The round trip through strings.** -/
theorem fromText_render (v : Json) : fromText (String.ofList (render v)) = some v := by
  have hread := read_render v noDigit_nil
  rw [List.append_nil] at hread
  rw [fromText, String.toList_ofList]
  simp [hread]

/-! ### Bytes -/

/-- The value whose text these bytes are. -/
def fromBytes (b : Bytes) : Option Json := do
  let cs ← b.toByteArray.utf8Decode?
  let (v, rest) ← read cs.toList.length cs.toList
  if rest.isEmpty then some v else none

/-- **The round trip through bytes.** -/
theorem fromBytes_toBytes (v : Json) : fromBytes v.toBytes = some v := by
  have hbytes : v.toBytes.toByteArray = (render v).utf8Encode := rfl
  have hread := read_render v noDigit_nil
  rw [List.append_nil] at hread
  rw [fromBytes, hbytes, List.utf8Decode?_utf8Encode]
  simp [hread]

/-- **The bytes determine the value.** -/
theorem toBytes_injective : Function.Injective toBytes := by
  intro v w h
  have hv := fromBytes_toBytes v
  rw [h, fromBytes_toBytes w] at hv
  exact (Option.some.inj hv).symm

end PodpingAlpha.Json
