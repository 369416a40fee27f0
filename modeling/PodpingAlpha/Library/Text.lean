import PodpingAlpha.Library.Hex
import PodpingAlpha.Library.Stateful

/-!
# Text

Strings as UTF-8: slices by a number of bytes, which must end on a character boundary, and the
operations on white space and lines. A slice of ASCII text always succeeds, and hexadecimal text is
ASCII.
-/

namespace PodpingAlpha.Text

open Outcome

/-! ### Slices -/

/-- The first `n` bytes, if they end on a character boundary. -/
def takeBytes : ℕ → List Char → Option (List Char)
  | 0, _ => some []
  | _ + 1, [] => none
  | n + 1, c :: cs =>
    if c.utf8Size ≤ n + 1 then (takeBytes (n + 1 - c.utf8Size) cs).map (c :: ·) else none

/-- `&s[..n]`, if it is a slice. -/
def slice (n : ℕ) (s : String) : Option String := (takeBytes n s.toList).map String.ofList

/-- `&s[..n.min(s.len())]`, if it is a slice. -/
def short (n : ℕ) (s : String) : Option String := slice (min n s.utf8ByteSize) s

/-- `&s[..n.min(s.len())]` is a slice. -/
def Cuts (n : ℕ) (s : String) : Prop := (short n s).isSome

instance (n : ℕ) (s : String) : Decidable (Cuts n s) := inferInstanceAs (Decidable (_ = true))

/-- A slice in a program. -/
def cut {σ : Type} (slice : Option String) : Program σ String :=
  match slice with
  | some p => pure p
  | none => throw .notCharBoundary

theorem wp_cut {σ : Type} {slice : Option String} {Q : String → σ → Prop} {E : Panic → σ → Prop}
    {u : σ} : wp (cut slice) Q E u ↔ slice.elim (E .notCharBoundary u) fun p => Q p u := by
  cases slice <;> exact Iff.rfl

theorem keeps_cut {σ υ : Type} {f : σ → υ} {slice : Option String} : Keeps f (cut slice) := by
  cases slice <;> exact fun _ => rfl

theorem wp_cut_short {σ : Type} {n : ℕ} {s : String} {P : σ → Prop} {E : Panic → σ → Prop} {u : σ} :
    wp (cut (short n s)) (fun _ => P) E u ↔ if Cuts n s then P u else E .notCharBoundary u := by
  split_ifs with h
  · obtain ⟨p, hp⟩ := Option.isSome_iff_exists.1 h
    rw [hp]
    exact Iff.rfl
  · rw [Option.not_isSome_iff_eq_none.1 h]
    exact Iff.rfl

/-- The characters are ASCII. -/
def Ascii (cs : List Char) : Prop := ∀ c ∈ cs, c.utf8Size = 1

theorem takeBytes_ascii {cs : List Char} (h : Ascii cs) {n : ℕ} (hn : n ≤ cs.length) :
    takeBytes n cs = some (cs.take n) := by
  induction cs generalizing n with
  | nil =>
    cases Nat.le_zero.1 hn
    rfl
  | cons c cs ih =>
    cases n with
    | zero => rfl
    | succ n =>
      obtain ⟨hc, hcs⟩ := List.forall_mem_cons.1 h
      rw [takeBytes, hc, if_pos (Nat.le_add_left 1 n), Nat.add_sub_cancel,
        ih hcs (Nat.le_of_succ_le_succ hn)]
      rfl

theorem utf8ByteSize_ofList_ascii {cs : List Char} (h : Ascii cs) :
    (String.ofList cs).utf8ByteSize = cs.length := by
  induction cs with
  | nil => rfl
  | cons c cs ih =>
    obtain ⟨hc, hcs⟩ := List.forall_mem_cons.1 h
    rw [String.ofList_cons, String.utf8ByteSize_append, ih hcs, List.length_cons]
    simp [hc, Nat.add_comm]

/-- A slice of ASCII text succeeds. -/
theorem cuts_of_ascii {s : String} (h : Ascii s.toList) (n : ℕ) : Cuts n s := by
  have hsize : s.utf8ByteSize = s.toList.length := by
    rw [← utf8ByteSize_ofList_ascii h, String.ofList_toList]
  rw [Cuts, short, slice]
  rw [takeBytes_ascii h (hsize ▸ Nat.min_le_right _ _)]
  rfl

theorem slice_ascii {s : String} (h : Ascii s.toList) {n : ℕ} (hn : n ≤ s.toList.length) :
    ∃ p, slice n s = some p := by
  rw [slice]
  rw [takeBytes_ascii h hn]
  exact ⟨_, rfl⟩

/-! ### Hexadecimal text -/

theorem utf8Size_of_value {c : Char} {n : ℕ} (h : Hex.value c = some n) : c.utf8Size = 1 := by
  have hval : c.val ≤ 0x7f := by
    unfold Hex.value at h
    split_ifs at h with h1 h2 h3
    · exact UInt32.le_trans h1.2 (by decide)
    · exact UInt32.le_trans h2.2 (by decide)
    · exact UInt32.le_trans h3.2 (by decide)
  simp [Char.utf8Size, hval]

/-- What `decode` reads: two digits for each byte. -/
theorem decodeChars_spec {cs : List Char} {b : Bytes} (h : Hex.decodeChars cs = some b) :
    Ascii cs ∧ cs.length = 2 * b.length := by
  induction cs using Hex.decodeChars.induct generalizing b with
  | case1 =>
    cases h
    exact ⟨nofun, rfl⟩
  | case2 => cases h
  | case3 c d cs ih =>
    simp only [Hex.decodeChars, Option.bind_eq_bind, Option.bind_eq_some_iff] at h
    obtain ⟨hi, hc, lo, hd, bytes, hcs, hb⟩ := h
    cases hb
    obtain ⟨hascii, hlen⟩ := ih hcs
    refine ⟨List.forall_mem_cons.2 ⟨utf8Size_of_value hc, ?_⟩, ?_⟩
    · exact List.forall_mem_cons.2 ⟨utf8Size_of_value hd, hascii⟩
    · simp only [List.length_cons, hlen]
      omega

theorem cuts_of_decode {s : String} {b : Bytes} (h : Hex.decode s = some b) (n : ℕ) : Cuts n s :=
  cuts_of_ascii (decodeChars_spec h).1 n

/-! ### White space and lines -/

/-- `char::is_whitespace`. -/
def isWhitespace (c : Char) : Bool :=
  let n := c.toNat
  (9 ≤ n && n ≤ 13) || n == 0x20 || n == 0x85 || n == 0xA0 || n == 0x1680 ||
    (0x2000 ≤ n && n ≤ 0x200A) || n == 0x2028 || n == 0x2029 || n == 0x202F || n == 0x205F ||
    n == 0x3000

/-- `char::is_control`. -/
def isControl (c : Char) : Bool := c.toNat < 0x20 || (0x7F ≤ c.toNat && c.toNat ≤ 0x9F)

/-- `str::trim`, on characters. -/
def trimChars (cs : List Char) : List Char :=
  ((cs.dropWhile isWhitespace).reverse.dropWhile isWhitespace).reverse

/-- `str::trim`. -/
def trim (s : String) : String := String.ofList (trimChars s.toList)

/-- A line from its characters in reverse, without the carriage return of a `\r\n`. -/
def endLine : List Char → String
  | '\r' :: line => String.ofList line.reverse
  | line => String.ofList line.reverse

/-- `str::lines`, with the characters of the line so far in reverse. -/
def linesFrom : List Char → List Char → List String
  | [], [] => []
  | line, [] => [String.ofList line.reverse]
  | line, c :: cs => if c = '\n' then endLine line :: linesFrom [] cs else linesFrom (c :: line) cs

/-- `str::lines`. -/
def lines (s : String) : List String := linesFrom [] s.toList

end PodpingAlpha.Text
