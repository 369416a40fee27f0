import PodpingAlpha.Library.Text
import Mathlib.Data.List.DropRight

/-!
# Lists in text files

A list is kept in a file with one entry a line. It is read back line by line, trimmed and without the
blank lines.

* `entry_of_mem` — what is read back is trimmed, not empty, and has no line break.
* `entries_print` — a list of such entries is read back as it was printed.
-/

namespace PodpingAlpha.Text

/-- The entries of a file. -/
def entries (file : String) : List String := ((lines file).map trim).filter (· ≠ "")

/-- The file of some entries. -/
def print (es : List String) : String := String.join (es.map (· ++ "\n"))

/-- A text that can be read back from a line of its own. -/
structure Entry (s : String) : Prop where
  /-- It is not empty. -/
  ne_empty : s ≠ ""
  /-- No white space surrounds it. -/
  trimmed : trim s = s
  /-- It is one line. -/
  oneLine : '\n' ∉ s.toList

instance (s : String) : Decidable (Entry s) :=
  decidable_of_iff (s ≠ "" ∧ trim s = s ∧ '\n' ∉ s.toList)
    ⟨fun ⟨h, h', h''⟩ => ⟨h, h', h''⟩, fun ⟨h, h', h''⟩ => ⟨h, h', h''⟩⟩

variable {s : String} {cs line rest : List Char}

/-! ### Trimming -/

theorem trimChars_eq_rdropWhile (cs : List Char) :
    trimChars cs = (cs.dropWhile isWhitespace).rdropWhile isWhitespace := rfl

/-- What is trimmed once is trimmed. -/
theorem trimChars_trimChars (cs : List Char) : trimChars (trimChars cs) = trimChars cs := by
  have hstart : (trimChars cs).dropWhile isWhitespace = trimChars cs := by
    refine List.dropWhile_eq_self_iff.2 fun hlen => ?_
    have hstart' : trimChars cs <+: cs.dropWhile isWhitespace :=
      List.rdropWhile_prefix isWhitespace (cs.dropWhile isWhitespace)
    have hfirst := List.dropWhile_get_zero_not isWhitespace cs (hlen.trans_le hstart'.length_le)
    rwa [hstart'.getElem hlen]
  rw [trimChars_eq_rdropWhile (trimChars cs), hstart]
  exact List.rdropWhile_idempotent isWhitespace _

theorem trim_trim (s : String) : trim (trim s) = trim s := by
  rw [trim, trim, String.toList_ofList, trimChars_trimChars]

/-- What is trimmed does not end in white space. -/
theorem getLast_trimChars (h : trimChars cs = cs) (hne : cs ≠ []) : ¬isWhitespace (cs.getLast hne) := by
  have hlast : (cs.dropWhile isWhitespace).rdropWhile isWhitespace = cs := h
  have hnot := List.rdropWhile_last_not isWhitespace (cs.dropWhile isWhitespace) (by rwa [hlast])
  simpa only [hlast] using hnot

theorem trimChars_sublist (cs : List Char) : (trimChars cs).Sublist cs :=
  (List.rdropWhile_prefix isWhitespace _).sublist.trans (List.dropWhile_sublist isWhitespace)

/-! ### Lines -/

/-- The carriage return of a line that does not end in white space stays. -/
theorem endLine_of_trimmed (h : trimChars cs = cs) : endLine cs.reverse = String.ofList cs := by
  unfold endLine
  split
  · rename_i tail hrev
    have hcs : cs = tail.reverse ++ ['\r'] := by
      rw [← List.reverse_reverse cs, hrev, List.reverse_cons]
    have hspace := getLast_trimChars h (by simp [hcs])
    simp [hcs, isWhitespace] at hspace
  · rw [List.reverse_reverse]

theorem notMem_endLine (h : '\n' ∉ line) : '\n' ∉ (endLine line).toList := by
  unfold endLine
  split <;> simp_all

theorem notMem_linesFrom (h : '\n' ∉ line) : ∀ l ∈ linesFrom line cs, '\n' ∉ l.toList := by
  induction cs generalizing line with
  | nil =>
    intro l hl
    unfold linesFrom at hl
    split at hl
    · exact absurd hl List.not_mem_nil
    · rw [List.mem_singleton.1 hl]
      simpa using h
    · contradiction
  | cons c cs ih =>
    intro l hl
    rw [linesFrom] at hl
    split_ifs at hl with hc
    · rcases List.mem_cons.1 hl with rfl | hl
      · exact notMem_endLine h
      · exact ih List.not_mem_nil l hl
    · exact ih (by simp [h, Ne.symm hc]) l hl

/-- A line ends at its line break. -/
theorem linesFrom_append (h : '\n' ∉ cs) :
    linesFrom line (cs ++ '\n' :: rest) = endLine (cs.reverse ++ line) :: linesFrom [] rest := by
  induction cs generalizing line with
  | nil =>
    rw [List.nil_append, linesFrom, if_pos rfl]
    rfl
  | cons c cs ih =>
    obtain ⟨hc, hcs⟩ := not_or.1 (mt List.mem_cons.2 h)
    rw [List.cons_append, linesFrom, if_neg (Ne.symm hc), ih hcs, List.reverse_cons, List.append_assoc]
    rfl

/-! ### Files -/

/-- **What is read back** is an entry. -/
theorem entry_of_mem {file : String} (h : s ∈ entries file) : Entry s := by
  obtain ⟨hmem, hne⟩ := List.mem_filter.1 h
  obtain ⟨l, hl, rfl⟩ := List.mem_map.1 hmem
  refine ⟨of_decide_eq_true hne, trim_trim l, fun hbreak => ?_⟩
  rw [trim, String.toList_ofList] at hbreak
  exact notMem_linesFrom List.not_mem_nil l hl ((trimChars_sublist _).subset hbreak)

theorem Entry.trimChars_toList (h : Entry s) : trimChars s.toList = s.toList := by
  have htrim := congrArg String.toList h.trimmed
  rwa [trim, String.toList_ofList] at htrim

/-- **A list of entries is read back** as it was printed. -/
theorem entries_print {es : List String} (h : ∀ e ∈ es, Entry e) : entries (print es) = es := by
  have hlines : lines (print es) = es := by
    unfold lines print
    rw [String.toList_join]
    induction es with
    | nil => rfl
    | cons e es ih =>
      obtain ⟨he, hes⟩ := List.forall_mem_cons.1 h
      rw [List.map_cons, List.flatMap_cons, String.toList_append]
      have hbreak : "\n".toList = ['\n'] := rfl
      rw [hbreak, List.append_assoc, List.singleton_append, linesFrom_append he.oneLine, ih hes,
        List.append_nil, endLine_of_trimmed he.trimChars_toList, String.ofList_toList]
  have htrim : es.map trim = es := by
    conv_rhs => rw [← List.map_id es]
    exact List.map_congr_left fun e he => (h e he).trimmed
  rw [entries, hlines, htrim, List.filter_eq_self]
  exact fun e he => decide_eq_true (h e he).ne_empty

end PodpingAlpha.Text
