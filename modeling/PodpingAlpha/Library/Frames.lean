import Mathlib.Algebra.Order.Monoid.Unbundled.Basic
import Mathlib.Data.List.Basic
import Mathlib.Tactic.Ring

/-!
# Frames on a stream

Items are written to a stream one after another, each behind a header that gives its length. A
reader takes a header, gives up at some lengths, takes the item, and goes on until the stream has
too little left. The reader is given fuel, one unit a round.

* `readAll_isSome` — it ends.
* `readAll_put` — it reads what was written.
* `readAll_take` — on a stream that is cut it reads the items whose frames are complete.
-/

namespace PodpingAlpha.Frames

universe u

/-- How a length is written, and at which lengths a reader gives up. -/
structure Format (α : Type u) where
  /-- The length of a header. -/
  width : ℕ
  /-- The header of an item of a length. -/
  encode : ℕ → List α
  /-- The length in a header. -/
  decode : List α → ℕ
  /-- The reader gives up at a length. -/
  Stops : ℕ → Prop
  /-- It can tell. -/
  decStops : DecidablePred Stops
  /-- A header is not empty. -/
  width_pos : 0 < width
  /-- Headers have one length. -/
  length_encode : ∀ n, (encode n).length = width
  /-- Other lengths are read as they were written. -/
  decode_encode : ∀ n, ¬Stops n → decode (encode n) = n

attribute [instance] Format.decStops

/-- The first `n` elements of a stream, if it has as many, and the rest. -/
def readExact {α : Type u} (n : ℕ) (stream : List α) : Option (List α × List α) :=
  if n ≤ stream.length then some (stream.splitAt n) else none

namespace Format

variable {α : Type u} (F : Format α)

/-- An item behind its header. -/
def frame (item : List α) : List α := F.encode item.length ++ item

/-- What is written for some items. -/
def put (items : List (List α)) : List α := items.flatMap F.frame

/-- One round of the reader: the item it takes and the rest of the stream, unless it ends. -/
def next (stream : List α) : Option (List α × List α) := do
  let (header, stream) ← readExact F.width stream
  if F.Stops (F.decode header) then none else readExact (F.decode header) stream

/-- The items that the reader takes. It has not ended if there is no fuel left. -/
def readAll : ℕ → List α → Option (List (List α))
  | 0, _ => none
  | fuel + 1, stream =>
    match F.next stream with
    | none => some []
    | some (item, rest) => (readAll fuel rest).map (item :: ·)

end Format

variable {α : Type u} {F : Format α} {item rest stream : List α} {items : List (List α)} {n : ℕ}

/-! ### One round -/

theorem readExact_append (a b : List α) : readExact a.length (a ++ b) = some (a, b) := by
  rw [readExact, if_pos (by rw [List.length_append]; omega), List.splitAt_eq, List.take_left, List.drop_left]

theorem readExact_eq_some : readExact n stream = some (item, rest) ↔
    stream = item ++ rest ∧ item.length = n := by
  constructor
  · intro h
    rw [readExact] at h
    split_ifs at h with hle
    rw [List.splitAt_eq] at h
    cases h
    exact ⟨(List.take_append_drop n stream).symm, List.length_take_of_le hle⟩
  · rintro ⟨rfl, rfl⟩
    exact readExact_append item rest

theorem readExact_eq_none : readExact n stream = none ↔ stream.length < n := by
  rw [readExact]
  split_ifs with hle
  · exact iff_of_false (fun h => by cases h) (by omega)
  · exact iff_of_true rfl (by omega)

theorem length_frame : (F.frame item).length = F.width + item.length := by
  rw [Format.frame, List.length_append, F.length_encode]

theorem put_cons : F.put (item :: items) = F.frame item ++ F.put items := List.flatMap_cons

/-- What one round takes: a header, and an item of a length at which the reader goes on. -/
theorem next_eq_some : F.next stream = some (item, rest) ↔ ∃ header,
    stream = header ++ (item ++ rest) ∧ header.length = F.width ∧ F.decode header = item.length ∧
      ¬F.Stops item.length := by
  rw [Format.next]
  constructor
  · intro hnext
    obtain ⟨⟨header, stream⟩, hheader, h⟩ := Option.bind_eq_some_iff.1 hnext
    obtain ⟨rfl, hwidth⟩ := readExact_eq_some.1 hheader
    change (if F.Stops (F.decode header) then none else readExact (F.decode header) stream) = _ at h
    split_ifs at h with hstops
    obtain ⟨rfl, hlength⟩ := readExact_eq_some.1 h
    exact ⟨header, rfl, hwidth, hlength.symm, hlength ▸ hstops⟩
  · rintro ⟨header, rfl, hwidth, hlength, hstops⟩
    rw [readExact_eq_some.2 ⟨rfl, hwidth⟩]
    show (if F.Stops (F.decode header) then none else readExact (F.decode header) (item ++ rest)) = _
    rw [hlength, if_neg hstops, readExact_append]

/-- A round takes something. -/
theorem length_next (h : F.next stream = some (item, rest)) : rest.length < stream.length := by
  obtain ⟨header, rfl, hwidth, -, -⟩ := next_eq_some.1 h
  have hpos := F.width_pos
  rw [List.length_append, List.length_append]
  omega

/-- A frame is read back, whatever follows it. -/
theorem next_frame (h : ¬F.Stops item.length) (rest : List α) :
    F.next (F.frame item ++ rest) = some (item, rest) :=
  next_eq_some.2 ⟨F.encode item.length, List.append_assoc _ _ _, F.length_encode _,
    F.decode_encode _ h, h⟩

/-- Nothing is read from a frame that is cut. -/
theorem next_cut (h : ¬F.Stops item.length) (hn : n < (F.frame item).length) :
    F.next ((F.frame item).take n) = none := by
  rw [Option.eq_none_iff_forall_not_mem]
  rintro ⟨got, rest⟩ hgot
  obtain ⟨header, hstream, hwidth, hlength, -⟩ := next_eq_some.1 hgot
  -- the header is there in full, and is the frame's
  have hlen := congrArg List.length hstream
  rw [List.length_take, List.length_append, List.length_append, hwidth, ← hlength] at hlen
  have hheader : header = F.encode item.length := by
    have htake := congrArg (List.take F.width) hstream
    rw [List.take_take, ← hwidth, List.take_left, hwidth, min_eq_left (by omega), Format.frame,
      ← F.length_encode item.length, List.take_left] at htake
    exact htake.symm
  rw [hheader, F.decode_encode _ h] at hlen
  rw [length_frame] at hn hlen
  omega

/-! ### All rounds -/

/-- **The reader ends** within one round more than the stream has elements. -/
theorem readAll_isSome {fuel : ℕ} (hfuel : stream.length < fuel) : (F.readAll fuel stream).isSome := by
  induction fuel generalizing stream with
  | zero => omega
  | succ fuel ih =>
    rw [Format.readAll]
    cases hnext : F.next stream with
    | none => rfl
    | some taken =>
      have hshort := length_next hnext
      rw [Option.isSome_map]
      exact ih (by omega)

/-- **A stream that is cut** gives the items whose frames are complete. -/
theorem readAll_take (hitems : ∀ item ∈ items, ¬F.Stops item.length) {fuel : ℕ}
    (hfuel : ((F.put items).take n).length < fuel) : ∃ k ≤ items.length,
      F.readAll fuel ((F.put items).take n) = some (items.take k) ∧
      ∀ j ≤ items.length, (F.put (items.take j)).length ≤ n ↔ j ≤ k := by
  induction items generalizing n fuel with
  | nil =>
    obtain ⟨fuel, rfl⟩ := Nat.exists_eq_add_one.2 (Nat.zero_lt_of_lt hfuel)
    have hnext : F.next ([] : List α) = none := by
      have hshort : readExact F.width ([] : List α) = none := readExact_eq_none.2 F.width_pos
      rw [Format.next, hshort]
      rfl
    refine ⟨0, le_rfl, ?_, fun j hj => ?_⟩
    · rw [Format.put, List.flatMap_nil, List.take_nil, Format.readAll, hnext, List.take_nil]
    · exact iff_of_true (by rw [List.take_nil]; exact Nat.zero_le n) hj
  | cons item items ih =>
    obtain ⟨hitem, hitems⟩ := List.forall_mem_cons.1 hitems
    obtain ⟨fuel, rfl⟩ := Nat.exists_eq_add_one.2 (Nat.zero_lt_of_lt hfuel)
    have hlength : ∀ j, (F.put ((item :: items).take (j + 1))).length =
        (F.frame item).length + (F.put (items.take j)).length := fun j => by
      rw [List.take_succ_cons, put_cons, List.length_append]
    have hpos : 0 < (F.frame item).length := by
      have := F.width_pos
      rw [length_frame]
      omega
    rw [put_cons] at hfuel ⊢
    by_cases hn : n < (F.frame item).length
    · -- the first frame is cut
      refine ⟨0, Nat.zero_le _, ?_, fun j _ => ?_⟩
      · rw [List.take_append_of_le_length hn.le, Format.readAll, next_cut hitem hn, List.take_zero]
      · cases j with
        | zero => exact iff_of_true (Nat.zero_le n) le_rfl
        | succ j =>
          refine iff_of_false ?_ (by omega)
          rw [hlength]
          omega
    · obtain ⟨n, rfl⟩ := Nat.exists_eq_add_of_le (Nat.le_of_not_lt hn)
      rw [List.take_length_add_append] at hfuel ⊢
      rw [List.length_append] at hfuel
      obtain ⟨k, hk, hread, hcomplete⟩ := @ih n hitems fuel (by omega)
      refine ⟨k + 1, Nat.succ_le_succ hk, ?_, fun j hj => ?_⟩
      · rw [Format.readAll, next_frame hitem]
        dsimp only
        rw [hread, Option.map_some, List.take_succ_cons]
      · cases j with
        | zero => exact iff_of_true (Nat.zero_le _) (Nat.zero_le _)
        | succ j =>
          have hiff := hcomplete j (Nat.le_of_succ_le_succ hj)
          rw [hlength]
          omega

/-- **A stream that is complete** gives all items. -/
theorem readAll_put (hitems : ∀ item ∈ items, ¬F.Stops item.length) {fuel : ℕ}
    (hfuel : (F.put items).length < fuel) : F.readAll fuel (F.put items) = some items := by
  have hall : (F.put items).take (F.put items).length = F.put items := List.take_length
  obtain ⟨k, hk, hread, hcomplete⟩ := readAll_take (n := (F.put items).length) hitems (by rwa [hall])
  have hlast := (hcomplete items.length le_rfl).1 (by rw [List.take_length])
  rwa [hall, List.take_of_length_le hlast] at hread

end PodpingAlpha.Frames
