import Mathlib.Data.List.DropRight

/-!
# Double-ended queues

A double-ended queue is a list with its front first: pushing at the front is `a :: q`, taking from
the front is matching on the list. This module adds taking from the back (`popBack`). Pushing at
the front and taking from the back is a first-in first-out queue, whose items from oldest to newest
are `q.reverse`.

A log of the last `n` items is a list that is pushed at the end and, when it is too long, loses its
head. `rtake_concat` and `rtake_rtake_concat` say that it holds what it should, and
`rtake_eq_concat_iff` when it does not matter that an item was left out.
-/

namespace PodpingAlpha.Deque

universe u

variable {α : Type u}

/-- The item at the back, and what is left. -/
def popBack (q : List α) : Option (α × List α) := q.getLast?.map fun a => (a, q.dropLast)

@[simp] theorem popBack_nil : popBack ([] : List α) = none := rfl

@[simp] theorem popBack_concat (q : List α) (a : α) : popBack (q ++ [a]) = some (a, q) := by
  simp [popBack]

theorem popBack_eq_some {q r : List α} {a : α} : popBack q = some (a, r) ↔ q = r ++ [a] := by
  constructor
  · intro h
    rcases List.eq_nil_or_concat q with rfl | ⟨q', b, rfl⟩
    · simp at h
    · rw [List.concat_eq_append, popBack_concat, Option.some.injEq, Prod.mk.injEq] at h
      rw [List.concat_eq_append, h.1, h.2]
  · rintro rfl
    exact popBack_concat r a

theorem popBack_eq_none {q : List α} : popBack q = none ↔ q = [] := by
  simp [popBack]

/-! ### The last items -/

theorem length_rtake (n : ℕ) (l : List α) : (l.rtake n).length = min n l.length := by
  rw [List.rtake, List.length_drop]
  omega

/-- A list that is not longer than `n` is its last `n` items. -/
theorem rtake_of_length_le {n : ℕ} {l : List α} (h : l.length ≤ n) : l.rtake n = l := by
  rw [List.rtake, Nat.sub_eq_zero_of_le h, List.drop_zero]

/-- Of a longer list, the last `n + 1` items are one item and the last `n`. -/
theorem tail_rtake {n : ℕ} {l : List α} (h : n < l.length) : (l.rtake (n + 1)).tail = l.rtake n := by
  rw [List.rtake, List.rtake, List.tail_drop]
  congr 1
  omega

/-- Pushed at the end and cut at the head, the last `n + 1` items stay the last `n + 1` items. -/
theorem rtake_concat (n : ℕ) (l : List α) (a : α) :
    (l ++ [a]).rtake (n + 1) =
      if (l.rtake (n + 1) ++ [a]).length > n + 1 then (l.rtake (n + 1) ++ [a]).tail
      else l.rtake (n + 1) ++ [a] := by
  have hlen : (l.rtake (n + 1) ++ [a]).length = min (n + 1) l.length + 1 := by
    rw [List.length_append, length_rtake, List.length_singleton]
  rw [List.rtake_concat_succ, hlen]
  rcases Nat.lt_or_ge n l.length with h | h
  · have hne : l.rtake (n + 1) ≠ [] := by
      rw [← List.length_pos_iff, length_rtake]
      omega
    rw [if_pos (by omega), List.tail_append_of_ne_nil hne, tail_rtake h]
  · rw [if_neg (by omega), rtake_of_length_le h, rtake_of_length_le (by omega)]

/-- What was left out before stays out. -/
theorem rtake_rtake_concat (n : ℕ) (l : List α) (a : α) :
    (l.rtake n ++ [a]).rtake n = (l ++ [a]).rtake n := by
  cases n with
  | zero => rw [List.rtake_zero, List.rtake_zero]
  | succ n =>
    rw [List.rtake_concat_succ, List.rtake_concat_succ]
    congr 1
    rw [List.rtake, length_rtake, List.rtake, List.rtake, List.drop_drop]
    congr 1
    omega

/-- A list is its tail and an item exactly when it consists of that item. -/
theorem cons_eq_concat_iff {t : List α} {a b : α} :
    b :: t = t ++ [a] ↔ b :: t = List.replicate (t.length + 1) a := by
  induction t generalizing b with
  | nil => simp
  | cons c t ih =>
    rw [List.cons_append, List.cons_eq_cons, ih, List.length_cons, List.replicate_succ (n := t.length + 1),
      List.cons_eq_cons]
    refine and_congr_left fun h => ?_
    rw [List.replicate_succ, List.cons_eq_cons] at h
    rw [h.1]

/-- The last items are those without the newest exactly when all of them are equal to it. -/
theorem rtake_eq_concat_iff (n : ℕ) (l : List α) (a : α) :
    l.rtake (n + 1) = (l ++ [a]).rtake (n + 1) ↔ l.rtake (n + 1) = List.replicate (n + 1) a := by
  rw [List.rtake_concat_succ]
  rcases Nat.lt_or_ge n l.length with h | h
  · obtain ⟨b, t, ht⟩ := List.exists_cons_of_length_pos (l := l.rtake (n + 1))
      (by rw [length_rtake]; omega)
    have hlen := length_rtake (n + 1) l
    have htail := tail_rtake h
    rw [ht] at hlen htail
    rw [List.tail_cons] at htail
    rw [ht, ← htail, cons_eq_concat_iff]
    have : t.length = n := by
      rw [List.length_cons] at hlen
      omega
    rw [this]
  · have hlen : (l.rtake (n + 1)).length = l.length := by
      rw [length_rtake]
      omega
    refine iff_of_false (fun he => ?_) fun he => ?_
    · have := congrArg List.length he
      rw [List.length_append, hlen, length_rtake, List.length_singleton] at this
      omega
    · have := congrArg List.length he
      rw [List.length_replicate, hlen] at this
      omega

end PodpingAlpha.Deque
