import Mathlib.Data.List.Basic

/-!
# Greedy chunks

A list cut into chunks from left to right, each as long as a test allows. The test may change its
mind from one call to the next, so it is given the number of the call.

* `flatten_chunks` — the chunks hold all items, in order.
* `ne_nil_of_mem_chunks`, `isChain_chunks` — no chunk is empty, and none could have been longer.
* `tested_of_mem_chunks` — every chunk passed a test, or is a single item.
-/

namespace PodpingAlpha.Greedy

universe u

variable {α : Type u}

/-- The chunks of `current` followed by the items, where `fits k` is the `k`-th test. An item that
does not fit begins a chunk of its own, untested. -/
def chunks (fits : ℕ → List α → Bool) : ℕ → List α → List α → List (List α)
  | _, current, [] => if current.isEmpty then [] else [current]
  | k, current, item :: items =>
    if fits k (current ++ [item]) then chunks fits (k + 1) (current ++ [item]) items
    else if current.isEmpty then chunks fits (k + 1) [item] items
    else current :: chunks fits (k + 1) [item] items

/-- The chunks hold all items, in order. -/
theorem flatten_chunks (fits : ℕ → List α → Bool) (k : ℕ) (current items : List α) :
    (chunks fits k current items).flatten = current ++ items := by
  induction items generalizing k current with
  | nil =>
    rw [chunks]
    split_ifs with h
    · simp [List.isEmpty_iff.1 h]
    · simp
  | cons item items ih =>
    rw [chunks]
    split_ifs with hfits h
    · simp [ih]
    · simp [ih, List.isEmpty_iff.1 h]
    · simp [ih]

/-- The first chunk goes on from what was begun. -/
theorem head_chunks (fits : ℕ → List α → Bool) (k : ℕ) {current : List α} (hne : current ≠ [])
    (items : List α) : ∃ more rest, chunks fits k current items = (current ++ more) :: rest := by
  induction items generalizing k current with
  | nil => exact ⟨[], [], by simp [chunks, hne]⟩
  | cons item items ih =>
    rw [chunks]
    split_ifs with hfits h
    · obtain ⟨more, rest, heq⟩ := ih (k + 1) (List.append_ne_nil_of_right_ne_nil current (List.cons_ne_nil item []))
      exact ⟨item :: more, rest, by rw [heq, List.append_assoc, List.singleton_append]⟩
    · exact absurd (List.isEmpty_iff.1 h) hne
    · exact ⟨[], _, by rw [List.append_nil]⟩

/-- No chunk is empty. -/
theorem ne_nil_of_mem_chunks {fits : ℕ → List α → Bool} {k : ℕ} {current items chunk : List α}
    (h : chunk ∈ chunks fits k current items) : chunk ≠ [] := by
  induction items generalizing k current with
  | nil =>
    unfold chunks at h
    split_ifs at h with hempty
    · cases h
    · obtain rfl := List.mem_singleton.1 h
      exact fun hnil => hempty (List.isEmpty_iff.2 hnil)
  | cons item items ih =>
    unfold chunks at h
    split_ifs at h with hfits hempty
    · exact ih h
    · exact ih h
    · rcases List.mem_cons.1 h with rfl | h
      · exact fun hnil => hempty (List.isEmpty_iff.2 hnil)
      · exact ih h

/-- Every chunk passed the test at a call from `lo` on and before the last, or is a single item. -/
theorem tested_of_mem_chunks {fits : ℕ → List α → Bool} {lo k : ℕ} {current items chunk : List α}
    (hlo : lo ≤ k) (hcurrent : current.length ≤ 1 ∨ ∃ j, lo ≤ j ∧ j < k ∧ fits j current)
    (h : chunk ∈ chunks fits k current items) :
    chunk.length ≤ 1 ∨ ∃ j, lo ≤ j ∧ j < k + items.length ∧ fits j chunk := by
  induction items generalizing k current with
  | nil =>
    unfold chunks at h
    split_ifs at h
    · cases h
    · obtain rfl := List.mem_singleton.1 h
      exact hcurrent
  | cons item items ih =>
    have hlen : k + (item :: items).length = k + 1 + items.length := by
      rw [List.length_cons]
      omega
    have hsingle : [item].length ≤ 1 := Nat.le_refl 1
    rw [hlen]
    unfold chunks at h
    split_ifs at h with hfits hempty
    · exact ih (by omega) (.inr ⟨k, hlo, Nat.lt_succ_self k, hfits⟩) h
    · exact ih (by omega) (.inl hsingle) h
    · rcases List.mem_cons.1 h with rfl | h
      · refine hcurrent.imp_right fun ⟨j, hle, hlt, hj⟩ => ⟨j, hle, ?_, hj⟩
        omega
      · exact ih (by omega) (.inl hsingle) h

/-- The chunk does not fit together with the first item of the next one, at a call of the test from `lo`
on and before `hi`. -/
def Full (fits : ℕ → List α → Bool) (lo hi : ℕ) (chunk next : List α) : Prop :=
  ∃ item rest k, next = item :: rest ∧ lo ≤ k ∧ k < hi ∧ fits k (chunk ++ [item]) = false

theorem Full.mono {fits : ℕ → List α → Bool} {lo hi lo' hi' : ℕ} {chunk next : List α}
    (h : Full fits lo hi chunk next) (hlo : lo' ≤ lo) (hhi : hi ≤ hi') : Full fits lo' hi' chunk next := by
  obtain ⟨item, rest, k, hnext, hle, hlt, hfits⟩ := h
  exact ⟨item, rest, k, hnext, Nat.le_trans hlo hle, Nat.lt_of_lt_of_le hlt hhi, hfits⟩

/-- **No chunk but the last could have been longer.** -/
theorem isChain_chunks (fits : ℕ → List α → Bool) (k : ℕ) (current items : List α) :
    (chunks fits k current items).IsChain (Full fits k (k + items.length)) := by
  induction items generalizing k current with
  | nil =>
    rw [chunks]
    split_ifs
    · exact List.IsChain.nil
    · exact List.IsChain.singleton _
  | cons item items ih =>
    -- the later calls are among these
    have hlater : ∀ current', (chunks fits (k + 1) current' items).IsChain
        (Full fits k (k + (item :: items).length)) := by
      intro current'
      refine (ih (k + 1) current').imp fun chunk next h => h.mono (Nat.le_succ k) ?_
      rw [List.length_cons]
      omega
    rw [chunks]
    split_ifs with hfits h
    · exact hlater (current ++ [item])
    · exact hlater [item]
    · -- the chunk is closed because of the item that begins the next one
      obtain ⟨more, rest, heq⟩ := head_chunks fits (k + 1) (List.cons_ne_nil item []) items
      have hchain := hlater [item]
      rw [heq] at hchain ⊢
      refine hchain.cons_cons ⟨item, more, k, rfl, Nat.le_refl k, ?_, by simpa using hfits⟩
      rw [List.length_cons]
      omega

end PodpingAlpha.Greedy
