import Mathlib.Data.List.Nodup

/-!
# Keyed tables

A table with a primary key: rows in insertion order, no two of them with one key. The operations are
those of SQL on a key (`INSERT`, `UPDATE ... WHERE key = k`, `DELETE ... WHERE key = k`) and of a map
(`insert`, `retain`), each with one lemma saying what `find?` reads after it.
-/

namespace PodpingAlpha

universe u v

/-- A table of rows `ρ` with primary key `key`. -/
structure Table {ρ : Type u} {κ : Type v} (key : ρ → κ) where
  /-- The rows, oldest first. -/
  rows : List ρ
  /-- The key is unique. -/
  nodup : (rows.map key).Nodup
  deriving DecidableEq

namespace Table

variable {ρ : Type u} {κ : Type v} {key : ρ → κ}

/-- The empty table. -/
def empty : Table key := ⟨[], List.nodup_nil⟩

/-- `UPDATE`, by a function that keeps the key of every row. -/
def map (t : Table key) (f : ρ → ρ) (hf : ∀ r, key (f r) = key r) : Table key :=
  ⟨t.rows.map f, by
    rw [List.map_map, show key ∘ f = key from funext hf]
    exact t.nodup⟩

/-- `retain`. -/
def retain (t : Table key) (p : ρ → Bool) : Table key :=
  ⟨t.rows.filter p, t.nodup.sublist (List.filter_sublist.map key)⟩

/-- What is as long as before has lost nothing. -/
theorem retain_eq_self {t : Table key} {p : ρ → Bool}
    (h : t.rows.length - (t.retain p).rows.length = 0) : t.retain p = t := by
  have hrows : t.rows.filter p = t.rows :=
    List.filter_sublist.eq_of_length_le (Nat.sub_eq_zero_iff_le.1 h)
  cases t
  exact (Table.mk.injEq ..).mpr hrows

variable [DecidableEq κ]

/-- The row with a key. -/
def find? (t : Table key) (k : κ) : Option ρ := t.rows.find? fun r => key r = k

/-- `INSERT`; `none` on a key conflict. -/
def insert? (t : Table key) (r : ρ) : Option (Table key) :=
  if h : key r ∈ t.rows.map key then none
  else some ⟨t.rows ++ [r], by
    rw [List.map_append, List.nodup_append]
    exact ⟨t.nodup, List.nodup_singleton _, fun a ha b hb =>
      List.mem_singleton.1 hb ▸ fun heq => h (heq ▸ ha)⟩⟩

/-- `f` on the rows with one key. -/
def onKey (key : ρ → κ) (k : κ) (f : ρ → ρ) (r : ρ) : ρ := if key r = k then f r else r

theorem key_onKey {k : κ} {f : ρ → ρ} (hf : ∀ r, key (f r) = key r) (r : ρ) :
    key (onKey key k f r) = key r := by
  unfold onKey
  split_ifs
  · exact hf r
  · rfl

/-- `UPDATE ... WHERE key = k`. -/
def update (t : Table key) (k : κ) (f : ρ → ρ) (hf : ∀ r, key (f r) = key r) : Table key :=
  t.map (onKey key k f) (key_onKey hf)

/-- `DELETE ... WHERE key = k`. -/
def delete (t : Table key) (k : κ) : Table key :=
  ⟨t.rows.filter fun r => key r ≠ k, t.nodup.sublist (List.filter_sublist.map key)⟩

/-- `insert` of a map: the row takes the place of the one with its key. -/
def put (t : Table key) (r : ρ) : Table key where
  rows := (t.delete (key r)).rows ++ [r]
  nodup := by
    rw [List.map_append, List.nodup_append]
    refine ⟨(t.delete (key r)).nodup, List.nodup_singleton _, fun a ha b hb => ?_⟩
    obtain ⟨r', hr', rfl⟩ := List.mem_map.1 ha
    rw [List.mem_singleton.1 hb]
    exact of_decide_eq_true (List.mem_filter.1 hr').2

/-! ### What `find?` reads -/

theorem find?_eq_some {t : Table key} {k : κ} {r : ρ} :
    t.find? k = some r ↔ r ∈ t.rows ∧ key r = k := by
  constructor
  · intro h
    exact ⟨List.mem_of_find?_eq_some h, by simpa using List.find?_some h⟩
  · rintro ⟨hr, rfl⟩
    cases hf : t.find? (key r) with
    | none => exact absurd (List.find?_eq_none.1 hf r hr) (by simp)
    | some r' =>
      have hr' : r' ∈ t.rows := List.mem_of_find?_eq_some hf
      have hk : key r' = key r := by simpa using List.find?_some hf
      rw [List.inj_on_of_nodup_map t.nodup hr' hr hk]

theorem find?_eq_none {t : Table key} {k : κ} : t.find? k = none ↔ k ∉ t.rows.map key := by
  simp [find?]

theorem insert?_eq_none {t : Table key} {r : ρ} :
    t.insert? r = none ↔ ∃ r', t.find? (key r) = some r' := by
  rw [← Option.isSome_iff_exists, ← Option.not_isNone, Bool.not_eq_true', ← Bool.not_eq_true,
    Option.isNone_iff_eq_none, find?_eq_none, not_not, insert?]
  split_ifs with h
  · exact iff_of_true rfl h
  · exact iff_of_false nofun h

theorem rows_insert? {t t' : Table key} {r : ρ} (h : t.insert? r = some t') :
    t'.rows = t.rows ++ [r] := by
  unfold insert? at h
  split_ifs at h
  cases h
  rfl

theorem find?_of_insert? {t t' : Table key} {r : ρ} (h : t.insert? r = some t') :
    t.find? (key r) = none := by
  by_contra hf
  rw [insert?_eq_none.2 (Option.ne_none_iff_exists'.1 hf)] at h
  cases h

theorem find?_insert? {t t' : Table key} {r : ρ} (h : t.insert? r = some t') (k : κ) :
    t'.find? k = if key r = k then some r else t.find? k := by
  have hfresh : t.find? (key r) = none := find?_of_insert? h
  rw [find?, rows_insert? h, List.find?_append, ← find?]
  split_ifs with hk
  · subst hk
    simp [hfresh]
  · simp [hk]

theorem find?_map {t : Table key} {f : ρ → ρ} {hf : ∀ r, key (f r) = key r} (k : κ) :
    (t.map f hf).find? k = (t.find? k).map f := by
  simp only [find?, map, List.find?_map, Function.comp_def, hf]

theorem find?_update {t : Table key} {k : κ} {f : ρ → ρ} {hf : ∀ r, key (f r) = key r} (k' : κ) :
    (t.update k f hf).find? k' = if k' = k then (t.find? k').map f else t.find? k' := by
  rw [update, find?_map]
  cases hr : t.find? k' with
  | none => exact (ite_self _).symm
  | some r =>
    have hkey : key r = k' := (find?_eq_some.1 hr).2
    simp only [Option.map_some, onKey, hkey]
    exact apply_ite some _ _ _

/-- An update changes nothing when it leaves the row with that key as it is. -/
theorem update_eq_self_iff {t : Table key} {k : κ} {f : ρ → ρ} {hf : ∀ r, key (f r) = key r} :
    t.update k f hf = t ↔ ∀ r, t.find? k = some r → f r = r := by
  have hrows : t.update k f hf = t ↔ t.rows.map (onKey key k f) = t.rows.map id := by
    rw [List.map_id]
    exact ⟨fun h => congrArg rows h, fun h => by cases t; exact Table.mk.injEq .. |>.mpr h⟩
  rw [hrows, List.map_inj_left]
  constructor
  · intro h r hr
    obtain ⟨hmem, rfl⟩ := find?_eq_some.1 hr
    simpa [onKey] using h r hmem
  · intro h r hr
    unfold onKey
    split_ifs with hk
    · exact h r (find?_eq_some.2 ⟨hr, hk⟩)
    · rfl

theorem find?_delete {t : Table key} {k : κ} (k' : κ) :
    (t.delete k).find? k' = if k' = k then none else t.find? k' := by
  simp only [find?, delete, List.find?_filter]
  split_ifs with hk
  · refine List.find?_eq_none.2 fun r _ => ?_
    simp [hk]
  · refine congrArg (List.find? · t.rows) (funext fun r => ?_)
    by_cases hr : key r = k'
    · simp [hr, hk]
    · simp [hr]

theorem find?_put {t : Table key} {r : ρ} (k : κ) :
    (t.put r).find? k = if k = key r then some r else t.find? k := by
  rw [find?, put, List.find?_append, ← find?, find?_delete]
  split_ifs with hk
  · simp [hk]
  · simp [Ne.symm hk]

theorem find?_retain {t : Table key} {p : ρ → Bool} (k : κ) :
    (t.retain p).find? k = (t.find? k).filter p := by
  refine Option.ext fun r => ?_
  rw [Option.filter_eq_some_iff, find?_eq_some, find?_eq_some, retain, List.mem_filter]
  tauto

end Table

end PodpingAlpha
