import Mathlib.Data.Finset.Card
import Mathlib.Data.Set.Lattice

/-!
# Closure under guarded rules

A rule `i` has a guard, an element or nothing, and adds its elements to a set that has the guard.
The closure of a set under finitely many rules is the least set that contains it and on which no rule
has anything left to add. Applying rules in any order stays inside the closure, and as many rounds as
there are rules reach it, each round applying every rule in some order.

* `applyAll_subset` — no order leaves the closure.
* `coe_applyAll_rounds` — the rounds reach it.
-/

namespace PodpingAlpha

universe u v

/-- Rules `ι` on sets of `α`. -/
structure Rules (ι : Type u) (α : Type v) where
  /-- What must be in the set for the rule to fire; a rule without a guard never fires. -/
  guard : ι → Option α
  /-- What the rule adds. -/
  gives : ι → Finset α

namespace Rules

variable {ι : Type u} {α : Type v} (R : Rules ι α)

/-- No rule of `M` has anything to add to `S`. -/
def Closed (M : Finset ι) (S : Set α) : Prop := ∀ i ∈ M, ∀ g ∈ R.guard i, g ∈ S → ↑(R.gives i) ⊆ S

/-- The least closed set around `T`. -/
def closure (M : Finset ι) (T : Finset α) : Set α := ⋂₀ {S | ↑T ⊆ S ∧ R.Closed M S}

variable {R} {M : Finset ι} {S T : Finset α} {i : ι} {is : List ι}

/-- The closure is the least of the closed sets around `T`. -/
theorem isLeast_closure : IsLeast {S : Set α | ↑T ⊆ S ∧ R.Closed M S} (R.closure M T) := by
  refine ⟨⟨Set.subset_sInter fun S hS => hS.1, ?_⟩, fun S hS => Set.sInter_subset_of_mem hS⟩
  intro i hi g hg hmem
  refine Set.subset_sInter fun S hS => hS.2 i hi g hg ?_
  exact hmem S hS

/-- A closed set around `T` inside its closure is the closure. -/
theorem eq_closure (hT : T ⊆ S) (hclosed : R.Closed M ↑S) (hS : ↑S ⊆ R.closure M T) :
    ↑S = R.closure M T :=
  hS.antisymm (isLeast_closure.2 ⟨Finset.coe_subset.2 hT, hclosed⟩)

variable [DecidableEq α]

/-- A rule, applied. -/
def apply (R : Rules ι α) (i : ι) (S : Finset α) : Finset α :=
  (R.guard i).elim S fun g => if g ∈ S then S ∪ R.gives i else S

/-- Rules, applied one after the other. -/
def applyAll (R : Rules ι α) (is : List ι) (S : Finset α) : Finset α :=
  is.foldl (fun S i => R.apply i S) S

/-- The rules of `M` that fire on `S`. -/
def active (R : Rules ι α) (M : Finset ι) (S : Finset α) : Finset ι :=
  M.filter fun i => ∃ g ∈ R.guard i, g ∈ S

/-! ### Applying only adds -/

theorem subset_apply : S ⊆ R.apply i S := by
  rw [apply]
  cases R.guard i with
  | none => exact subset_rfl
  | some g =>
    rw [Option.elim_some]
    split_ifs
    · exact Finset.subset_union_left
    · exact subset_rfl

theorem subset_applyAll : S ⊆ R.applyAll is S := by
  induction is generalizing S with
  | nil => exact subset_rfl
  | cons i is ih => exact subset_apply.trans ih

theorem applyAll_append {js : List ι} : R.applyAll (is ++ js) S = R.applyAll js (R.applyAll is S) :=
  List.foldl_append

/-! ### Staying inside -/

theorem apply_subset {C : Set α} (hC : R.Closed M C) (hi : i ∈ M) (hS : ↑S ⊆ C) :
    ↑(R.apply i S) ⊆ C := by
  rw [apply]
  cases hg : R.guard i with
  | none => exact hS
  | some g =>
    rw [Option.elim_some]
    split_ifs with hmem
    · rw [Finset.coe_union]
      exact Set.union_subset hS (hC i hi g hg (hS hmem))
    · exact hS

/-- Rules of `M` do not lead out of a set that is closed under `M`. -/
theorem applyAll_subset {C : Set α} (hC : R.Closed M C) (his : ∀ i ∈ is, i ∈ M) (hS : ↑S ⊆ C) :
    ↑(R.applyAll is S) ⊆ C := by
  induction is generalizing S with
  | nil => exact hS
  | cons i is ih =>
    obtain ⟨hi, his⟩ := List.forall_mem_cons.1 his
    exact ih his (apply_subset hC hi hS)

/-- On a closed set the rules add nothing. -/
theorem applyAll_of_closed (hS : R.Closed M ↑S) (his : ∀ i ∈ is, i ∈ M) : R.applyAll is S = S :=
  (Finset.coe_subset.1 (applyAll_subset hS his subset_rfl)).antisymm subset_applyAll

/-! ### Rounds -/

theorem gives_subset_apply {g : α} (hg : R.guard i = some g) (hmem : g ∈ S) :
    R.gives i ⊆ R.apply i S := by
  rw [apply]
  rw [hg, Option.elim_some, if_pos hmem]
  exact Finset.subset_union_right

theorem gives_subset_applyAll {g : α} (hi : i ∈ is) (hg : R.guard i = some g) (hmem : g ∈ S) :
    R.gives i ⊆ R.applyAll is S := by
  induction is generalizing S with
  | nil => cases hi
  | cons j is ih =>
    rcases List.mem_cons.1 hi with rfl | hi
    · exact (gives_subset_apply hg hmem).trans subset_applyAll
    · exact ih hi (subset_apply hmem)

theorem active_mono (h : S ⊆ T) : R.active M S ⊆ R.active M T :=
  Finset.monotone_filter_right M fun _ _ ⟨g, hg, hmem⟩ => ⟨g, hg, h hmem⟩

/-- After a round either no rule has anything left to add, or more rules fire than before. -/
theorem closed_or_active_ssubset (hround : ∀ i ∈ M, i ∈ is) :
    R.Closed M ↑(R.applyAll is S) ∨ R.active M S ⊂ R.active M (R.applyAll is S) := by
  by_cases h : R.active M (R.applyAll is S) ⊆ R.active M S
  · refine .inl fun i hi g hg hmem => ?_
    obtain ⟨-, g', hg', hmem'⟩ := Finset.mem_filter.1 (h (Finset.mem_filter.2 ⟨hi, g, hg, hmem⟩))
    exact Finset.coe_subset.2 (gives_subset_applyAll (hround i hi) hg' hmem')
  · exact .inr ⟨active_mono subset_applyAll, h⟩

/-- Rounds make more and more rules fire, until no rule has anything left to add. -/
theorem closed_or_card_le {rounds : List (List ι)} (hM : ∀ round ∈ rounds, ∀ i ∈ round, i ∈ M)
    (hrounds : ∀ round ∈ rounds, ∀ i ∈ M, i ∈ round) :
    R.Closed M ↑(R.applyAll rounds.flatten S) ∨
      (R.active M S).card + rounds.length ≤ (R.active M (R.applyAll rounds.flatten S)).card := by
  induction rounds generalizing S with
  | nil => exact .inr le_rfl
  | cons round rounds ih =>
    obtain ⟨-, hM⟩ := List.forall_mem_cons.1 hM
    obtain ⟨hround, hrounds⟩ := List.forall_mem_cons.1 hrounds
    rw [List.flatten_cons, applyAll_append]
    rcases closed_or_active_ssubset (S := S) hround with hclosed | hmore
    · have hrest : ∀ i ∈ rounds.flatten, i ∈ M := fun i hi => by
        obtain ⟨round', hround', hi⟩ := List.mem_flatten.1 hi
        exact hM round' hround' i hi
      rw [applyAll_of_closed hclosed hrest]
      exact .inl hclosed
    · refine (ih hM hrounds).imp_right fun hcard => ?_
      have hlt := Finset.card_lt_card hmore
      rw [List.length_cons]
      omega

/-- **Rounds reach the closure**: as many rounds as there are rules, each applying every rule. -/
theorem coe_applyAll_rounds {rounds : List (List ι)}
    (hM : ∀ round ∈ rounds, ∀ i ∈ round, i ∈ M) (hrounds : ∀ round ∈ rounds, ∀ i ∈ M, i ∈ round)
    (hlen : M.card ≤ rounds.length) : ↑(R.applyAll rounds.flatten T) = R.closure M T := by
  have hrest : ∀ i ∈ rounds.flatten, i ∈ M := fun i hi => by
    obtain ⟨round, hround, hi⟩ := List.mem_flatten.1 hi
    exact hM round hround i hi
  refine eq_closure subset_applyAll ?_ (applyAll_subset isLeast_closure.1.2 hrest isLeast_closure.1.1)
  rcases closed_or_card_le (R := R) (S := T) hM hrounds with hclosed | hcard
  · exact hclosed
  · -- every rule fires in the end, so none fires at the start
    have hle : (R.active M (R.applyAll rounds.flatten T)).card ≤ M.card :=
      Finset.card_le_card (Finset.filter_subset _ _)
    have hnone : R.active M T = ∅ := Finset.card_eq_zero.1 (by omega)
    have hclosed : R.Closed M ↑T := fun i hi g hg hmem =>
      absurd (Finset.mem_filter.2 ⟨hi, g, hg, hmem⟩) (hnone ▸ Finset.notMem_empty i)
    rw [applyAll_of_closed hclosed hrest]
    exact hclosed

end Rules

end PodpingAlpha
