import PodpingAlpha.Library.Outcome
import Mathlib.Logic.Function.Basic

/-!
# Hash tables

A hash table is what is under each key. To index it by a key that is not there panics. A program that
only uses keys that are there does to the tables what it would do to functions.

* `index_on`, `modify_on`, `insert_on`, `mapValues_on`, `fill_eq` — one operation on a table with given
  keys.
* `foldlM_eq`, `foldlM_pure` — a loop, with an invariant and without one.
-/

namespace PodpingAlpha

open Outcome (Rust)

universe u v w

/-- A hash table. -/
def KeyMap (κ : Type u) (α : Type v) := κ → Option α

namespace KeyMap

variable {κ : Type u} {α : Type v} {β : Type w} [DecidableEq κ]

/-- A table without keys. -/
def empty : KeyMap κ α := fun _ => none

/-- `map.insert(key, a)`. -/
def insert (map : KeyMap κ α) (key : κ) (a : α) : KeyMap κ α :=
  fun k => if k = key then some a else map k

/-- `map[key]`. -/
def index (map : KeyMap κ α) (key : κ) : Rust α :=
  match map key with
  | some a => .ok a
  | none => .error (.expect "no entry found for key")

/-- A change of `*map.get_mut(key).unwrap()`. -/
def modify (map : KeyMap κ α) (key : κ) (change : α → α) : Rust (KeyMap κ α) :=
  match map key with
  | some a => .ok (map.insert key (change a))
  | none => .error .unwrap

/-- A change of every value of `map.values_mut()`. -/
def mapValues (change : α → β) (map : KeyMap κ α) : KeyMap κ β := fun key => (map key).map change

/-- A table with the same value under each key of a list. -/
def fill (keys : List κ) (a : α) : KeyMap κ α := keys.foldl (fun map key => map.insert key a) empty

/-- A table with given keys. -/
def on (keys : List κ) (f : κ → α) : KeyMap κ α := fun key => if key ∈ keys then some (f key) else none

variable {keys : List κ} {f : κ → α} {key : κ}

theorem on_of_mem (h : key ∈ keys) : on keys f key = some (f key) := if_pos h

theorem insert_on (h : key ∈ keys) (a : α) :
    (on keys f).insert key a = on keys (Function.update f key a) := by
  funext k
  by_cases hk : k = key
  · subst hk
    simp [insert, on, h]
  · simp [insert, on, hk]

theorem index_on (h : key ∈ keys) : (on keys f).index key = .ok (f key) := by
  rw [index, on_of_mem h]

theorem modify_on (h : key ∈ keys) (change : α → α) :
    (on keys f).modify key change = .ok (on keys (Function.update f key (change (f key)))) := by
  rw [modify, on_of_mem h, ← insert_on h]

theorem mapValues_on (change : α → β) :
    (on keys f).mapValues change = on keys fun key => change (f key) := by
  funext k
  by_cases hk : k ∈ keys <;> simp [mapValues, on, hk]

theorem fill_eq (keys : List κ) (a : α) : fill keys a = on keys fun _ => a := by
  have hfold : ∀ (map : KeyMap κ α) key, keys.foldl (fun map key => map.insert key a) map key =
      if key ∈ keys then some a else map key := by
    induction keys with
    | nil => simp
    | cons k keys ih =>
      intro map key
      rw [List.foldl_cons, ih]
      by_cases hk : key = k
      · simp [hk, insert]
      · simp [hk, insert, List.mem_cons]
  funext key
  exact hfold empty key

end KeyMap

/-- **A loop**: let `a` turn states into those of a loop that may panic, and let each of its rounds
return and do what `g` does, where an invariant holds. Then so does the loop. -/
theorem foldlM_eq {m : Type u → Type v} [Monad m] [LawfulMonad m] {σ : Type*} {ι : Type*} {τ : Type u}
    {f : τ → ι → m τ} {g : σ → ι → σ} {a : σ → τ} {I : σ → Prop} {items : List ι}
    (h : ∀ s, ∀ item ∈ items, I s → f (a s) item = pure (a (g s item)) ∧ I (g s item)) {s : σ}
    (hs : I s) : items.foldlM f (a s) = pure (a (items.foldl g s)) ∧ I (items.foldl g s) := by
  induction items generalizing s with
  | nil => exact ⟨rfl, hs⟩
  | cons item items ih =>
    obtain ⟨hround, hstep⟩ := h s item List.mem_cons_self hs
    obtain ⟨hrest, hinv⟩ := ih (fun s i hi => h s i (List.mem_cons_of_mem item hi)) hstep
    rw [List.foldlM_cons, hround, pure_bind, List.foldl_cons]
    exact ⟨hrest, hinv⟩

theorem foldlM_pure {m : Type u → Type v} [Monad m] [LawfulMonad m] {σ : Type*} {ι : Type*}
    {τ : Type u} {f : τ → ι → m τ} {g : σ → ι → σ} {a : σ → τ} {items : List ι}
    (h : ∀ s, ∀ item ∈ items, f (a s) item = pure (a (g s item))) (s : σ) :
    items.foldlM f (a s) = pure (a (items.foldl g s)) :=
  (foldlM_eq (I := fun _ => True) (fun s item hitem _ => ⟨h s item hitem, trivial⟩) trivial).1

end PodpingAlpha
