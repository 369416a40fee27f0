import Mathlib.Computability.Language

/-!
# Wildcard patterns

The patterns of SQL's `LIKE`: a wildcard for any string, one for any symbol, and literals compared
up to a relation on symbols. `lang` is the language a pattern stands for, `accepts` the matcher
that decides it (`accepts_iff`).

* `lang_append` — a concatenation stands for the product of the languages.
* `mem_lang_lits`, `mem_lang_lits_any` — a pattern without wildcards stands for the strings equal to
  it up to the relation; with the wildcard appended, for those it is a prefix of.
-/

namespace PodpingAlpha.Like

universe u

/-- A symbol of a pattern. -/
inductive Token (α : Type u) where
  /-- Any string. -/
  | any
  /-- Any symbol. -/
  | one
  /-- A symbol related to this one. -/
  | lit (a : α)
  deriving DecidableEq

variable {α : Type u} (same : α → α → Bool)

/-! ### Languages -/

/-- The language of a token. -/
def tokenLang : Token α → Language α
  | .any => {_s | True}
  | .one => {s | ∃ a, s = [a]}
  | .lit a => {s | ∃ b, same a b ∧ s = [b]}

/-- The language of a pattern. -/
def lang (p : List (Token α)) : Language α := (p.map (tokenLang same)).prod

/-- A concatenation stands for the product of the languages. -/
theorem lang_append (p q : List (Token α)) : lang same (p ++ q) = lang same p * lang same q := by
  simp only [lang, List.map_append, List.prod_append]

theorem mem_lang_nil {s : List α} : s ∈ lang same [] ↔ s = [] := by
  simp only [lang, List.map_nil, List.prod_nil, Language.mem_one]

theorem mem_lang_cons {t : Token α} {p : List (Token α)} {s : List α} :
    s ∈ lang same (t :: p) ↔ ∃ u ∈ tokenLang same t, ∃ v ∈ lang same p, u ++ v = s := by
  simp only [lang, List.map_cons, List.prod_cons, Language.mem_mul]

/-! ### Matching -/

/-- Whether a pattern matches a string. -/
def accepts : List (Token α) → List α → Bool
  | [], s => s.isEmpty
  | .any :: p, s => s.tails.any (accepts p)
  | .one :: _, [] => false
  | .one :: p, _ :: s => accepts p s
  | .lit _ :: _, [] => false
  | .lit a :: p, b :: s => same a b && accepts p s

/-- **The matcher decides the language of the pattern.** -/
theorem accepts_iff {p : List (Token α)} {s : List α} : accepts same p s ↔ s ∈ lang same p := by
  induction p generalizing s with
  | nil => rw [accepts, List.isEmpty_iff, mem_lang_nil]
  | cons t p ih =>
    rw [mem_lang_cons]
    cases t with
    | any =>
      simp only [accepts, List.any_eq_true, List.mem_tails, ih]
      constructor
      · rintro ⟨v, ⟨u, huv⟩, hv⟩
        exact ⟨u, trivial, v, hv, huv⟩
      · rintro ⟨u, -, v, hv, huv⟩
        exact ⟨v, ⟨u, huv⟩, hv⟩
    | one =>
      cases s with
      | nil =>
        refine iff_of_false Bool.false_ne_true ?_
        rintro ⟨_, ⟨a, rfl⟩, v, -, h⟩
        cases h
      | cons b s =>
        rw [accepts, ih]
        constructor
        · exact fun hs => ⟨[b], ⟨b, rfl⟩, s, hs, rfl⟩
        · rintro ⟨_, ⟨a, rfl⟩, v, hv, h⟩
          cases h
          exact hv
    | lit a =>
      cases s with
      | nil =>
        refine iff_of_false Bool.false_ne_true ?_
        rintro ⟨_, ⟨b, -, rfl⟩, v, -, h⟩
        cases h
      | cons b s =>
        rw [accepts, Bool.and_eq_true, ih]
        constructor
        · rintro ⟨hab, hs⟩
          exact ⟨[b], ⟨b, hab, rfl⟩, s, hs, rfl⟩
        · rintro ⟨_, ⟨b', hab, rfl⟩, v, hv, h⟩
          cases h
          exact ⟨hab, hv⟩

/-! ### Patterns without wildcards -/

/-- A string as a pattern. -/
def lits (l : List α) : List (Token α) := l.map .lit

/-- A pattern without wildcards stands for the strings equal to it up to `same`. -/
theorem mem_lang_lits {l s : List α} :
    s ∈ lang same (lits l) ↔ List.Forall₂ (fun a b => same a b) l s := by
  induction l generalizing s with
  | nil => rw [lits, List.map_nil, mem_lang_nil, List.forall₂_nil_left_iff]
  | cons a l ih =>
    rw [lits, List.map_cons, ← lits, mem_lang_cons, List.forall₂_cons_left_iff]
    constructor
    · rintro ⟨_, ⟨b, hab, rfl⟩, v, hv, rfl⟩
      exact ⟨b, v, hab, ih.1 hv, rfl⟩
    · rintro ⟨b, v, hab, hv, rfl⟩
      exact ⟨[b], ⟨b, hab, rfl⟩, v, ih.2 hv, rfl⟩

/-- With the wildcard appended, it stands for the strings that begin so. -/
theorem mem_lang_lits_any {l s : List α} :
    s ∈ lang same (lits l ++ [.any]) ↔
      ∃ u, u <+: s ∧ List.Forall₂ (fun a b => same a b) l u := by
  rw [lang_append, Language.mem_mul]
  constructor
  · rintro ⟨u, hu, v, -, huv⟩
    exact ⟨u, ⟨v, huv⟩, (mem_lang_lits same).1 hu⟩
  · rintro ⟨u, ⟨v, huv⟩, hu⟩
    refine ⟨u, (mem_lang_lits same).2 hu, v, ?_, huv⟩
    exact (mem_lang_cons same).2 ⟨v, trivial, [], (mem_lang_nil same).2 rfl, List.append_nil v⟩

end PodpingAlpha.Like
