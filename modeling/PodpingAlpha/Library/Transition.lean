import Mathlib.Data.List.Basic

/-!
# Labelled transition systems

A system is a partial step function `step : σ → α → Option σ`: in state `s` the label `a` is
enabled when `step s a` is `some t`, and leads to `t`. Whatever a scheduler or an environment may
choose is in the label, so a list of labels is one interleaving, and a statement about every
interleaving quantifies over all lists of labels.

* `run` — the state an interleaving leads to.
* `Along` — a condition that every state and label passed through meets.
* `inv_run`, `inv_run_along`, `always_of_along` — the invariant rule, without and with a condition on the
  steps.
* `run_iff_along`, `always_iff_along` — the exact rules: a condition on the steps that holds along a
  run exactly when a property holds at its end, or at every state it passes through.
* `run_isSome_iff_along` — when a list of labels is a run at all.
* `along_label_iff` — a condition on the labels alone.
* `along_of_inv` — a property that an invariant gives, under a condition on the steps.
* `observed` — the system with an observer, who sees its steps and does not disturb them.
* `along_congr` — two conditions that agree where an invariant holds agree along every run.
* `run_seen` — the simulation rule: what a run of one system is in another.
-/

namespace PodpingAlpha.Transition

universe u v

variable {σ : Type u} {α : Type v} {step : σ → α → Option σ}

/-- The state a list of labels leads to; `none` if one of them is not enabled. -/
def run (step : σ → α → Option σ) : σ → List α → Option σ
  | s, [] => some s
  | s, a :: as => (step s a).bind fun t => run step t as

/-- Every state and label that the run passes through satisfies `P`. -/
def Along (step : σ → α → Option σ) (P : σ → α → Prop) : σ → List α → Prop
  | _, [] => True
  | s, a :: as => P s a ∧ ∀ t, step s a = some t → Along step P t as

@[simp] theorem run_nil (s : σ) : run step s [] = some s := rfl

@[simp] theorem run_cons (s : σ) (a : α) (as : List α) :
    run step s (a :: as) = (step s a).bind fun t => run step t as := rfl

theorem run_cons_eq_some {s t : σ} {a : α} {as : List α} :
    run step s (a :: as) = some t ↔ ∃ u, step s a = some u ∧ run step u as = some t := by
  rw [run_cons, Option.bind_eq_some_iff]

theorem run_append (s : σ) (as bs : List α) :
    run step s (as ++ bs) = (run step s as).bind fun t => run step t bs := by
  induction as generalizing s with
  | nil => rfl
  | cons a as ih =>
    simp only [List.cons_append, run_cons, Option.bind_assoc]
    exact congrArg _ (funext fun t => ih t)

theorem along_cons {P : σ → α → Prop} {s t : σ} {a : α} {as : List α} (h : step s a = some t) :
    Along step P s (a :: as) ↔ P s a ∧ Along step P t as := by
  refine and_congr_right fun _ => ⟨fun hu => hu t h, fun ht u hu => ?_⟩
  rw [h] at hu
  exact Option.some.inj hu ▸ ht

theorem along_append {P : σ → α → Prop} {s t : σ} {as bs : List α} (h : run step s as = some t) :
    Along step P s (as ++ bs) ↔ Along step P s as ∧ Along step P t bs := by
  induction as generalizing s with
  | nil => cases h; simp [Along]
  | cons a as ih =>
    obtain ⟨u, hu, hr⟩ := run_cons_eq_some.mp h
    rw [List.cons_append, along_cons hu, along_cons hu, ih hr, and_assoc]

/-- What `Along` says: `P` holds at every point of the run. -/
theorem along_iff_forall {P : σ → α → Prop} {s : σ} {as : List α} :
    Along step P s as ↔
      ∀ pre a post t, as = pre ++ a :: post → run step s pre = some t → P t a := by
  induction as generalizing s with
  | nil => simp [Along]
  | cons b bs ih =>
    constructor
    · rintro ⟨hb, hbs⟩ pre a post t has hr
      cases pre with
      | nil =>
        obtain ⟨rfl, rfl⟩ := List.cons.inj has
        cases hr
        exact hb
      | cons c pre =>
        obtain ⟨rfl, rfl⟩ := List.cons.inj has
        obtain ⟨u, hu, hr⟩ := run_cons_eq_some.mp hr
        exact ih.mp (hbs u hu) pre a post t rfl hr
    · intro h
      refine ⟨h [] b bs s rfl rfl, fun u hu => ih.mpr fun pre a post t has hr => ?_⟩
      exact h (b :: pre) a post t (by rw [has]; rfl) (run_cons_eq_some.mpr ⟨u, hu, hr⟩)

instance decidableAlong {P : σ → α → Prop} [∀ s a, Decidable (P s a)] :
    ∀ (s : σ) (as : List α), Decidable (Along step P s as)
  | _, [] => .isTrue trivial
  | s, a :: as =>
    match h : step s a with
    | none => decidable_of_iff (P s a) ⟨fun hp => ⟨hp, fun t ht => by simp [h] at ht⟩, fun hp => hp.1⟩
    | some t =>
      have := decidableAlong (P := P) t as
      decidable_of_iff (P s a ∧ Along step P t as) (along_cons h).symm

/-! ### Invariants -/

/-- **The invariant rule**: what every step preserves, every run preserves. -/
theorem inv_run {I : σ → Prop} (hI : ∀ s a t, I s → step s a = some t → I t) {s t : σ}
    {as : List α} (hs : I s) (h : run step s as = some t) : I t := by
  induction as generalizing s with
  | nil => cases h; exact hs
  | cons a as ih =>
    obtain ⟨u, hu, hr⟩ := run_cons_eq_some.mp h
    exact ih (hI s a u hs hu) hr

/-- **The invariant rule under a condition**: what the steps that satisfy `G` preserve, every
run whose steps all satisfy `G` preserves. -/
theorem inv_run_along {I : σ → Prop} {G : σ → α → Prop}
    (hI : ∀ s a t, I s → G s a → step s a = some t → I t) {s t : σ} {as : List α} (hs : I s)
    (hG : Along step G s as) (h : run step s as = some t) : I t := by
  induction as generalizing s with
  | nil => cases h; exact hs
  | cons a as ih =>
    obtain ⟨u, hu, hr⟩ := run_cons_eq_some.mp h
    exact ih (hI s a u hs hG.1 hu) (hG.2 u hu) hr

/-- The invariant rule under a condition, at every moment: what an invariant of the steps that satisfy
`G` gives, every state has that a run passes through whose steps all satisfy `G`. -/
theorem always_of_along {I C : σ → Prop} {G : σ → α → Prop}
    (hI : ∀ s a t, I s → G s a → step s a = some t → I t) (hC : ∀ s, I s → C s) {s : σ} {as : List α}
    (hs : I s) (hG : Along step G s as) : ∀ pre t, pre <+: as → run step s pre = some t → C t := by
  rintro pre t ⟨post, rfl⟩ hr
  exact hC t (inv_run_along hI hs ((along_append hr).1 hG).1 hr)

/-- What never becomes true again held all along. -/
theorem of_run_of_back {L : σ → Prop} (hL : ∀ s a t, step s a = some t → L t → L s) {s t : σ}
    {as : List α} (h : run step s as = some t) (ht : L t) : L s := by
  induction as generalizing s with
  | nil => cases h; exact ht
  | cons a as ih =>
    obtain ⟨u, hu, hr⟩ := run_cons_eq_some.mp h
    exact hL s a u hu (ih hr)

/-- **The exact rule**: let `L` never become true again, `I` be an invariant while `L` holds, and
`C` hold after a step exactly when it held before and the step satisfies `G`. Then `C` holds at
the end of a run exactly when it held at the start and every step satisfies `G`. -/
theorem run_iff_along {I C L : σ → Prop} {G : σ → α → Prop}
    (hL : ∀ s a t, step s a = some t → L t → L s)
    (hI : ∀ s a t, I s → step s a = some t → L t → I t)
    (hC : ∀ s a t, I s → step s a = some t → L t → (C t ↔ C s ∧ G s a)) {s t : σ} {as : List α}
    (hs : I s) (h : run step s as = some t) (ht : L t) :
    I t ∧ (C t ↔ C s ∧ Along step G s as) := by
  induction as generalizing s with
  | nil => cases h; simp [Along, hs]
  | cons a as ih =>
    obtain ⟨u, hu, hr⟩ := run_cons_eq_some.mp h
    have hlu : L u := of_run_of_back hL hr ht
    obtain ⟨hIt, hCt⟩ := ih (hI s a u hs hu hlu) hr
    refine ⟨hIt, ?_⟩
    rw [hCt, hC s a u hs hu hlu, along_cons hu, and_assoc]

/-- **The exact rule, at every moment**: let `C`, where it holds, hold after a step exactly when the
step satisfies `G`. Then `C` holds at every state a run passes through exactly when every step
satisfies `G`. The labels may be restricted to those in `A`. -/
theorem always_iff_along {I C : σ → Prop} {G : σ → α → Prop} {A : α → Prop}
    (hI : ∀ s a t, I s → A a → step s a = some t → I t)
    (hC : ∀ s a t, I s → C s → A a → step s a = some t → (C t ↔ G s a)) {s t : σ} {as : List α}
    (hs : I s) (hc : C s) (hA : ∀ a ∈ as, A a) (h : run step s as = some t) :
    (∀ pre u, pre <+: as → run step s pre = some u → C u) ↔ Along step G s as := by
  induction as generalizing s with
  | nil =>
    refine iff_of_true (fun pre u hpre hu => ?_) trivial
    rw [List.prefix_nil.mp hpre] at hu
    cases hu
    exact hc
  | cons a as ih =>
    obtain ⟨v, hv, hr⟩ := run_cons_eq_some.mp h
    have hstep := hC s a v hs hc (hA a List.mem_cons_self) hv
    rw [along_cons hv]
    constructor
    · intro hall
      have hcv : C v := hall [a] v ⟨as, rfl⟩ (run_cons_eq_some.mpr ⟨v, hv, rfl⟩)
      refine ⟨hstep.mp hcv, (ih (hI s a v hs (hA a List.mem_cons_self) hv) hcv
        (fun b hb => hA b (List.mem_cons_of_mem a hb)) hr).mp fun pre u hpre hu => ?_⟩
      exact hall (a :: pre) u (List.cons_prefix_cons.mpr ⟨rfl, hpre⟩)
        (run_cons_eq_some.mpr ⟨v, hv, hu⟩)
    · rintro ⟨hG, hG'⟩ pre u hpre hu
      have hcv : C v := hstep.mpr hG
      cases pre with
      | nil =>
        cases hu
        exact hc
      | cons b pre =>
        obtain ⟨rfl, hpre'⟩ := List.cons_prefix_cons.mp hpre
        obtain ⟨w, hw, hu⟩ := run_cons_eq_some.mp hu
        cases hv.symm.trans hw
        exact (ih (hI s b v hs (hA b List.mem_cons_self) hv) hcv
          (fun c hc => hA c (List.mem_cons_of_mem b hc)) hr).mpr hG' pre u hpre' hu

/-- **Enabledness**: let `I` be an invariant where the steps that satisfy `G` are those that are
enabled. Then the runs are the lists of labels whose steps all satisfy `G`. -/
theorem run_isSome_iff_along {I : σ → Prop} {G : σ → α → Prop}
    (hI : ∀ s a t, I s → step s a = some t → I t) (hG : ∀ s a, I s → ((step s a).isSome ↔ G s a))
    {s : σ} {as : List α} (hs : I s) : (run step s as).isSome ↔ Along step G s as := by
  induction as generalizing s with
  | nil => exact iff_of_true rfl trivial
  | cons a as ih =>
    rw [run_cons]
    cases hstep : step s a with
    | none =>
      refine iff_of_false nofun fun h => ?_
      have hsome := (hG s a hs).2 h.1
      rw [hstep] at hsome
      cases hsome
    | some t =>
      have ht : G s a := (hG s a hs).1 (by rw [hstep]; rfl)
      rw [Option.bind_some, along_cons hstep, ih (hI s a t hs hstep), and_iff_right ht]

/-- Where every label is enabled, every list of labels is a run. -/
theorem exists_run (hstep : ∀ s a, ∃ t, step s a = some t) (s : σ) (as : List α) :
    ∃ t, run step s as = some t := by
  induction as generalizing s with
  | nil => exact ⟨s, rfl⟩
  | cons a as ih =>
    obtain ⟨u, hu⟩ := hstep s a
    obtain ⟨t, ht⟩ := ih u
    exact ⟨t, run_cons_eq_some.2 ⟨u, hu, ht⟩⟩

/-- A condition on the labels holds along a run when they all meet it. -/
theorem along_label_iff (hstep : ∀ s a, ∃ t, step s a = some t) {G : α → Prop} {s : σ} {as : List α} :
    Along step (fun _ => G) s as ↔ ∀ a ∈ as, G a := by
  induction as generalizing s with
  | nil => exact iff_of_true trivial fun _ h => absurd h List.not_mem_nil
  | cons a as ih =>
    obtain ⟨t, ht⟩ := hstep s a
    rw [along_cons ht, ih, List.forall_mem_cons]

/-- Conditions that agree where an invariant holds agree along every run. -/
theorem along_congr {I : σ → Prop} {P Q : σ → α → Prop}
    (hI : ∀ s a t, I s → step s a = some t → I t) (hPQ : ∀ s a, I s → (P s a ↔ Q s a)) {s : σ}
    {as : List α} (hs : I s) : Along step P s as ↔ Along step Q s as := by
  induction as generalizing s with
  | nil => exact Iff.rfl
  | cons a as ih =>
    refine and_congr (hPQ s a hs) ?_
    exact forall_congr' fun t => imp_congr_right fun ht => ih (hI s a t hs ht)

/-- The labels passed through are those of the list. -/
theorem along_and_mem {P : σ → α → Prop} {s : σ} {as : List α} (h : Along step P s as) :
    Along step (fun s a => P s a ∧ a ∈ as) s as := by
  rw [along_iff_forall] at h ⊢
  rintro pre a post t rfl hr
  exact ⟨h pre a post t rfl hr, by simp⟩

/-- **The safety rule under a condition**: what an invariant of the steps that satisfy `G` gives at
each of them, every run whose steps all satisfy `G` has all along. -/
theorem along_of_inv {I : σ → Prop} {G P : σ → α → Prop}
    (hI : ∀ s a t, I s → G s a → step s a = some t → I t) (hP : ∀ s a, I s → G s a → P s a) {s : σ}
    {as : List α} (hs : I s) (hG : Along step G s as) : Along step P s as := by
  induction as generalizing s with
  | nil => trivial
  | cons a as ih => exact ⟨hP s a hs hG.1, fun t ht => ih (hI s a t hs hG.1 ht) (hG.2 t ht)⟩

/-- **The exact safety rule**: let the steps that satisfy `G` keep `I`, and `P` and `G` agree where `I`
holds. Then they agree along every run. -/
theorem along_iff_of_inv {I : σ → Prop} {A : α → Prop} {G P : σ → α → Prop}
    (hI : ∀ s a t, I s → A a → G s a → step s a = some t → I t)
    (hPG : ∀ s a, I s → A a → (P s a ↔ G s a)) {s : σ} {as : List α} (hs : I s) (hA : ∀ a ∈ as, A a) :
    Along step P s as ↔ Along step G s as := by
  induction as generalizing s with
  | nil => exact Iff.rfl
  | cons a as ih =>
    obtain ⟨ha, hA⟩ := List.forall_mem_cons.1 hA
    rw [Along, Along, hPG s a hs ha]
    refine and_congr_right fun hG => forall_congr' fun t => imp_congr_right fun ht => ?_
    exact ih (hI s a t hs ha hG ht) hA

/-! ### Observers -/

variable {ω : Type*}

/-- The system with an observer, whose state `watch` carries along and on which no step depends. -/
def observed (step : σ → α → Option σ) (watch : ω → σ → α → σ → ω) (p : σ × ω) (a : α) :
    Option (σ × ω) := (step p.1 a).map fun t => (t, watch p.2 p.1 a t)

theorem observed_eq_some {watch : ω → σ → α → σ → ω} {p q : σ × ω} {a : α} :
    observed step watch p a = some q ↔ step p.1 a = some q.1 ∧ q.2 = watch p.2 p.1 a q.1 := by
  unfold observed
  rw [Option.map_eq_some_iff]
  constructor
  · rintro ⟨t, ht, rfl⟩
    exact ⟨ht, rfl⟩
  · rintro ⟨ht, hw⟩
    exact ⟨q.1, ht, Prod.ext rfl hw.symm⟩

/-- The runs of the observed system are those of the system. -/
theorem run_observed (watch : ω → σ → α → σ → ω) (p : σ × ω) (as : List α) :
    (run (observed step watch) p as).map Prod.fst = run step p.1 as := by
  induction as generalizing p with
  | nil => rfl
  | cons a as ih =>
    rw [run_cons, run_cons, observed]
    cases step p.1 a with
    | none => rfl
    | some t => exact ih (t, watch p.2 p.1 a t)

/-! ### Simulations -/

variable {τ : Type*} {β : Type*} {step' : τ → β → Option τ}

/-- The labels of another system that the steps of a run are seen as. -/
def seen (step : σ → α → Option σ) (see : σ → α → List β) : σ → List α → List β
  | _, [] => []
  | s, a :: as => see s a ++ (step s a).elim [] fun t => seen step see t as

/-- A label that is seen in a run is seen at one of its steps. -/
theorem exists_of_mem_seen {see : σ → α → List β} {s : σ} {as : List α} {b : β}
    (h : b ∈ seen step see s as) : ∃ t, ∃ a ∈ as, b ∈ see t a := by
  induction as generalizing s with
  | nil => cases h
  | cons a as ih =>
    rcases List.mem_append.1 h with h | h
    · exact ⟨s, a, List.mem_cons_self, h⟩
    · cases ht : step s a with
      | none =>
        rw [ht] at h
        cases h
      | some t =>
        rw [ht] at h
        obtain ⟨u, a', ha', hb⟩ := ih h
        exact ⟨u, a', List.mem_cons_of_mem _ ha', hb⟩

/-- **The simulation rule**: let every step, where the invariant holds, be a run of the other system.
Then so is every run. -/
theorem run_seen {I : σ → Prop} {f : σ → τ} {see : σ → α → List β}
    (hI : ∀ s a t, I s → step s a = some t → I t)
    (hsim : ∀ s a t, I s → step s a = some t → run step' (f s) (see s a) = some (f t)) {s t : σ}
    {as : List α} (hs : I s) (h : run step s as = some t) :
    run step' (f s) (seen step see s as) = some (f t) := by
  induction as generalizing s with
  | nil =>
    cases h
    rfl
  | cons a as ih =>
    obtain ⟨u, hu, hr⟩ := run_cons_eq_some.1 h
    rw [seen, run_append, hsim s a u hs hu, hu]
    exact ih (hI s a u hs hu) hr

end PodpingAlpha.Transition
