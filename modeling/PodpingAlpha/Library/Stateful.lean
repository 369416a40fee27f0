import PodpingAlpha.Library.Outcome

/-!
# Stateful programs that may panic

A `Program σ α` changes a state `σ` and then returns an `α` or panics; what it changed before it
panicked stays changed. `wp m Q E s` says that from `s` the program either returns a value and a
state with `Q`, or panics in a state with `E`; for each way to build a program there is one rule,
and all of them are exact.

The contents of a lock are the state of the program that holds the lock: `hold` runs it on them and
leaves the lock poisoned if it panics, `zoom` runs it as a part of a program on a larger state.
-/

namespace PodpingAlpha.Outcome

variable {σ τ υ α β : Type}

/-- A program on a state `σ` that returns an `α`. -/
abbrev Program (σ α : Type) := EStateM Panic σ α

/-- The state a program leaves. -/
def after (m : Program σ α) (s : σ) : σ :=
  match m s with
  | .ok _ t => t
  | .error _ t => t

/-- The program returns with `Q` or panics with `E`. -/
def wp (m : Program σ α) (Q : α → σ → Prop) (E : Panic → σ → Prop) (s : σ) : Prop :=
  match m s with
  | .ok a t => Q a t
  | .error p t => E p t

/-- The state in which a program returns. -/
def returned (m : Program σ α) (s : σ) : Option σ :=
  match m s with
  | .ok _ t => some t
  | .error _ _ => none

/-- The program returns, in a state with `P`. -/
def Completes (m : Program σ α) (P : σ → Prop) (s : σ) : Prop := wp m (fun _ => P) (fun _ _ => False) s

/-- The program does not change what `f` reads of the state. -/
def Keeps (f : σ → υ) (m : Program σ α) : Prop := ∀ s, f (after m s) = f s

variable {Q Q' : α → σ → Prop} {E E' : Panic → σ → Prop} {s : σ}

theorem wp_after {m : Program σ α} {P : σ → Prop} :
    wp m (fun _ => P) (fun _ => P) s ↔ P (after m s) := by
  rw [wp, after]
  cases m s <;> exact Iff.rfl

theorem completes_iff {m : Program σ α} {P : σ → Prop} :
    Completes m P s ↔ ∃ t, returned m s = some t ∧ P t := by
  rw [Completes, wp, returned]
  cases m s with
  | ok a t => exact ⟨fun h => ⟨t, rfl, h⟩, fun ⟨_, ht, h⟩ => Option.some.inj ht ▸ h⟩
  | error p t => exact iff_of_false id fun ⟨_, h, _⟩ => nomatch h

theorem wp_mono {m : Program σ α} (hQ : ∀ a t, Q a t → Q' a t) (hE : ∀ p t, E p t → E' p t)
    (h : wp m Q E s) : wp m Q' E' s := by
  unfold wp at *
  cases hm : m s with
  | ok a t =>
    rw [hm] at h
    exact hQ a t h
  | error p t =>
    rw [hm] at h
    exact hE p t h

theorem wp_and {m : Program σ α} :
    wp m (fun a t => Q a t ∧ Q' a t) (fun p t => E p t ∧ E' p t) s ↔ wp m Q E s ∧ wp m Q' E' s := by
  simp only [wp]
  cases m s <;> exact Iff.rfl

theorem wp_false {m : Program σ α} : ¬wp m (fun _ _ => False) (fun _ _ => False) s := by
  rw [wp]
  cases m s <;> exact id

/-- A program returns if it can only panic in one way, and does not. -/
theorem completes_of_ne {m : Program σ α} {P : σ → Prop} {p : Panic}
    (h : wp m (fun _ => P) (fun q _ => q = p) s) (hne : wp m (fun _ _ => True) (fun q _ => q ≠ p) s) :
    Completes m P s :=
  wp_mono (fun _ _ ht => ht.1) (fun _ _ ht => ht.2 ht.1) (wp_and.2 ⟨h, hne⟩)

/-- What a program that returns leaves. -/
theorem after_of_completes {m : Program σ α} {P P' : σ → Prop} (hm : Completes m P' s)
    (h : wp m (fun _ => P) E s) : P (after m s) := by
  unfold Completes wp after at *
  cases hr : m s with
  | ok a t =>
    rw [hr] at h
    exact h
  | error p t =>
    rw [hr] at hm
    exact hm.elim

/-- A program that does not return panics. -/
theorem wp_of_not_completes {m : Program σ α} (hm : ¬Completes m (fun _ => True) s)
    (h : wp m Q E s) : wp m Q' E s := by
  unfold Completes wp at *
  cases hr : m s with
  | ok a t =>
    rw [hr] at hm
    exact absurd trivial hm
  | error p t =>
    rw [hr] at h
    exact h

/-- What holds whatever the program does. -/
theorem wp_of_forall {m : Program σ α} (hQ : ∀ a t, Q a t) (hE : ∀ p t, E p t) : wp m Q E s := by
  rw [wp]
  cases m s with
  | ok a t => exact hQ a t
  | error p t => exact hE p t

/-! ### Rules -/

@[simp] theorem wp_pure {a : α} : wp (pure a) Q E s ↔ Q a s := Iff.rfl

@[simp] theorem wp_get {Q : σ → σ → Prop} : wp (get : Program σ σ) Q E s ↔ Q s s := Iff.rfl

@[simp] theorem wp_modify {f : σ → σ} {Q : Unit → σ → Prop} :
    wp (modify f : Program σ Unit) Q E s ↔ Q () (f s) := Iff.rfl

@[simp] theorem wp_bind {m : Program σ β} {f : β → Program σ α} :
    wp (m >>= f) Q E s ↔ wp m (fun b t => wp (f b) Q E t) E s := by
  simp only [wp]
  show (match EStateM.bind m f s with | .ok a t => Q a t | .error p t => E p t) ↔ _
  rw [EStateM.bind]
  cases m s <;> exact Iff.rfl

@[simp] theorem wp_ite {c : Prop} [Decidable c] {m n : Program σ α} :
    wp (if c then m else n) Q E s ↔ if c then wp m Q E s else wp n Q E s := by
  split_ifs <;> exact Iff.rfl

/-- A function without a state, as a program. -/
def ofPure (m : Rust α) : Program σ α :=
  match m with
  | .ok a => pure a
  | .error p => throw p

theorem wp_ofPure_ok {m : Rust α} {a : α} (h : m = .ok a) : wp (ofPure m) Q E s ↔ Q a s := by
  rw [h]
  exact Iff.rfl

theorem after_modify_bind {f : σ → σ} {k : Unit → Program σ α} :
    after (modify f >>= k) s = after (k ()) (f s) := rfl

/-! ### Parts of a state -/

/-- A part of a state that can be read and replaced. -/
structure Lens (σ τ : Type) where
  /-- Read it. -/
  get : σ → τ
  /-- Replace it. -/
  set : τ → σ → σ
  /-- Replacing it by itself changes nothing. -/
  set_get : ∀ s, set (get s) s = s

/-- A program on a part of the state. -/
def zoom (part : Lens σ τ) (m : Program τ α) : Program σ α := fun s =>
  match m (part.get s) with
  | .ok a v => .ok a (part.set v s)
  | .error p v => .error p (part.set v s)

@[simp] theorem wp_zoom {part : Lens σ τ} {m : Program τ α} :
    wp (zoom part m) Q E s ↔
      wp m (fun a v => Q a (part.set v s)) (fun p v => E p (part.set v s)) (part.get s) := by
  simp only [wp, zoom]
  cases m (part.get s) <;> exact Iff.rfl

/-! ### What is kept -/

section Kept

variable {f : σ → υ}

theorem Keeps.wp {m : Program σ α} (h : Keeps f m) :
    wp m (fun _ t => f t = f s) (fun _ t => f t = f s) s := wp_after.2 (h s)

theorem keeps_bind {m : Program σ β} {k : β → Program σ α} (hm : Keeps f m)
    (hk : ∀ b, Keeps f (k b)) : Keeps f (m >>= k) := by
  intro s
  rw [← wp_after (P := fun t => f t = f s), wp_bind]
  exact wp_mono (fun b t ht => wp_after.2 ((hk b t).trans ht)) (fun _ _ => id) hm.wp

theorem keeps_pure {a : α} : Keeps f (pure a : Program σ α) := fun _ => rfl

theorem keeps_get : Keeps f (get : Program σ σ) := fun _ => rfl

theorem keeps_modify {g : σ → σ} (h : ∀ s, f (g s) = f s) : Keeps f (modify g : Program σ Unit) := h

theorem keeps_ite {c : Prop} [Decidable c] {m n : Program σ α} (hm : Keeps f m) (hn : Keeps f n) :
    Keeps f (if c then m else n) := by
  split_ifs
  · exact hm
  · exact hn

theorem keeps_ofPure {m : Rust α} : Keeps f (ofPure m : Program σ α) := by
  cases m <;> exact fun _ => rfl

theorem keeps_zoom {part : Lens σ τ} {m : Program τ α} (h : ∀ v s, f (part.set v s) = f s) :
    Keeps f (zoom part m) := by
  intro s
  rw [← wp_after (P := fun t => f t = f s), wp_zoom]
  exact wp_of_forall (fun _ v => h v s) fun _ v => h v s

end Kept

/-! ### Locks -/

/-- A mutex or a read-write lock. -/
structure Lock (α : Type) where
  /-- What it protects. -/
  value : α
  /-- A holder has panicked. -/
  poisoned : Bool
  deriving DecidableEq

/-- A lock that is not poisoned. -/
def Lock.new (a : α) : Lock α := ⟨a, false⟩

/-- `lock.read().unwrap()`. -/
def Lock.read : Program (Lock α) α := fun lock =>
  if lock.poisoned then .error .poisoned lock else .ok lock.value lock

/-- `body` on the contents, between `lock.write().unwrap()` or `lock.lock().unwrap()` and the end of
the guard. -/
def Lock.hold (body : Program α β) : Program (Lock α) β := fun lock =>
  if lock.poisoned then .error .poisoned lock
  else
    match body lock.value with
    | .ok b v => .ok b ⟨v, false⟩
    | .error p v => .error p ⟨v, true⟩

section Locks

variable {lock : Lock α} {E : Panic → Lock α → Prop}

@[simp] theorem wp_read {Q : α → Lock α → Prop} :
    wp Lock.read Q E lock ↔ if lock.poisoned then E .poisoned lock else Q lock.value lock := by
  rw [wp, Lock.read]
  split_ifs <;> exact Iff.rfl

@[simp] theorem wp_hold {body : Program α β} {Q : β → Lock α → Prop} :
    wp (Lock.hold body) Q E lock ↔
      if lock.poisoned then E .poisoned lock
      else wp body (fun b v => Q b ⟨v, false⟩) (fun p v => E p ⟨v, true⟩) lock.value := by
  simp only [wp, Lock.hold]
  split_ifs
  · exact Iff.rfl
  · cases body lock.value <;> exact Iff.rfl

end Locks

section Parts

variable {l : Lens σ (Lock τ)}

theorem wp_zoom_read (h : (l.get s).poisoned = false) {Q : τ → σ → Prop} :
    wp (zoom l Lock.read) Q E s ↔ Q (l.get s).value s := by
  rw [wp_zoom, wp_read, h, l.set_get]
  exact Iff.rfl

theorem wp_zoom_hold (h : (l.get s).poisoned = false) {body : Program τ α} :
    wp (zoom l (Lock.hold body)) Q E s ↔
      wp body (fun a v => Q a (l.set ⟨v, false⟩ s)) (fun p v => E p (l.set ⟨v, true⟩ s))
        (l.get s).value := by
  rw [wp_zoom, wp_hold, h]
  exact Iff.rfl

/-- Reading changes nothing. -/
theorem keeps_read {f : σ → υ} : Keeps f (zoom l Lock.read) := by
  intro s
  rw [← wp_after (P := fun t => f t = f s), wp_zoom, wp_read, l.set_get]
  split_ifs <;> rfl

end Parts

end PodpingAlpha.Outcome
