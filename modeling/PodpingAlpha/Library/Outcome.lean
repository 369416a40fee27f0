import Mathlib.Data.Vector.Basic

/-!
# Functions that may panic

A Rust function either returns or panics. `Rust α` is the outcome of one that returns an `α`, and
`Fallible ε α` of one that returns a `Result<α, ε>`: an `Err` is an ordinary outcome that `?` passes
on, a panic is not. `Returns m` says that `m` does not panic, and the rules say when a composed
computation returns.
-/

namespace PodpingAlpha.Outcome

universe u

/-- Why a program panics. -/
inductive Panic where
  /-- A slice or a split outside the bounds of its argument. -/
  | outOfRange
  /-- A string slice that does not fall on a character boundary. -/
  | notCharBoundary
  /-- An arithmetic overflow, in a build that checks for it. -/
  | overflow
  /-- `unwrap` of a `None` or an `Err`. -/
  | unwrap
  /-- `expect` of a `None` or an `Err`. -/
  | expect (msg : String)
  /-- `unwrap` of a lock that was poisoned. -/
  | poisoned
  deriving DecidableEq

/-- The outcome of a function that returns an `α`. -/
abbrev Rust (α : Type u) := Except Panic α

/-- The outcome of a function that returns a `Result<α, ε>`. -/
abbrev Fallible (ε : Type) (α : Type) := ExceptT ε Rust α

variable {ε α β : Type}

/-- A `Result` as an outcome. -/
def ofResult (r : Except ε α) : Fallible ε α := ExceptT.mk (.ok r)

/-- `if c { bail!(e) }`. -/
def bailIf (c : Prop) [Decidable c] (e : ε) : Fallible ε Unit := if c then throw e else pure ()

/-- A function that returns no `Result`, in one that does. -/
def ofRust (m : Rust α) : Fallible ε α := ExceptT.mk (m.map .ok)

/-- `x.unwrap()`. -/
def unwrap (x : Option α) : Fallible ε α := ExceptT.mk (x.elim (.error .unwrap) fun a => .ok (.ok a))

/-- `r.expect(msg)`. -/
def expectOk (msg : String) (r : Except ε α) : Rust α :=
  match r with
  | .ok a => .ok a
  | .error _ => .error (.expect msg)

/-- A computation whose `Result` is matched, not passed on. -/
def attempt {δ : Type} (m : Fallible δ α) : Fallible ε (Except δ α) := ExceptT.mk (m.run.map .ok)

/-- The computation does not panic. -/
def Returns (m : Fallible ε α) : Prop := ∃ r, m.run = .ok r

/-- The computation returns `Ok(a)`. -/
def Yields (m : Fallible ε α) (a : α) : Prop := m.run = .ok (.ok a)

@[simp] theorem returns_ofResult (r : Except ε α) : Returns (ofResult r) := ⟨r, rfl⟩

@[simp] theorem returns_pure (a : α) : Returns (pure a : Fallible ε α) := ⟨.ok a, rfl⟩

@[simp] theorem returns_throw (e : ε) : Returns (throw e : Fallible ε α) := ⟨.error e, rfl⟩

@[simp] theorem yields_ofResult {r : Except ε α} {a : α} : Yields (ofResult r) a ↔ r = .ok a := by
  simp [Yields, ofResult, ExceptT.run, ExceptT.mk]

@[simp] theorem yields_pure {a b : α} : Yields (pure a : Fallible ε α) b ↔ a = b := by
  constructor
  · intro h
    cases h
    rfl
  · rintro rfl
    rfl

/-- A sequence returns when its first part does, and its second does on what the first yields. -/
theorem returns_bind {m : Fallible ε α} {f : α → Fallible ε β} :
    Returns (m >>= f) ↔ Returns m ∧ ∀ a, Yields m a → Returns (f a) := by
  simp only [Returns, Yields]
  rw [ExceptT.run_bind]
  generalize m.run = r
  match r with
  | .error p => simp [bind, Except.bind]
  | .ok (.error e) => simp [bind, Except.bind, pure, Except.pure]
  | .ok (.ok a) => simp [bind, Except.bind]

theorem returns_ofResult_bind {r : Except ε α} {f : α → Fallible ε β} :
    Returns (ofResult r >>= f) ↔ ∀ a, r = .ok a → Returns (f a) := by
  simp only [returns_bind, returns_ofResult, yields_ofResult, true_and]

theorem yields_ofResult_bind {r : Except ε α} {f : α → Fallible ε β} {b : β} :
    Yields (ofResult r >>= f) b ↔ ∃ a, r = .ok a ∧ Yields (f a) b := by
  cases r with
  | error e => exact iff_of_false (fun h => by cases h) fun ⟨_, h, _⟩ => by cases h
  | ok a =>
    constructor
    · exact fun h => ⟨a, rfl, h⟩
    · rintro ⟨a', ha, h⟩
      cases ha
      exact h

@[simp] theorem returns_bailIf {c : Prop} [Decidable c] {e : ε} : Returns (bailIf c e) := by
  rw [bailIf]
  split_ifs
  · exact returns_throw e
  · exact returns_pure ()

theorem returns_bailIf_bind {c : Prop} [Decidable c] {e : ε} {f : Unit → Fallible ε β} :
    Returns (bailIf c e >>= f) ↔ (¬c → Returns (f ())) := by
  rw [bailIf]
  split_ifs with h
  · exact iff_of_true ⟨.error e, rfl⟩ fun hc => absurd h hc
  · rw [pure_bind]
    exact ⟨fun hf _ => hf, fun hf => hf h⟩

theorem yields_bailIf_bind {c : Prop} [Decidable c] {e : ε} {f : Unit → Fallible ε β} {b : β} :
    Yields (bailIf c e >>= f) b ↔ ¬c ∧ Yields (f ()) b := by
  rw [bailIf]
  split_ifs with h
  · exact iff_of_false (fun hr => by cases hr) fun hr => hr.1 h
  · rw [pure_bind, and_iff_right h]

theorem yields_bind {m : Fallible ε α} {f : α → Fallible ε β} {b : β} :
    Yields (m >>= f) b ↔ ∃ a, Yields m a ∧ Yields (f a) b := by
  simp only [Yields]
  rw [ExceptT.run_bind]
  generalize m.run = r
  match r with
  | .error p => simp [bind, Except.bind]
  | .ok (.error e) => simp [bind, Except.bind, pure, Except.pure]
  | .ok (.ok a) => simp [bind, Except.bind]

@[simp] theorem yields_throw {e : ε} {a : α} : ¬Yields (throw e : Fallible ε α) a :=
  fun h => by cases h

@[simp] theorem yields_bailIf {c : Prop} [Decidable c] {e : ε} {u : Unit} :
    Yields (bailIf c e) u ↔ ¬c := by
  rw [bailIf]
  split_ifs with h
  · exact iff_of_false yields_throw (not_not_intro h)
  · exact iff_of_true (yields_pure.2 rfl) h

@[simp] theorem yields_unwrap {x : Option α} {a : α} :
    Yields (unwrap x : Fallible ε α) a ↔ x = some a := by
  cases x with
  | none => exact iff_of_false (fun h => by cases h) nofun
  | some b => exact yields_pure.trans Option.some_inj.symm

@[simp] theorem yields_attempt {δ : Type} {m : Fallible δ α} {r : Except δ α} :
    Yields (attempt m : Fallible ε _) r ↔ m.run = .ok r := by
  rw [Yields, attempt]
  cases hm : m.run with
  | error p => exact iff_of_false (fun h => by cases h) nofun
  | ok r' => exact yields_pure.trans (Except.ok.injEq r' r ▸ Iff.rfl)

@[simp] theorem returns_unwrap {x : Option α} : Returns (unwrap x : Fallible ε α) ↔ x ≠ none := by
  cases x with
  | none => exact iff_of_false (fun ⟨_, h⟩ => by cases h) (not_not_intro rfl)
  | some a => exact iff_of_true ⟨.ok a, rfl⟩ nofun

@[simp] theorem returns_attempt {δ : Type} {m : Fallible δ α} :
    Returns (attempt m : Fallible ε _) ↔ Returns m := by
  rw [Returns, attempt]
  cases hm : m.run with
  | error p => exact iff_of_false (fun ⟨_, h⟩ => by cases h) fun ⟨_, h⟩ => by cases hm.symm.trans h
  | ok r => exact iff_of_true ⟨.ok r, rfl⟩ ⟨r, hm⟩

@[simp] theorem returns_ofRust {m : Rust α} :
    Returns (ofRust m : Fallible ε α) ↔ ∃ a, m = .ok a := by
  cases m with
  | error p => exact iff_of_false (fun ⟨_, h⟩ => by cases h) fun ⟨_, h⟩ => by cases h
  | ok a => exact iff_of_true ⟨.ok a, rfl⟩ ⟨a, rfl⟩

theorem run_ofRust_bind {m : Rust α} {f : α → Fallible ε β} {r : Except ε β} :
    (ofRust m >>= f).run = .ok r ↔ ∃ a, m = .ok a ∧ (f a).run = .ok r := by
  cases m with
  | error p => exact iff_of_false (fun h => by cases h) fun ⟨_, h, _⟩ => by cases h
  | ok a =>
    constructor
    · exact fun h => ⟨a, rfl, h⟩
    · rintro ⟨a', ha, h⟩
      cases ha
      exact h

theorem expectOk_eq_ok {msg : String} {r : Except ε α} {a : α} : expectOk msg r = .ok a ↔ r = .ok a := by
  cases r <;> simp [expectOk]

/-- What a sequence of functions that return no `Result` returns. -/
theorem rust_bind_eq_ok {m : Rust α} {f : α → Rust β} {b : β} :
    m >>= f = .ok b ↔ ∃ a, m = .ok a ∧ f a = .ok b := by
  cases m with
  | error p => exact iff_of_false (fun h => by cases h) fun ⟨_, h, _⟩ => by cases h
  | ok a =>
    constructor
    · exact fun h => ⟨a, rfl, h⟩
    · rintro ⟨a', ha, h⟩
      cases ha
      exact h

/-- Sequencing of functions that return no `Result`. -/
theorem rust_returns_bind {m : Rust α} {f : α → Rust β} :
    (∃ b, m >>= f = .ok b) ↔ ∃ a, m = .ok a ∧ ∃ b, f a = .ok b := by
  simp only [rust_bind_eq_ok]
  rw [exists_comm]
  simp only [exists_and_left]

/-! ### Slices -/

/-- `b.split_at(n)`. -/
def splitAt (n : ℕ) (b : List α) : Fallible ε (List α × List α) :=
  if n ≤ b.length then pure (b.take n, b.drop n) else ExceptT.mk (.error .outOfRange)

/-- `a - b` on `usize`. A release build wraps around instead of panicking. -/
def checkedSub (a b : ℕ) : Fallible ε ℕ :=
  if b ≤ a then pure (a - b) else ExceptT.mk (.error .overflow)

/-- `b[..n]`. -/
def sliceTo (n : ℕ) (b : List α) : Fallible ε (List α) :=
  if n ≤ b.length then pure (b.take n) else ExceptT.mk (.error .outOfRange)

/-- `b.try_into()` for `[α; n]`. -/
def tryIntoArray (n : ℕ) (b : List α) : Except String (List.Vector α n) :=
  if h : b.length = n then .ok ⟨b, h⟩ else .error "could not convert slice to array"

theorem tryIntoArray_eq_ok {n : ℕ} {b : List α} {v : List.Vector α n} :
    tryIntoArray n b = .ok v ↔ v.toList = b := by
  rw [tryIntoArray]
  split_ifs with h
  · constructor
    · intro hv
      cases hv
      rfl
    · rintro rfl
      rfl
  · exact iff_of_false (fun hv => by cases hv) fun hv => h (by rw [← hv, v.toList_length])

/-- A split returns within the bounds, and the rest runs on the two halves. -/
theorem returns_splitAt_bind {n : ℕ} {b : List α} {f : List α × List α → Fallible ε β} :
    Returns (splitAt n b >>= f) ↔ n ≤ b.length ∧ Returns (f (b.take n, b.drop n)) := by
  rw [splitAt]
  split_ifs with h
  · rw [pure_bind, and_iff_right h]
  · exact iff_of_false (fun ⟨_, hr⟩ => by cases hr) fun hr => h hr.1

theorem yields_splitAt_bind {n : ℕ} {b : List α} {f : List α × List α → Fallible ε β} {c : β} :
    Yields (splitAt n b >>= f) c ↔ n ≤ b.length ∧ Yields (f (b.take n, b.drop n)) c := by
  rw [splitAt]
  split_ifs with h
  · rw [pure_bind, and_iff_right h]
  · exact iff_of_false (fun hr => by cases hr) fun hr => h hr.1

theorem returns_checkedSub_bind {a b : ℕ} {f : ℕ → Fallible ε β} :
    Returns (checkedSub a b >>= f) ↔ b ≤ a ∧ Returns (f (a - b)) := by
  rw [checkedSub]
  split_ifs with h
  · rw [pure_bind, and_iff_right h]
  · exact iff_of_false (fun ⟨_, hr⟩ => by cases hr) fun hr => h hr.1

theorem yields_checkedSub_bind {a b : ℕ} {f : ℕ → Fallible ε β} {c : β} :
    Yields (checkedSub a b >>= f) c ↔ b ≤ a ∧ Yields (f (a - b)) c := by
  rw [checkedSub]
  split_ifs with h
  · rw [pure_bind, and_iff_right h]
  · exact iff_of_false (fun hr => by cases hr) fun hr => h hr.1

theorem returns_sliceTo_bind {n : ℕ} {b : List α} {f : List α → Fallible ε β} :
    Returns (sliceTo n b >>= f) ↔ n ≤ b.length ∧ Returns (f (b.take n)) := by
  rw [sliceTo]
  split_ifs with h
  · rw [pure_bind, and_iff_right h]
  · exact iff_of_false (fun ⟨_, hr⟩ => by cases hr) fun hr => h hr.1

theorem yields_sliceTo_bind {n : ℕ} {b : List α} {f : List α → Fallible ε β} {c : β} :
    Yields (sliceTo n b >>= f) c ↔ n ≤ b.length ∧ Yields (f (b.take n)) c := by
  rw [sliceTo]
  split_ifs with h
  · rw [pure_bind, and_iff_right h]
  · exact iff_of_false (fun hr => by cases hr) fun hr => h hr.1

/-! ### Lists -/

/-- `mapM` succeeds when every element does, with the list of what they give. -/
theorem mapM_eq_ok {f : α → Rust β} {l : List α} {bs : List β} :
    l.mapM f = .ok bs ↔ l.map f = bs.map .ok := by
  induction l generalizing bs with
  | nil =>
    cases bs with
    | nil => exact iff_of_true rfl rfl
    | cons b bs => exact iff_of_false (fun h => by cases h) (fun h => by cases h)
  | cons a l ih =>
    rw [List.mapM_cons, List.map_cons]
    constructor
    · intro h
      cases ha : f a with
      | error p =>
        rw [ha] at h
        cases h
      | ok b =>
        cases hl : l.mapM f with
        | error p =>
          rw [ha, hl] at h
          cases h
        | ok bs' =>
          rw [ha, hl] at h
          cases h
          rw [List.map_cons, ih.1 hl]
    · intro h
      cases bs with
      | nil => cases h
      | cons b bs =>
        obtain ⟨ha, hl⟩ := List.cons_eq_cons.1 h
        rw [ha, ih.2 hl]
        rfl

theorem mapM_returns {f : α → Rust β} {l : List α} :
    (∃ bs, l.mapM f = .ok bs) ↔ ∀ a ∈ l, ∃ b, f a = .ok b := by
  simp only [mapM_eq_ok]
  constructor
  · rintro ⟨bs, h⟩ a ha
    obtain ⟨b, -, hb⟩ := List.mem_map.1 (h ▸ List.mem_map_of_mem (f := f) ha)
    exact ⟨b, hb.symm⟩
  · intro h
    induction l with
    | nil => exact ⟨[], rfl⟩
    | cons a l ih =>
      obtain ⟨b, hb⟩ := h a List.mem_cons_self
      obtain ⟨bs, hbs⟩ := ih fun a' ha' => h a' (List.mem_cons_of_mem a ha')
      exact ⟨b :: bs, by rw [List.map_cons, List.map_cons, hb, hbs]⟩

theorem mem_of_mapM {f : α → Rust β} {l : List α} {bs : List β} (h : l.mapM f = .ok bs) (b : β) :
    b ∈ bs ↔ ∃ a ∈ l, f a = .ok b := by
  rw [← List.mem_map, mapM_eq_ok.1 h, List.mem_map]
  simp only [Except.ok.injEq, exists_eq_right]

end PodpingAlpha.Outcome
