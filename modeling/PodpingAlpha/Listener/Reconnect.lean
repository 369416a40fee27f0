import PodpingAlpha.Library.Transition
import Mathlib.Data.Finset.Card
import Mathlib.Logic.Function.Basic

/-!
# Reconnecting

The tasks of `gossip-listener/src/main.rs` that share the reconnect flags and the neighbor tracking: the
receive tasks, one for each subscription, the reconnection monitor that replaces them, and the watchdog,
isolation, health and announce tasks, which raise or clear the flags.

## The model

A step is one access of a task to what is shared, so a list of labels is one interleaving. Waking the
monitor is no step, as its timer may fire at any time; when the other tasks act, which depends on
stalls, sources, memory and the clock, and how binding, subscribing and splitting go, is any. The subscriptions are numbered as their receive tasks are, by
generation. A subscription keeps the neighbors it has reported, as far as its task has dealt with them,
and reports only what fits: a node comes up when it is not up, and goes down when it is. The clock is in
milliseconds.

## What is proved

* `owed_of_spared` — a reconnect is owed whenever the current receive task has ended, if no attempt is
  given up while it has.
* `request_lost` — the cooldown loses one, and so does a topic that cannot be joined.
-/

namespace PodpingAlpha.Listener

open Transition

universe u

/-! ### The tasks -/

/-- What a subscription reports. -/
inductive Report (ν : Type u) where
  | neighborUp (id : ν)
  | neighborDown (id : ν)
  /-- A message, a lag or an error. -/
  | other
  deriving DecidableEq

/-- Where a receive task is. -/
inductive ReceiveAt (ν : Type u) where
  /-- Not spawned yet. -/
  | unborn
  /-- In `receiver.next()`, or in `handle_event`. -/
  | looping
  /-- Before the check of its generation. -/
  | taken (r : Report ν)
  /-- Before the update of `neighbor_count`. -/
  | counting (r : Report ν)
  /-- Before the update of `neighbor_ids`. -/
  | listing (r : Report ν)
  /-- Out of the loop, before the check of the flag. -/
  | left
  /-- Before the check of its generation. -/
  | unflagged
  /-- Before it stores the failures. -/
  | active
  /-- Before it stores the request. -/
  | failing
  | ended
  deriving DecidableEq

/-- Where the monitor is. -/
inductive MonitorAt where
  /-- At the `select!`. -/
  | selecting
  /-- Before the check of the flag. -/
  | woken
  /-- Before it loads the failures. -/
  | running
  /-- Before it swaps the request. -/
  | loaded (failures : ℕ)
  /-- Before it swaps the forced reset. -/
  | swapped (failures : ℕ) (requested : Bool)
  /-- Before it decides. -/
  | informed (failures : ℕ) (requested forced : Bool)
  /-- Before it resets the failures. -/
  | decided (forced : Bool)
  /-- Before the check of the cooldown. -/
  | cooling (forced : Bool)
  /-- Binding a fresh endpoint. -/
  | binding
  /-- In `subscribe_and_join_bootstrap_only`. -/
  | joining
  /-- In `split`. -/
  | splitting
  /-- Before it resets the failures, with the new sender in place. -/
  | joined
  /-- Before it counts the generation. -/
  | counting
  /-- Before it spawns the receive task. -/
  | spawning
  /-- Before it clears `neighbor_ids`. -/
  | clearing
  /-- Before it stores `neighbor_count`. -/
  | resetting
  /-- Before it reads the clock. -/
  | finishing
  /-- Before it resets the failures, with nothing joined. -/
  | failed
  /-- Done with an attempt. -/
  | leaving
  | exited
  deriving DecidableEq

/-- What the tasks share, and where they are. -/
structure Tasks (ν : Type u) where
  /-- `broadcast_failures`. -/
  failures : ℕ
  /-- `reconnect_requested`. -/
  requested : Bool
  /-- `force_endpoint_reset`. -/
  forced : Bool
  /-- `shutdown_flag`. -/
  shutdown : Bool
  /-- `receive_generation`. -/
  generation : ℕ
  /-- `neighbor_count`. -/
  neighborCount : ℕ
  /-- `neighbor_ids`. -/
  neighborIds : Finset ν
  monitor : MonitorAt
  /-- `consecutive_reconnects`. -/
  consecutiveReconnects : ℕ
  /-- `last_reconnect`. -/
  lastReconnect : ℕ
  /-- How many fresh endpoints were bound. -/
  endpoints : ℕ
  /-- The receive task of each generation. -/
  receive : ℕ → ReceiveAt ν
  /-- The nodes that are up in the subscription of each generation. -/
  up : ℕ → Finset ν
  /-- The isolation task has stored the failures and not the request. -/
  isolating : Bool
  /-- The health task has stored the forced reset and not the request. -/
  resetting : Bool
  clock : ℕ

/-- `RECONNECT_AFTER_FAILURES`. -/
def reconnectAfterFailures : ℕ := 5

/-- `ENDPOINT_RESET_AFTER_RECONNECTS`. -/
def endpointResetAfterReconnects : ℕ := 3

/-- The cooldown between two reconnects. -/
def reconnectCooldown : ℕ := 30000

/-- `ISOLATION_CHECK_INTERVAL_SECS`, in milliseconds. -/
def isolationCheckInterval : ℕ := 300000

/-- How many values a `u32` has. -/
def u32Size : ℕ := 4294967296

/-- `fetch_add(1)` on a `u32`. -/
def fetchAdd (n : ℕ) : ℕ := (n + 1) % u32Size

/-- `fetch_sub(1)` on a `u32`. -/
def fetchSub (n : ℕ) : ℕ := (n + (u32Size - 1)) % u32Size

/-- What happens next. -/
inductive TasksLabel (ν : Type u) where
  /-- The monitor takes a step, in which what it tries succeeds or not. -/
  | monitor (ok : Bool)
  /-- The receive task of a generation takes a step. -/
  | receive (g : ℕ)
  /-- Its subscription reports. -/
  | report (g : ℕ) (r : Report ν)
  /-- It leaves the loop: the stream is closed, silent for too long, or broken. -/
  | leave (g : ℕ)
  /-- It panics in `handle_event`. -/
  | panic (g : ℕ)
  /-- The watchdog sees a second stall. -/
  | watchdog
  /-- The isolation task takes a step. -/
  | isolation
  /-- The health task takes a step. -/
  | health
  /-- An announcement or an endorsement was broadcast, or was not. -/
  | announced (ok : Bool)
  /-- Ctrl+C. -/
  | signal
  | tick (ms : ℕ)

namespace Tasks

variable {ν : Type u}

/-- The listener when it has spawned its first receive task. -/
def init (now : ℕ) : Tasks ν where
  failures := 0
  requested := false
  forced := false
  shutdown := false
  generation := 1
  neighborCount := 0
  neighborIds := ∅
  monitor := .selecting
  consecutiveReconnects := 0
  lastReconnect := now
  endpoints := 0
  receive := fun g => if g = 1 then .looping else .unborn
  up := fun _ => ∅
  isolating := false
  resetting := false
  clock := now

/-! ### Steps -/

/-- The receive task of a generation moves on. -/
def move (s : Tasks ν) (g : ℕ) (r : ReceiveAt ν) : Tasks ν :=
  { s with receive := Function.update s.receive g r }

@[simp] theorem receive_move_self (s : Tasks ν) (g : ℕ) (r : ReceiveAt ν) :
    (s.move g r).receive g = r := Function.update_self _ _ _

theorem receive_move_of_ne (s : Tasks ν) {g k : ℕ} (h : k ≠ g) (r : ReceiveAt ν) :
    (s.move g r).receive k = s.receive k := Function.update_of_ne h _ _

/-- A step of the monitor. -/
def monitorStep (s : Tasks ν) (ok : Bool) : Option (Tasks ν) :=
  match s.monitor with
  | .selecting => some { s with monitor := .woken }
  | .woken => some { s with monitor := if s.shutdown then .exited else .running }
  | .running => some { s with monitor := .loaded s.failures }
  | .loaded failures => some { s with requested := false, monitor := .swapped failures s.requested }
  | .swapped failures requested =>
    some { s with forced := false, monitor := .informed failures requested s.forced }
  | .informed failures requested forced =>
    if failures ≥ reconnectAfterFailures ∨ requested ∨ forced then
      some { s with monitor := .decided forced }
    else
      some { s with
        monitor := .selecting
        consecutiveReconnects :=
          if s.clock - s.lastReconnect > isolationCheckInterval then 0 else s.consecutiveReconnects }
  | .decided forced => some { s with failures := 0, monitor := .cooling forced }
  | .cooling forced =>
    if !forced && s.clock - s.lastReconnect < reconnectCooldown then some { s with monitor := .leaving }
    else
      let reconnects :=
        if forced then endpointResetAfterReconnects + 1 else s.consecutiveReconnects + 1
      some { s with
        consecutiveReconnects := reconnects
        monitor := if reconnects > endpointResetAfterReconnects then .binding else .joining }
  | .binding =>
    some { s with endpoints := if ok then s.endpoints + 1 else s.endpoints, monitor := .joining }
  | .joining => some { s with monitor := if ok then .splitting else .failed }
  | .splitting => some { s with monitor := if ok then .joined else .failed }
  | .joined => some { s with failures := 0, monitor := .counting }
  | .counting => some { s with generation := s.generation + 1, monitor := .spawning }
  | .spawning => some { s.move s.generation .looping with monitor := .clearing }
  | .clearing => some { s with neighborIds := ∅, monitor := .resetting }
  | .resetting => some { s with neighborCount := 0, monitor := .finishing }
  | .finishing => some { s with lastReconnect := s.clock, monitor := .leaving }
  | .failed => some { s with failures := 0, monitor := .leaving }
  | .leaving => some { s with monitor := .selecting }
  | .exited => none

/-- `neighbor_count` is updated. -/
def count (s : Tasks ν) : Report ν → Tasks ν
  | .neighborUp _ => { s with neighborCount := fetchAdd s.neighborCount }
  | .neighborDown _ => { s with neighborCount := fetchSub s.neighborCount }
  | .other => s

/-- `neighbor_ids` is updated, and the report is dealt with. -/
def list [DecidableEq ν] (s : Tasks ν) (g : ℕ) : Report ν → Tasks ν
  | .neighborUp id =>
    { s with
      neighborIds := insert id s.neighborIds
      up := Function.update s.up g (insert id (s.up g)) }
  | .neighborDown id =>
    { s with
      neighborIds := s.neighborIds.erase id
      up := Function.update s.up g ((s.up g).erase id) }
  | .other => s

/-- A step of a receive task. -/
def receiveStep [DecidableEq ν] (s : Tasks ν) (g : ℕ) : Option (Tasks ν) :=
  match s.receive g with
  | .taken r =>
    if s.generation = g then
      match r with
      | .other => some (s.move g .looping)
      | _ => some (s.move g (.counting r))
    else some (s.move g .ended)
  | .counting r => some ((s.count r).move g (.listing r))
  | .listing r => some ((s.list g r).move g .looping)
  | .left => some (s.move g (if s.shutdown then .ended else .unflagged))
  | .unflagged => some (s.move g (if s.generation = g then .active else .ended))
  | .active => some ({ s with failures := reconnectAfterFailures }.move g .failing)
  | .failing => some ({ s with requested := true }.move g .ended)
  | _ => none

/-- A report fits what the subscription has reported before. -/
def Fits (up : Finset ν) : Report ν → Prop
  | .neighborUp id => id ∉ up
  | .neighborDown id => id ∈ up
  | .other => True

instance [DecidableEq ν] (up : Finset ν) (r : Report ν) : Decidable (Fits up r) := by
  cases r <;> unfold Fits <;> infer_instance

/-- A step of the listener. -/
def step [DecidableEq ν] (s : Tasks ν) : TasksLabel ν → Option (Tasks ν)
  | .monitor ok => s.monitorStep ok
  | .receive g => s.receiveStep g
  | .report g r =>
    match s.receive g with
    | .looping => if Fits (s.up g) r then some (s.move g (.taken r)) else none
    | _ => none
  | .leave g =>
    match s.receive g with
    | .looping => some (s.move g .left)
    | _ => none
  | .panic g =>
    match s.receive g with
    | .looping => some (s.move g .ended)
    | _ => none
  | .watchdog => some { s with failures := reconnectAfterFailures }
  | .isolation =>
    if s.isolating then some { s with requested := true, isolating := false }
    else some { s with failures := reconnectAfterFailures, isolating := true }
  | .health =>
    if s.resetting then some { s with requested := true, resetting := false }
    else some { s with forced := true, resetting := true }
  | .announced ok => some { s with failures := if ok then 0 else s.failures + 1 }
  | .signal => some { s with shutdown := true }
  | .tick ms => some { s with clock := s.clock + ms }

/-! ### The property and the condition -/

/-- The receive task of the current generation has ended, and the listener is not shutting down. -/
def Ended (s : Tasks ν) : Prop := s.receive s.generation = .ended ∧ s.shutdown = false

/-- A flag asks for a reconnect. -/
def Flagged (s : Tasks ν) : Prop :=
  s.requested ∨ s.forced ∨ reconnectAfterFailures ≤ s.failures

/-- The monitor is in the middle of an attempt, from when what it has read makes it reconnect. -/
def Attempts (s : Tasks ν) : Prop :=
  match s.monitor with
  | .selecting | .woken | .running | .exited => False
  | .loaded failures => reconnectAfterFailures ≤ failures
  | .swapped failures requested => reconnectAfterFailures ≤ failures ∨ requested
  | .informed failures requested forced => reconnectAfterFailures ≤ failures ∨ requested ∨ forced
  | _ => True

/-- A reconnect is owed when the current receive task has ended. -/
def Owed (s : Tasks ν) : Prop := s.Ended → s.Flagged ∨ s.Attempts

/-- The monitor gives an attempt up at its step: the cooldown skips it, or the topic cannot be joined. -/
def GivesUp (s : Tasks ν) (ok : Bool) : Prop :=
  match s.monitor with
  | .cooling forced => !forced ∧ s.clock - s.lastReconnect < reconnectCooldown
  | .joining | .splitting => ok = false
  | _ => False

/-- The step spares the request of an ended receive task: no attempt is given up while the current one
has ended, and the current one does not panic. -/
def Spares (s : Tasks ν) : TasksLabel ν → Prop
  | .monitor ok => s.GivesUp ok → ¬s.Ended
  | .panic g => s.generation = g → s.shutdown
  | _ => True

instance [DecidableEq ν] (s : Tasks ν) : Decidable s.Ended := inferInstanceAs (Decidable (_ ∧ _))

instance (s : Tasks ν) : Decidable s.Flagged := inferInstanceAs (Decidable (_ ∨ _ ∨ _))

instance (s : Tasks ν) : Decidable s.Attempts := by
  unfold Attempts
  split <;> infer_instance

instance (s : Tasks ν) (ok : Bool) : Decidable (s.GivesUp ok) := by
  unfold GivesUp
  split <;> infer_instance

instance [DecidableEq ν] (s : Tasks ν) (a : TasksLabel ν) : Decidable (s.Spares a) := by
  unfold Spares
  split <;> infer_instance

/-! ### The request of an ended task -/

/-- The monitor pursues a request: what it has read makes it reconnect, and it has not counted the next
generation yet. -/
def Pursues (s : Tasks ν) : Prop :=
  match s.monitor with
  | .loaded failures => reconnectAfterFailures ≤ failures
  | .swapped failures requested => reconnectAfterFailures ≤ failures ∨ requested
  | .informed failures requested forced => reconnectAfterFailures ≤ failures ∨ requested ∨ forced
  | .decided _ | .cooling _ | .binding | .joining | .splitting | .joined | .counting => True
  | _ => False

/-- What the steps that spare a request keep. -/
structure Answered (s : Tasks ν) : Prop where
  /-- The receive tasks are numbered in the order in which they are spawned. -/
  unborn : ∀ g, s.generation < g → s.receive g = .unborn
  /-- The request of an ended receive task is set, or the monitor pursues it. -/
  request : s.Ended → s.requested ∨ s.Pursues

theorem Pursues.attempts {s : Tasks ν} (h : s.Pursues) : s.Attempts := by
  unfold Pursues at h
  unfold Attempts
  split at h <;> simp_all

theorem Answered.owed {s : Tasks ν} (h : s.Answered) : s.Owed :=
  fun hend => (h.request hend).imp .inl Pursues.attempts

theorem answered_init (now : ℕ) : (init now : Tasks ν).Answered where
  unborn g hg := if_neg (Nat.ne_of_gt hg)
  request hend := by cases hend.1

/-- The monitor takes a request over when it swaps the flag, and answers it when it counts the next
generation. -/
theorem Answered.monitorStep {s t : Tasks ν} {ok : Bool} (hs : s.Answered)
    (hG : s.GivesUp ok → ¬s.Ended) (h : s.monitorStep ok = some t) : t.Answered := by
  -- where the monitor pursues nothing, the flag is set
  have hflag : ¬s.Pursues → s.Ended → s.requested := fun hno hend => (hs.request hend).resolve_right hno
  cases hm : s.monitor with
  | selecting | woken | running | clearing | resetting | finishing | failed | leaving =>
    simp only [Tasks.monitorStep, hm] at h
    cases h
    refine ⟨hs.unborn, fun hend => .inl (hflag ?_ hend)⟩
    simp [Pursues, hm]
  | loaded failures =>
    simp only [Tasks.monitorStep, hm] at h
    cases h
    refine ⟨hs.unborn, fun hend => .inr ?_⟩
    have hold := hs.request hend
    simp only [Pursues, hm] at hold ⊢
    exact hold.symm
  | swapped failures requested =>
    simp only [Tasks.monitorStep, hm] at h
    cases h
    refine ⟨hs.unborn, fun hend => ?_⟩
    have hold := hs.request hend
    simp only [Pursues, hm] at hold ⊢
    tauto
  | informed failures requested forced =>
    simp only [Tasks.monitorStep, hm] at h
    split at h
    · cases h
      exact ⟨hs.unborn, fun _ => .inr trivial⟩
    · rename_i hno
      cases h
      refine ⟨hs.unborn, fun hend => .inl (hflag ?_ hend)⟩
      simpa only [Pursues, hm] using hno
  | cooling forced =>
    simp only [Tasks.monitorStep, hm] at h
    split at h
    · rename_i hskip
      cases h
      have hgives : s.GivesUp ok := by simpa [GivesUp, hm] using hskip
      exact ⟨hs.unborn, fun hend => absurd hend (hG hgives)⟩
    · cases h
      refine ⟨hs.unborn, fun _ => .inr ?_⟩
      simp only [Pursues]
      split_ifs <;> trivial
  | joining | splitting =>
    simp only [Tasks.monitorStep, hm] at h
    cases h
    cases ok with
    | false =>
      have hgives : s.GivesUp false := by simp [GivesUp, hm]
      exact ⟨hs.unborn, fun hend => absurd hend (hG hgives)⟩
    | true => exact ⟨hs.unborn, fun _ => .inr trivial⟩
  | decided | binding | joined =>
    simp only [Tasks.monitorStep, hm] at h
    cases h
    exact ⟨hs.unborn, fun _ => .inr trivial⟩
  | counting =>
    simp only [Tasks.monitorStep, hm] at h
    cases h
    refine ⟨fun g hg => hs.unborn g (Nat.lt_of_succ_lt hg), fun hend => ?_⟩
    -- the task of the new generation is not spawned yet
    have hnew : s.receive (s.generation + 1) = .ended := hend.1
    rw [hs.unborn _ (Nat.lt_succ_self _)] at hnew
    cases hnew
  | spawning =>
    simp only [Tasks.monitorStep, hm] at h
    cases h
    refine ⟨fun g hg => ?_, fun hend => ?_⟩
    · exact (receive_move_of_ne s (Nat.ne_of_gt hg) _).trans (hs.unborn g hg)
    · have hloop : (s.move s.generation .looping).receive s.generation = .ended := hend.1
      rw [receive_move_self] at hloop
      cases hloop
  | exited =>
    simp only [Tasks.monitorStep, hm] at h
    cases h

/-- A receive task that is there moves on, and does not end if it is the current one. -/
theorem Answered.move {s : Tasks ν} (hs : s.Answered) {g : ℕ} {r : ReceiveAt ν}
    (hborn : s.receive g ≠ .unborn) (hr : r = .ended → s.generation ≠ g ∨ s.shutdown) :
    (s.move g r).Answered where
  unborn k hk := by
    have hne : k ≠ g := fun heq => hborn (heq ▸ hs.unborn k hk)
    exact (receive_move_of_ne s hne r).trans (hs.unborn k hk)
  request := by
    rintro ⟨hend, hshutdown⟩
    change (s.move g r).receive s.generation = .ended at hend
    refine hs.request ⟨?_, hshutdown⟩
    by_cases hg : s.generation = g
    · rw [hg, receive_move_self] at hend
      rcases hr hend with hne | hshutdown'
      · exact absurd hg hne
      · rw [show s.shutdown = false from hshutdown] at hshutdown'
        cases hshutdown'
    · rwa [receive_move_of_ne s hg] at hend

/-- The neighbor tracking has no part in it. -/
theorem Answered.track {s : Tasks ν} (hs : s.Answered) (n : ℕ) (ids : Finset ν) (up : ℕ → Finset ν) :
    Answered { s with neighborCount := n, neighborIds := ids, up := up } := ⟨hs.unborn, hs.request⟩

theorem Answered.count {s : Tasks ν} (hs : s.Answered) (r : Report ν) : (s.count r).Answered := by
  cases r with
  | neighborUp id => exact hs.track (fetchAdd s.neighborCount) s.neighborIds s.up
  | neighborDown id => exact hs.track (fetchSub s.neighborCount) s.neighborIds s.up
  | other => exact hs

theorem Answered.list [DecidableEq ν] {s : Tasks ν} (hs : s.Answered) (g : ℕ) (r : Report ν) :
    (s.list g r).Answered := by
  cases r with
  | neighborUp id =>
    exact hs.track s.neighborCount (insert id s.neighborIds) (Function.update s.up g (insert id (s.up g)))
  | neighborDown id =>
    exact hs.track s.neighborCount (s.neighborIds.erase id) (Function.update s.up g ((s.up g).erase id))
  | other => exact hs

/-- The flag is raised. -/
theorem Answered.raise {s t : Tasks ν} (hs : s.Answered) (hgen : t.generation = s.generation)
    (hreceive : ∀ g, s.generation < g → t.receive g = s.receive g) (h : t.requested = true) :
    t.Answered where
  unborn g hg := by
    rw [hgen] at hg
    exact (hreceive g hg).trans (hs.unborn g hg)
  request _ := .inl h

/-- A receive task that ends itself asks for a reconnect, unless it is not the current one. -/
theorem Answered.receiveStep [DecidableEq ν] {s t : Tasks ν} {g : ℕ} (hs : s.Answered)
    (h : s.receiveStep g = some t) : t.Answered := by
  cases hr : s.receive g with
  | taken r =>
    have hborn : s.receive g ≠ .unborn := by simp [hr]
    simp only [Tasks.receiveStep, hr] at h
    split at h
    · cases r <;> cases h <;> exact hs.move hborn nofun
    · rename_i hne
      cases h
      exact hs.move hborn fun _ => .inl hne
  | counting r =>
    simp only [Tasks.receiveStep, hr] at h
    cases h
    refine (hs.count r).move ?_ nofun
    cases r <;> simp [Tasks.count, hr]
  | listing r =>
    simp only [Tasks.receiveStep, hr] at h
    cases h
    refine (hs.list g r).move ?_ nofun
    cases r <;> simp [Tasks.list, hr]
  | left =>
    simp only [Tasks.receiveStep, hr] at h
    cases h
    refine hs.move (by simp [hr]) fun hend => .inr ?_
    split_ifs at hend with hshutdown
    exact hshutdown
  | unflagged =>
    simp only [Tasks.receiveStep, hr] at h
    cases h
    refine hs.move (by simp [hr]) fun hend => .inl ?_
    split_ifs at hend with hg
    exact hg
  | active =>
    simp only [Tasks.receiveStep, hr] at h
    cases h
    have hstored : Answered { s with failures := reconnectAfterFailures } := ⟨hs.unborn, hs.request⟩
    exact hstored.move (by simp [hr]) nofun
  | failing =>
    simp only [Tasks.receiveStep, hr] at h
    cases h
    refine hs.raise rfl (fun k hk => receive_move_of_ne _ ?_ _) rfl
    rintro rfl
    rw [hs.unborn k hk] at hr
    cases hr
  | unborn | looping | ended =>
    simp only [Tasks.receiveStep, hr] at h
    cases h

/-- A step that spares the request of an ended task keeps it answered. -/
theorem Answered.step [DecidableEq ν] {s t : Tasks ν} {a : TasksLabel ν} (hs : s.Answered)
    (hG : s.Spares a) (h : s.step a = some t) : t.Answered := by
  cases a with
  | monitor ok => exact hs.monitorStep hG h
  | receive g => exact hs.receiveStep h
  | report g r =>
    simp only [Tasks.step] at h
    split at h
    · rename_i hr
      split_ifs at h
      cases h
      exact hs.move (by simp [hr]) nofun
    · cases h
  | leave g =>
    simp only [Tasks.step] at h
    split at h
    · rename_i hr
      cases h
      exact hs.move (by simp [hr]) nofun
    · cases h
  | panic g =>
    simp only [Tasks.step] at h
    split at h
    · rename_i hr
      cases h
      refine hs.move (by simp [hr]) fun _ => ?_
      by_cases hg : s.generation = g
      · exact .inr (hG hg)
      · exact .inl hg
    · cases h
  | watchdog | announced | tick =>
    cases h
    exact ⟨hs.unborn, hs.request⟩
  | isolation | health =>
    simp only [Tasks.step] at h
    split at h <;> cases h
    · exact hs.raise rfl (fun _ _ => rfl) rfl
    · exact ⟨hs.unborn, hs.request⟩
  | signal =>
    cases h
    exact ⟨hs.unborn, fun hend => absurd hend.2 nofun⟩

/-- **No request is lost** in a run in which no attempt is given up while the current receive task has
ended, and the current one does not panic: at every moment at which the receive task of the current
generation has ended and the listener is not shutting down, a flag asks for a reconnect or the monitor is
in the middle of one. -/
theorem owed_of_spared [DecidableEq ν] (now : ℕ) (labels : List (TasksLabel ν))
    (hG : Along step Spares (init now) labels) :
    ∀ before s, before <+: labels → run step (init now) before = some s → s.Owed :=
  always_of_along (fun _ _ _ hs hG h => hs.step hG h) (fun _ => Answered.owed) (answered_init now) hG

/-- The stream of the first subscription is closed, and its receive task asks for a reconnect. -/
def firstTaskEnds : List (TasksLabel ℕ) := .leave 1 :: List.replicate 4 (.receive 1)

/-- The receive task ends in the cooldown, or the topic cannot be joined: the monitor is back at its
`select!`, no flag is set, and nothing receives. -/
theorem request_lost :
    (∃ s, run step (init 0) (firstTaskEnds ++ List.replicate 9 (.monitor true)) = some s ∧
      s.Ended ∧ s.monitor = .selecting ∧ ¬s.Owed) ∧
    ∃ s, run step (init 0) (.tick 30000 :: firstTaskEnds ++ List.replicate 8 (.monitor true) ++
        List.replicate 3 (.monitor false)) = some s ∧
      s.Ended ∧ s.monitor = .selecting ∧ ¬s.Owed := by
  have hlost : ∀ s : Tasks ℕ, s.Ended → ¬(s.Flagged ∨ s.Attempts) → ¬s.Owed :=
    fun s hend hno hs => hno (hs hend)
  refine ⟨⟨_, rfl, by decide, rfl, hlost _ (by decide) (by decide)⟩,
    ⟨_, rfl, by decide, rfl, hlost _ (by decide) (by decide)⟩⟩

/-- The watchdog sees a stall, and the cooldown skips the attempt; the receive task ends after it, an
announcement resets the failures, and the monitor spawns another task. -/
def restart : List (TasksLabel ℕ) :=
  .watchdog :: List.replicate 9 (.monitor true) ++ .tick 30000 :: firstTaskEnds ++
    .announced true :: List.replicate 18 (.monitor true)

theorem restart_owed :
    (∃ s, run step (init 0) restart = some s ∧ s.generation = 2) ∧
      ∀ before s, before <+: restart → run step (init 0) before = some s → s.Owed :=
  ⟨⟨_, rfl, rfl⟩, owed_of_spared 0 restart (by decide)⟩

end Tasks

end PodpingAlpha.Listener
