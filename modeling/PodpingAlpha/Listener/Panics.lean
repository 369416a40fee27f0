import PodpingAlpha.Library.Transition
import PodpingAlpha.Listener.Effects

/-!
# Messages that crash the receive task

The receive task ends where `receive` panics. The strings of a message are any Unicode, and four
places cut them at a fixed number of bytes.

## What is proved

* `receive_returns_iff` — a run of the receive step goes through, with no lock poisoned, exactly when
  every message is harmless: what is printed of it and of the table of names can be cut, an
  endorsement with a sound key and signature has keys, and no sequence number follows the largest
  one in a build that checks for overflows.
* `receive_panics` — a notification with a sender that cannot be cut.
-/

namespace PodpingAlpha.Listener

open Outcome Text Transition

/-- A message that does not make the listener panic. -/
def HarmlessMessage (env : Env) (s : Node) : Incoming → Prop
  | .suggest _ | .ignored => True
  | .announce a => NamePrints s [a.nodeId] a
  | .endorse a => a.NamesKeys env.ed25519 ∧ EndorsePrints env s a
  | .notification n => NotificationPrints env s n

/-- An event that does not make the listener panic. -/
def Harmless (env : Env) (s : Node) : Moment × Event → Prop
  | (_, .received content _) => HarmlessMessage env s (classify env content)
  | _ => True

/-- The receive step. -/
def receiveStep (env : Env) (s : Node) (ev : Moment × Event) : Option Node :=
  returned (receive env ev.1 ev.2) s

/-! ### One step -/

variable {env : Env} {s : Node} {m : Moment} {P : Lock (Finset String) × Bool × Bool → Prop}

/-- What a message does to the trusted set and to the locks. -/
def statusAfterMessage (env : Env) (s : Node) : Incoming → Lock (Finset String) × Bool × Bool
  | .endorse a => (⟨endorsed env a s.trustedPublishers.value, false⟩, s.status.2)
  | _ => s.status

/-- What an event does to the trusted set and to the locks. -/
def statusAfter (env : Env) (s : Node) : Event → Lock (Finset String) × Bool × Bool
  | .received content _ => statusAfterMessage env s (classify env content)
  | _ => s.status

theorem completes_handleMessage (hs : Unpoisoned s) (raw : Bytes) (msg : Incoming) :
    Completes (handleMessage env m raw msg) (fun t => P t.status) s ↔
      HarmlessMessage env s msg ∧ P (statusAfterMessage env s msg) := by
  cases msg with
  | suggest g => exact completes_handleSuggest.trans (and_iff_right trivial).symm
  | ignored => exact (and_iff_right trivial).symm
  | announce a =>
    refine (wp_handleAnnounce (F := fun _ => False) hs.2.1).trans ?_
    rw [if_false_right]
    exact Iff.rfl
  | endorse a =>
    by_cases hkeys : a.NamesKeys env.ed25519
    · refine (wp_handleEndorse (F := fun _ => False) hs.1 hs.2.1 hkeys).trans ?_
      rw [if_false_right]
      exact and_congr_left fun _ => (and_iff_right hkeys).symm
    · exact iff_of_false (not_completes_handleEndorse hkeys) fun h => hkeys h.1.1
  | notification n =>
    refine completes_handleNotification.trans ?_
    rw [← and_assoc, ← notificationPrints_iff hs]
    exact Iff.rfl

/-- A step returns on the harmless events, and what it does to the trusted set then. -/
theorem completes_receive (hs : Unpoisoned s) (ev : Event) :
    Completes (receive env m ev) (fun t => P t.status) s ↔
      Harmless env s (m, ev) ∧ P (statusAfter env s ev) := by
  cases ev with
  | received content deliveredFrom =>
    refine (wp_bind.trans wp_modify).trans ?_
    exact completes_handleMessage (by exact hs) content (classify env content)
  | neighborUp nodeId =>
    rw [Completes, receive, handleNeighborUp]
    rw [wp_bind, wp_modify, wp_bind, wp_zoom_read]
    case h => exact hs.2.1
    exact (and_iff_right trivial).symm
  | neighborDown nodeId =>
    rw [Completes, receive]
    rw [wp_bind, wp_modify, wp_bind, wp_zoom_read]
    case h => exact hs.2.1
    exact (and_iff_right trivial).symm
  | lagged => exact (and_iff_right trivial).symm

/-- `Unpoisoned`, of the status. -/
def Free (status : Lock (Finset String) × Bool × Bool) : Prop :=
  status.1.poisoned = false ∧ status.2.1 = false ∧ status.2.2 = false

theorem free_statusAfter (hs : Unpoisoned s) (ev : Event) : Free (statusAfter env s ev) := by
  have hsame : Free s.status := hs
  cases ev with
  | received content deliveredFrom =>
    show Free (statusAfterMessage env s (classify env content))
    cases classify env content with
    | endorse a => exact ⟨rfl, hsame.2⟩
    | _ => exact hsame
  | _ => exact hsame

/-! ### Runs -/

theorem receiveStep_isSome (hs : Unpoisoned s) (ev : Moment × Event) :
    (receiveStep env s ev).isSome ↔ Harmless env s ev := by
  have hany : Completes (receive env ev.1 ev.2) _ s ↔ _ :=
    completes_receive (P := fun _ => True) hs ev.2
  rw [completes_iff] at hany
  simpa [Option.isSome_iff_exists, receiveStep] using hany

theorem unpoisoned_receiveStep {t : Node} {ev : Moment × Event} (hs : Unpoisoned s)
    (h : receiveStep env s ev = some t) : Unpoisoned t := by
  have hharmless : Harmless env s ev := (receiveStep_isSome hs ev).1 (by rw [h]; rfl)
  obtain ⟨u, hu, hfree⟩ := completes_iff.1 ((completes_receive (m := ev.1) (P := Free) hs ev.2).2
    ⟨hharmless, free_statusAfter hs ev.2⟩)
  cases h.symm.trans hu
  exact hfree

/-- **The receive task survives** a run of events, and poisons no lock, if and only if every event is
harmless in the state it is received in. -/
theorem receive_returns_iff (env : Env) (s : Node) (hs : Unpoisoned s)
    (evs : List (Moment × Event)) :
    (∃ t, run (receiveStep env) s evs = some t ∧ Unpoisoned t) ↔
      Along (receiveStep env) (Harmless env) s evs := by
  rw [← run_isSome_iff_along (I := Unpoisoned) (fun _ _ _ => unpoisoned_receiveStep)
    (fun _ ev h => receiveStep_isSome h ev) hs, Option.isSome_iff_exists]
  exact exists_congr fun t => and_iff_left_of_imp fun h =>
    inv_run (fun _ _ _ => unpoisoned_receiveStep) hs h

/-- A notification with an ASCII sender. -/
theorem receive_returns_ascii :
    let n : GossipNotification := ⟨"1.0", "aaaaaaaa", 7, "podcast", "update", [], none, none⟩
    ∃ t, run (receiveStep (plainEnv n)) (.start 7 none none none none false false)
      [(.fine 7, .received [1] "peer")] = some t ∧ Unpoisoned t :=
  (receive_returns_iff (plainEnv _) (.start 7 none none none none false false) ⟨rfl, rfl, rfl⟩
    [(.fine 7, .received [1] "peer")]).2
    ⟨fun _ => ⟨by decide, nofun⟩, fun _ _ => trivial⟩

/-- A notification whose sender has a character of two bytes at its eighth byte. -/
theorem receive_panics :
    let n : GossipNotification := ⟨"1.0", "aaaaaaaé", 7, "podcast", "update", [], none, none⟩
    ¬∃ t, run (receiveStep (plainEnv n)) (.start 7 none none none none false false)
      [(.fine 7, .received [1] "peer")] = some t ∧ Unpoisoned t := by
  intro n
  rintro ⟨t, h, -⟩
  obtain ⟨u, hu, -⟩ := run_cons_eq_some.1 h
  have hfree : Unpoisoned (.start 7 none none none none false false) := ⟨rfl, rfl, rfl⟩
  have hharmless : Harmless (plainEnv n) _ (.fine 7, .received [1] "peer") :=
    (receiveStep_isSome hfree _).1 (by rw [hu]; rfl)
  have hcut : Cuts 8 "aaaaaaaé" := (hharmless (.inl (by decide))).1
  revert hcut
  decide

end PodpingAlpha.Listener
