import PodpingAlpha.Dtt.GossipReceiver

/-!
# The hashes of recent messages

`last_message_hashes` of the gossip receiver, which a node publishes in its DHT record and compares
with those in the records of others to find out that the swarm has split. The actor hashes what is
at the front of `msg_queue` once the oldest waiter has been served, so a message that a waiter took
is not there any more.

## What is proved

* `recent_iff` — as long as the actor runs, the list holds the last five messages at every moment
  exactly when no message arrives while a call of `next` waits, other than one whose hash is all the
  list holds.
* `waiter_hides_message` — a call that waits, and a message whose hash is not recorded.
-/

namespace PodpingAlpha.Dtt.GossipReceiver

open Transition Deque

variable {ι ε κ : Type} {sha512 : Bytes → κ} {s t : World ι ε κ} {a : Label ι ε}

/-- The content of a message. -/
def content : RawEvent ι ε → Option Bytes
  | some (.ok (.received content _)) => some content
  | _ => none

/-- The hashes of the messages that arrived, in order. -/
def World.messageHashes (sha512 : Bytes → κ) (s : World ι ε κ) : List κ :=
  (s.arrived.filterMap content).map sha512

/-- `last_message_hashes` holds the last five of them. -/
def World.Recent (sha512 : Bytes → κ) (s : World ι ε κ) : Prop :=
  s.actor.lastMessageHashes = (s.messageHashes sha512).rtake 5

/-- A message is recorded, or makes no difference: nobody waits when it arrives, or the last five
hashes are its own already. -/
def Heard (sha512 : Bytes → κ) (s : World ι ε κ) : Label ι ε → Prop
  | .stream (some (.ok (.received content _))) =>
    s.actor.waiters = [] ∨ s.actor.lastMessageHashes = List.replicate 5 (sha512 content)
  | _ => True

instance [DecidableEq κ] (s : World ι ε κ) : Decidable (s.Recent sha512) :=
  inferInstanceAs (Decidable (_ = _))

/-! ### One step -/

/-- What is recorded is the hash of the event at the front of the queue. -/
theorem lastMessageHashes_recordHash (s : World ι ε κ) :
    (s.recordHash sha512).actor.lastMessageHashes =
      match s.actor.msgQueue.head?.bind content with
      | some c =>
        let hashes := s.actor.lastMessageHashes ++ [sha512 c]
        if hashes.length > 5 then hashes.tail else hashes
      | none => s.actor.lastMessageHashes := by
  rw [World.recordHash]
  cases s.actor.msgQueue with
  | nil => rfl
  | cons e q =>
    match e with
    | none | some (.error _) => rfl
    | some (.ok event) => cases event <;> rfl

/-- With nothing queued, nothing is recorded. -/
theorem lastMessageHashes_of_nil (h : s.actor.msgQueue = []) :
    (s.recordHash sha512).actor.lastMessageHashes = s.actor.lastMessageHashes := by
  rw [lastMessageHashes_recordHash, h]
  rfl

theorem messageHashes_of_content {e : RawEvent ι ε} {c : Bytes} (h : t.arrived = s.arrived ++ [e])
    (hc : content e = some c) : t.messageHashes sha512 = s.messageHashes sha512 ++ [sha512 c] := by
  simp [World.messageHashes, h, List.filterMap_append, hc]

theorem messageHashes_of_none {e : RawEvent ι ε} (h : t.arrived = s.arrived ++ [e])
    (hc : content e = none) : t.messageHashes sha512 = s.messageHashes sha512 := by
  simp [World.messageHashes, h, List.filterMap_append, hc]

theorem heard_stream {e : RawEvent ι ε} :
    Heard sha512 s (.stream e) ↔ ∀ c, content e = some c →
      s.actor.waiters = [] ∨ s.actor.lastMessageHashes = List.replicate 5 (sha512 c) := by
  match e with
  | none | some (.error _) => exact iff_of_true trivial nofun
  | some (.ok event) =>
    cases event with
    | received c d => exact ⟨fun h c' hc => Option.some.inj hc ▸ h, fun h => h c rfl⟩
    | _ => exact iff_of_true trivial nofun

/-- A step keeps the list of the last five exactly when it is heard. -/
theorem recent_step (hs : Inv s) (hr : s.Recent sha512) (h : step sha512 s a = some t)
    (ht : t.exited = false) : t.Recent sha512 ↔ Heard sha512 s a := by
  cases live_of_step hs.oneEmpty h ht with
  | call => exact iff_of_true hr trivial
  | wait => exact iff_of_true hr trivial
  | take => exact iff_of_true hr trivial
  | poll => exact iff_of_true hr trivial
  | drop => exact iff_of_true hr trivial
  | @queue event hw =>
    refine iff_of_true ?_ (heard_stream.2 fun _ _ => .inl hw)
    rw [World.Recent, lastMessageHashes_recordHash]
    rw [List.head?_cons, Option.bind_some]
    cases hc : content (some (.ok event) : RawEvent ι ε) with
    | none =>
      rw [messageHashes_of_none (recordHash_arrived _ _) hc]
      exact hr
    | some c =>
      rw [messageHashes_of_content (recordHash_arrived _ _) hc, rtake_concat, ← hr]
  | @answer event w ws hw hq =>
    have hne : s.actor.waiters ≠ [] := by simp [hw]
    simp only [World.Recent, heard_stream, hne, false_or]
    -- the waiter took the event, so the queue is empty again
    rw [lastMessageHashes_of_nil (by exact hq)]
    cases hc : content (some (.ok event) : RawEvent ι ε) with
    | none =>
      rw [messageHashes_of_none (recordHash_arrived _ _) hc]
      exact iff_of_true hr nofun
    | some c =>
      rw [messageHashes_of_content (recordHash_arrived _ _) hc]
      show s.actor.lastMessageHashes = _ ↔ _
      rw [hr, rtake_eq_concat_iff]
      exact ⟨fun h c' hc' => Option.some.inj hc' ▸ h, fun h => h c rfl⟩

/-- A message that ends the actor finds nobody waiting. -/
theorem heard_of_exited (h : step sha512 s a = some t) (ht : t.exited = true) :
    Heard sha512 s a := by
  cases a with
  | stream e =>
    refine heard_stream.2 fun c hc => .inl ?_
    match e with
    | none | some (.error _) => cases hc
    | some (.ok event) =>
      simp only [step] at h
      split_ifs at h with hx
      cases h
      rw [World.onStream] at ht
      split_ifs at ht with hfull
      · simp only [Bool.and_eq_true, List.isEmpty_iff] at hfull
        exact hfull.1
      · rw [recordHash_exited] at ht
        have hkeep : ((s.enqueue (some (.ok event))).answer).exited = s.exited := by
          unfold World.answer
          split
          · split <;> rfl
          · rfl
        exact absurd (hkeep.symm.trans ht) hx
  | _ => trivial

/-! ### Runs -/

/-- **The recent messages**: in every run, `last_message_hashes` holds the hashes of the last five
messages (of all, if there were fewer) at every moment at which the actor runs, if and only if every
step is heard. -/
theorem recent_iff (sha512 : Bytes → κ) (as : List (Label ι ε)) (s : World ι ε κ)
    (h : run (step sha512) World.init as = some s) :
    (∀ pre t, pre <+: as → run (step sha512) World.init pre = some t → t.exited = false →
        t.Recent sha512) ↔ Along (step sha512) (Heard sha512) World.init as := by
  refine always_iff_along (I := fun s => s.exited = false → Inv s)
    (C := fun s => s.exited = false → s.Recent sha512) (A := fun _ => True)
    (fun s a t hs _ hstep ht => inv_step (hs (exited_step hstep ht)) hstep ht)
    (fun s a t hs hr _ hstep => ?_) (fun _ => inv_init) (fun _ => rfl) (fun _ _ => trivial) h
  cases ht : t.exited with
  | false =>
    have hx := exited_step hstep ht
    exact (forall_prop_of_true rfl).trans (recent_step (hs hx) (hr hx) hstep ht)
  | true => exact iff_of_true nofun (heard_of_exited hstep ht)

/-- A message that arrives before it is asked for is recorded. -/
theorem recent_iff_queued : ∃ s : World ℕ ℕ Bytes,
    run (step id) World.init [.stream (message 1), .call, .action] = some s ∧ s.exited = false ∧
      s.Recent id := by
  refine ⟨_, rfl, rfl, (recent_iff id [.stream (message 1), .call, .action] _ rfl).2 ?_ _ _
    (List.prefix_refl _) rfl rfl⟩
  refine ⟨.inl rfl, fun _ h₁ => ?_⟩
  cases h₁
  refine ⟨trivial, fun _ h₂ => ?_⟩
  cases h₂
  exact ⟨trivial, fun _ _ => trivial⟩

/-- A call waits, as the receive tasks do between two messages, and takes the message: its hash is
not recorded. -/
theorem waiter_hides_message :
    let s : World ℕ ℕ Bytes := ⟨⟨[], [], [], []⟩, false, [.sent (message 1)], [message 1],
      [(0, message 1)]⟩
    run (step id) World.init [.call, .action, .stream (message 1)] = some s ∧ s.exited = false ∧
      ¬s.Recent id :=
  ⟨by decide, rfl, by decide⟩

end PodpingAlpha.Dtt.GossipReceiver
