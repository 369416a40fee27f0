import PodpingAlpha.Library.Transition
import PodpingAlpha.Library.Deque
import PodpingAlpha.Library.Bytes
import Mathlib.Control.Monad.Basic
import Mathlib.Data.List.Nodup

/-!
# The gossip receiver

`dtt-fork/src/gossip/receiver.rs`: an actor owns the gossip event stream, keeps the events nobody
has asked for yet (`msg_queue`) and the callers nobody has answered yet (`waiters`), and every
`GossipReceiver::next` is a oneshot channel whose sender the actor keeps. The receive tasks of the
three programs call `next` under a 30 s timeout, which drops the receiver of the oneshot and leaves
its sender where it is.

## The model

Calls of `next` are numbered in the order they are made. A `World` is the actor with the oneshot of
every call. A `Label` is one thing that happens: a call is made, the actor takes an action from its
channel or an item from the stream, a caller polls, a caller is cancelled; `tokio::select!` takes
whichever branch is ready, so every order is a run.

* `arrived`, `handed` are history: the events taken from the stream, and every `waiter.send` in
  order, to a live caller or not.
* The actor's other actions (`neighbors`, `is_joined`, `last_message_hashes`) only read its state
  and are left out.

## What is proved

* `inv_step` — the ledger: while the actor runs, the events that arrived are those handed to a
  waiter followed by those in `msg_queue`, and `msg_queue` and `waiters` are never both nonempty.
* `delivered_iff` — no event is lost, duplicated or reordered exactly in the runs where no event is
  handed to a dropped caller.
-/

namespace PodpingAlpha.Dtt.GossipReceiver

open Transition Deque

/-- A gossip event (`iroh_gossip::api::Event`). -/
inductive Event (ι : Type) where
  /-- A message: its content and the neighbour that delivered it. -/
  | received (content : Bytes) (deliveredFrom : ι)
  /-- A neighbour came up. -/
  | neighborUp (id : ι)
  /-- A neighbour went down. -/
  | neighborDown (id : ι)
  /-- The stream dropped events. -/
  | lagged
  deriving DecidableEq

/-- What the stream yields: `none` is its end, `some (.error e)` an error of the API. -/
abbrev RawEvent (ι ε : Type) := Option (Except ε (Event ι))

/-- The oneshot of one call of `next`. -/
inductive Call (ι ε : Type) where
  /-- The receiver is alive and nothing has been sent. -/
  | waiting
  /-- The value was sent, and the caller has not been polled since. -/
  | sent (event : RawEvent ι ε)
  /-- The call returned the value. -/
  | returned (event : RawEvent ι ε)
  /-- The call was cancelled: the receiver is gone. -/
  | dropped
  deriving DecidableEq

/-- The value a call that was not cancelled has, or is about to have, returned. -/
def Call.value {ι ε : Type} : Call ι ε → Option (RawEvent ι ε)
  | .sent e | .returned e => some e
  | .waiting | .dropped => none

/-- The actor. Deques have their front first. -/
structure GossipReceiverActor (ι ε κ : Type) where
  /-- The action channel: the `register_next` of these calls, oldest first. -/
  rx : List ℕ
  /-- The hashes of recent messages, oldest first. -/
  lastMessageHashes : List κ
  /-- The events nobody has taken, newest first. -/
  msgQueue : List (RawEvent ι ε)
  /-- The calls nobody has answered, newest first. -/
  waiters : List ℕ
  deriving DecidableEq

/-- The actor, the callers, and the history. -/
structure World (ι ε κ : Type) where
  /-- The actor. -/
  actor : GossipReceiverActor ι ε κ
  /-- The actor's loop has ended. -/
  exited : Bool
  /-- The oneshot of call `i`. -/
  calls : List (Call ι ε)
  /-- The events taken from the stream, in order. -/
  arrived : List (RawEvent ι ε)
  /-- The calls of `waiter.send` made so far, in order. -/
  handed : List (ℕ × RawEvent ι ε)
  deriving DecidableEq

variable {ι ε κ : Type}

/-- `GossipReceiver::new`. -/
def World.init : World ι ε κ := ⟨⟨[], [], [], []⟩, false, [], [], []⟩

/-- What a oneshot send does to the receivers: the value is lost when the receiver is gone. -/
def deposit (calls : List (Call ι ε)) (waiter : ℕ) (event : RawEvent ι ε) : List (Call ι ε) :=
  match calls[waiter]? with
  | some .waiting => calls.set waiter (.sent event)
  | _ => calls

/-- `let _ = waiter.send(event)`. -/
def World.send (s : World ι ε κ) (waiter : ℕ) (event : RawEvent ι ε) : World ι ε κ :=
  { s with calls := deposit s.calls waiter event, handed := s.handed ++ [(waiter, event)] }

/-- Send `None` to every waiter. -/
def World.sendNone : World ι ε κ → List ℕ → World ι ε κ
  | s, [] => s
  | s, w :: ws => World.sendNone (s.send w none) ws

/-- `GossipReceiverActor::register_next`. -/
def World.registerNext (s : World ι ε κ) (waiter : ℕ) : World ι ε κ :=
  match popBack s.actor.msgQueue with
  | some (event, q) => { s with actor.msgQueue := q }.send waiter event
  | none => { s with actor.waiters := waiter :: s.actor.waiters }

/-- How many events `run` keeps with nobody waiting. -/
def maxQueued : ℕ := 1000

/-- `self.msg_queue.push_front(raw_event)`. -/
def World.enqueue (s : World ι ε κ) (raw : RawEvent ι ε) : World ι ε κ :=
  { s with actor.msgQueue := raw :: s.actor.msgQueue, arrived := s.arrived ++ [raw] }

/-- The oldest waiter, if there is one, is sent the oldest event. -/
def World.answer (s : World ι ε κ) : World ι ε κ :=
  match popBack s.actor.waiters with
  | some (waiter, ws) =>
    match popBack s.actor.msgQueue with
    | some (event, q) => { s with actor.waiters := ws, actor.msgQueue := q }.send waiter event
    | none => { s with actor.waiters := ws }.send waiter none
  | none => s

/-- The end of the arm: the hash of the message at the front of `msg_queue` is recorded, and only
the last five are kept. -/
def World.recordHash (sha512 : Bytes → κ) (s : World ι ε κ) : World ι ε κ :=
  match s.actor.msgQueue.head? with
  | some (some (.ok (.received content _))) =>
    let hashes := s.actor.lastMessageHashes ++ [sha512 content]
    { s with actor.lastMessageHashes := if hashes.length > 5 then hashes.tail else hashes }
  | _ => s

/-- `GossipReceiverActor::run`, the stream branch. -/
def World.onStream (sha512 : Bytes → κ) (s : World ι ε κ) : RawEvent ι ε → World ι ε κ
  | none => { s with actor.waiters := [], exited := true }.sendNone s.actor.waiters.reverse
  | some (.error e) =>
    match popBack s.actor.waiters with
    | some (waiter, ws) =>
      ({ s with actor.waiters := [], exited := true }.send waiter (some (.error e))).sendNone ws.reverse
    | none => { s with exited := true }
  | some (.ok event) =>
    if s.actor.waiters.isEmpty && s.actor.msgQueue.length > maxQueued then { s with exited := true }
    else ((s.enqueue (some (.ok event))).answer).recordHash sha512

/-- One thing that happens. -/
inductive Label (ι ε : Type) where
  /-- `next` is called: a oneshot is made and its sender goes to the actor. -/
  | call
  /-- The actor takes an action. -/
  | action
  /-- The actor takes an item from the stream. -/
  | stream (raw : RawEvent ι ε)
  /-- Caller `i` is polled with its value there, and returns it. -/
  | poll (i : ℕ)
  /-- Caller `i` is cancelled before it returned. -/
  | drop (i : ℕ)

/-- The step function; `none` where the label is not enabled. -/
def step (sha512 : Bytes → κ) (s : World ι ε κ) : Label ι ε → Option (World ι ε κ)
  | .call => some { s with calls := s.calls ++ [.waiting], actor.rx := s.actor.rx ++ [s.calls.length] }
  | .action =>
    match s.exited, s.actor.rx with
    | false, w :: rx => some ({ s with actor.rx := rx }.registerNext w)
    | _, _ => none
  | .stream raw => if s.exited then none else some (s.onStream sha512 raw)
  | .poll i =>
    match s.calls[i]? with
    | some (.sent e) => some { s with calls := s.calls.set i (.returned e) }
    | _ => none
  | .drop i =>
    match s.calls[i]? with
    | some .waiting | some (.sent _) => some { s with calls := s.calls.set i .dropped }
    | _ => none

/-! ### What is delivered -/

/-- The events of the calls that were not cancelled, in the order the actor answered them. -/
def World.returned (s : World ι ε κ) : List (RawEvent ι ε) :=
  s.handed.filterMap fun p => s.calls[p.1]?.bind Call.value

/-- No event is lost, duplicated or reordered: those returned, then `msg_queue` from oldest to
newest, are those that arrived. -/
def World.Delivered (s : World ι ε κ) : Prop := s.returned ++ s.actor.msgQueue.reverse = s.arrived

/-- `msg_queue` and `waiters` are not both nonempty. -/
def World.OneEmpty (s : World ι ε κ) : Prop := s.actor.msgQueue = [] ∨ s.actor.waiters = []

/-- The step hands no event to a cancelled call, and cancels no call that has its event: the caller
of the oldest waiter is alive when an event arrives, so is the caller whose `register_next` is taken
while events are queued, and a call is not cancelled between the actor's send and its next poll. -/
def HandsToLive (s : World ι ε κ) : Label ι ε → Prop
  | .action =>
    match s.actor.rx with
    | w :: _ => s.actor.msgQueue ≠ [] → s.calls[w]? ≠ some .dropped
    | [] => True
  | .stream (some (.ok _)) =>
    match popBack s.actor.waiters with
    | some (w, _) => s.calls[w]? ≠ some .dropped
    | none => True
  | .drop i => (s.calls[i]?.bind Call.value) = none
  | _ => True

instance [DecidableEq ι] [DecidableEq ε] (s : World ι ε κ) : Decidable s.Delivered :=
  inferInstanceAs (Decidable (_ = _))

/-! ### The oneshots -/

/-- The state of the oneshots: the calls in `pending` have not been answered, those in `handed`
have, once each, and a call answered while its caller was there holds what it was answered. -/
structure CallsInv (pending : List ℕ) (handed : List (ℕ × RawEvent ι ε))
    (calls : List (Call ι ε)) : Prop where
  /-- Every call is in one place. -/
  ids : (pending ++ handed.map Prod.fst).Nodup
  /-- A pending call waits, or was cancelled. -/
  idle : ∀ c ∈ pending, calls[c]? = some .waiting ∨ calls[c]? = some .dropped
  /-- An answered call has its answer, or was cancelled. -/
  held : ∀ p ∈ handed, (calls[p.1]?.bind Call.value) = some p.2 ∨ calls[p.1]? = some .dropped
  /-- Only answered calls have a value. -/
  valued : ∀ c e, (calls[c]?.bind Call.value) = some e → c ∈ handed.map Prod.fst

/-- No answered call was cancelled. -/
def Clean (handed : List (ℕ × RawEvent ι ε)) (calls : List (Call ι ε)) : Prop :=
  ∀ p ∈ handed, calls[p.1]? ≠ some .dropped

variable {pending pending' : List ℕ} {handed : List (ℕ × RawEvent ι ε)} {calls : List (Call ι ε)}

theorem CallsInv.perm (h : CallsInv pending handed calls) (hp : pending.Perm pending') :
    CallsInv pending' handed calls :=
  ⟨(hp.append_right _).nodup_iff.mp h.ids, fun c hc => h.idle c (hp.mem_iff.mpr hc), h.held, h.valued⟩

theorem CallsInv.pending_lt (h : CallsInv pending handed calls) {c : ℕ} (hc : c ∈ pending) :
    c < calls.length := by
  rcases h.idle c hc with h | h <;> exact (List.getElem?_eq_some_iff.mp h).1

theorem CallsInv.handed_lt (h : CallsInv pending handed calls) {p : ℕ × RawEvent ι ε}
    (hp : p ∈ handed) : p.1 < calls.length := by
  rcases h.held p hp with h | h
  · obtain ⟨c, hc, -⟩ := Option.bind_eq_some_iff.mp h
    exact (List.getElem?_eq_some_iff.mp hc).1
  · exact (List.getElem?_eq_some_iff.mp h).1

/-- A deposit into a waiting call's oneshot. -/
theorem deposit_self {w : ℕ} (e : RawEvent ι ε) (h : calls[w]? = some .waiting) :
    (deposit calls w e)[w]? = some (.sent e) := by
  have hlt := (List.getElem?_eq_some_iff.mp h).1
  rw [deposit]
  rw [h]
  simp [hlt]

/-- A deposit changes no other call. -/
theorem deposit_of_ne {w c : ℕ} (e : RawEvent ι ε) (h : c ≠ w) :
    (deposit calls w e)[c]? = calls[c]? := by
  rw [deposit]
  split
  · exact List.getElem?_set_ne h.symm
  · rfl

/-- A deposit cancels nobody. -/
theorem deposit_dropped (w c : ℕ) (e : RawEvent ι ε) :
    (deposit calls w e)[c]? = some .dropped ↔ calls[c]? = some .dropped := by
  by_cases hc : c = w
  · subst hc
    by_cases hw : calls[c]? = some .waiting
    · simp [deposit_self e hw, hw]
    · rw [deposit]
      split
      · contradiction
      · rfl
  · rw [deposit_of_ne e hc]

/-- A new call. -/
theorem CallsInv.call (h : CallsInv pending handed calls) :
    CallsInv (calls.length :: pending) handed (calls ++ [.waiting]) := by
  have old : ∀ {c}, c < calls.length → (calls ++ [Call.waiting])[c]? = calls[c]? :=
    fun hc => List.getElem?_append_left hc
  refine ⟨?_, ?_, ?_, ?_⟩
  · rw [List.cons_append, List.nodup_cons]
    refine ⟨fun hm => ?_, h.ids⟩
    rcases List.mem_append.mp hm with hm | hm
    · exact absurd (h.pending_lt hm) (Nat.lt_irrefl _)
    · obtain ⟨p, hp, he⟩ := List.mem_map.mp hm
      exact absurd (h.handed_lt hp) (by omega)
  · rintro c hc
    rcases List.mem_cons.mp hc with rfl | hc
    · exact Or.inl (by simp)
    · rw [old (h.pending_lt hc)]
      exact h.idle c hc
  · intro p hp
    rw [old (h.handed_lt hp)]
    exact h.held p hp
  · intro c e hc
    by_cases hlt : c < calls.length
    · rw [old hlt] at hc
      exact h.valued c e hc
    · rw [List.getElem?_append_right (by omega)] at hc
      rcases hn : c - calls.length with _ | n <;> rw [hn] at hc <;> simp [Call.value] at hc

/-- A pending call is answered. -/
theorem CallsInv.hand {w : ℕ} (h : CallsInv (w :: pending) handed calls) (e : RawEvent ι ε) :
    CallsInv pending (handed ++ [(w, e)]) (deposit calls w e) := by
  obtain ⟨hw, hids⟩ := List.nodup_cons.mp h.ids
  have hself : (deposit calls w e)[w]? = some (.sent e) ∨ (deposit calls w e)[w]? = some .dropped := by
    rcases h.idle w List.mem_cons_self with hc | hc
    · exact Or.inl (deposit_self e hc)
    · exact Or.inr ((deposit_dropped w w e).mpr hc)
  refine ⟨?_, ?_, ?_, ?_⟩
  · rw [List.map_append, ← List.append_assoc]
    exact List.nodup_append_comm.mp (List.nodup_cons.mpr ⟨hw, hids⟩)
  · intro c hc
    rw [deposit_of_ne e (by rintro rfl; exact hw (List.mem_append_left _ hc))]
    exact h.idle c (List.mem_cons_of_mem _ hc)
  · intro p hp
    rcases List.mem_append.mp hp with hold | hnew
    · have hne : p.1 ≠ w := fun hpw =>
        hw (List.mem_append_right _ (hpw ▸ List.mem_map_of_mem hold))
      rw [deposit_of_ne e hne]
      exact h.held p hold
    · obtain rfl := List.mem_singleton.mp hnew
      rcases hself with hc | hc
      · exact Or.inl (by simp [hc, Call.value])
      · exact Or.inr hc
  · intro c v hc
    rw [List.map_append, List.mem_append]
    by_cases hcw : c = w
    · exact Or.inr (by simp [hcw])
    · rw [deposit_of_ne e hcw] at hc
      exact Or.inl (h.valued c v hc)

/-- A caller with its value is polled. -/
theorem CallsInv.poll (h : CallsInv pending handed calls) {i : ℕ} {e : RawEvent ι ε}
    (hi : calls[i]? = some (.sent e)) : CallsInv pending handed (calls.set i (.returned e)) := by
  have hv : ∀ c : ℕ, ((calls.set i (.returned e))[c]?.bind Call.value) = calls[c]?.bind Call.value := by
    intro c
    rw [List.getElem?_set]
    split_ifs with hc hlt
    · subst hc
      simp [hi, Call.value]
    · subst hc
      rw [List.getElem?_eq_none (by omega)]
    · rfl
  have hn : ∀ c : ℕ, c ≠ i → (calls.set i (.returned e))[c]? = calls[c]? := fun c hc =>
    List.getElem?_set_ne hc.symm
  have hpi : ∀ c : ℕ, calls[c]? = some .waiting ∨ calls[c]? = some .dropped → c ≠ i := by
    rintro c hc rfl
    simp [hi] at hc
  refine ⟨h.ids, fun c hc => ?_, fun p hp => ?_, fun c v hc => h.valued c v (hv c ▸ hc)⟩
  · rw [hn c (hpi c (h.idle c hc))]
    exact h.idle c hc
  · rw [hv]
    refine (h.held p hp).imp_right fun hd => ?_
    rw [hn _ (hpi _ (Or.inr hd))]
    exact hd

/-- A caller is cancelled. -/
theorem CallsInv.drop (h : CallsInv pending handed calls) (i : ℕ) :
    CallsInv pending handed (calls.set i .dropped) := by
  have hset : ∀ c : ℕ, (calls.set i .dropped)[c]? = calls[c]? ∨
      (calls.set i .dropped)[c]? = some .dropped := by
    intro c
    rw [List.getElem?_set]
    split_ifs with hc hlt
    · exact Or.inr rfl
    · subst hc
      exact Or.inl (List.getElem?_eq_none (by omega)).symm
    · exact Or.inl rfl
  refine ⟨h.ids, fun c hc => ?_, fun p hp => ?_, fun c v hc => ?_⟩
  · rcases hset c with hs | hs
    · exact hs ▸ h.idle c hc
    · exact Or.inr hs
  · rcases hset p.1 with hs | hs
    · exact hs ▸ h.held p hp
    · exact Or.inr hs
  · rcases hset c with hs | hs
    · exact h.valued c v (hs ▸ hc)
    · simp [hs, Call.value] at hc

/-! ### What a step of a running actor does -/

@[simp] theorem recordHash_rx (sha512 : Bytes → κ) (s : World ι ε κ) :
    (s.recordHash sha512).actor.rx = s.actor.rx := by
  unfold World.recordHash; split <;> rfl

@[simp] theorem recordHash_waiters (sha512 : Bytes → κ) (s : World ι ε κ) :
    (s.recordHash sha512).actor.waiters = s.actor.waiters := by
  unfold World.recordHash; split <;> rfl

@[simp] theorem recordHash_msgQueue (sha512 : Bytes → κ) (s : World ι ε κ) :
    (s.recordHash sha512).actor.msgQueue = s.actor.msgQueue := by
  unfold World.recordHash; split <;> rfl

@[simp] theorem recordHash_exited (sha512 : Bytes → κ) (s : World ι ε κ) :
    (s.recordHash sha512).exited = s.exited := by
  unfold World.recordHash; split <;> rfl

@[simp] theorem recordHash_calls (sha512 : Bytes → κ) (s : World ι ε κ) :
    (s.recordHash sha512).calls = s.calls := by
  unfold World.recordHash; split <;> rfl

@[simp] theorem recordHash_arrived (sha512 : Bytes → κ) (s : World ι ε κ) :
    (s.recordHash sha512).arrived = s.arrived := by
  unfold World.recordHash; split <;> rfl

@[simp] theorem recordHash_handed (sha512 : Bytes → κ) (s : World ι ε κ) :
    (s.recordHash sha512).handed = s.handed := by
  unfold World.recordHash; split <;> rfl

theorem sendNone_exited (s : World ι ε κ) (ws : List ℕ) : (s.sendNone ws).exited = s.exited := by
  induction ws generalizing s with
  | nil => rfl
  | cons w ws ih => exact ih (s.send w none)

/-- **The steps of a running actor**, with what is in its queues. -/
inductive Live (sha512 : Bytes → κ) (s : World ι ε κ) : Label ι ε → World ι ε κ → Prop
  /-- `next` is called. -/
  | call : Live sha512 s .call
      { s with calls := s.calls ++ [.waiting], actor.rx := s.actor.rx ++ [s.calls.length] }
  /-- `register_next` with nothing queued: the call waits. -/
  | wait {w : ℕ} {rx : List ℕ} (hrx : s.actor.rx = w :: rx) (hq : s.actor.msgQueue = []) :
      Live sha512 s .action { s with actor.rx := rx, actor.waiters := w :: s.actor.waiters }
  /-- `register_next` with events queued: the call takes the oldest. -/
  | take {w : ℕ} {rx : List ℕ} {e : RawEvent ι ε} {q : List (RawEvent ι ε)}
      (hrx : s.actor.rx = w :: rx) (hq : s.actor.msgQueue = q ++ [e]) :
      Live sha512 s .action ({ s with actor.rx := rx, actor.msgQueue := q }.send w e)
  /-- An event arrives and nobody waits: it is queued. -/
  | queue {event : Event ι} (hw : s.actor.waiters = []) :
      Live sha512 s (.stream (some (.ok event))) (World.recordHash sha512
        { s with actor.msgQueue := some (.ok event) :: s.actor.msgQueue
                 arrived := s.arrived ++ [some (Except.ok event)] })
  /-- An event arrives and calls wait: the oldest takes it. -/
  | answer {event : Event ι} {w : ℕ} {ws : List ℕ} (hw : s.actor.waiters = ws ++ [w])
      (hq : s.actor.msgQueue = []) :
      Live sha512 s (.stream (some (.ok event))) (World.recordHash sha512
        ({ s with actor.waiters := ws, arrived := s.arrived ++ [some (Except.ok event)] }.send w
          (some (.ok event))))
  /-- A caller returns its value. -/
  | poll {i : ℕ} {e : RawEvent ι ε} (hi : s.calls[i]? = some (.sent e)) :
      Live sha512 s (.poll i) { s with calls := s.calls.set i (.returned e) }
  /-- A caller is cancelled. -/
  | drop {i : ℕ} {c : Call ι ε} (hi : s.calls[i]? = some c) (hc : c = .waiting ∨ ∃ e, c = .sent e) :
      Live sha512 s (.drop i) { s with calls := s.calls.set i .dropped }

/-- A stream item that does not end the actor is an event, and is delivered. -/
theorem onStream_live {sha512 : Bytes → κ} {s : World ι ε κ} {raw : RawEvent ι ε}
    (h : (s.onStream sha512 raw).exited = false) :
    ∃ event, raw = some (.ok event) ∧
      s.onStream sha512 raw = ((s.enqueue raw).answer).recordHash sha512 := by
  match raw with
  | none => simp [World.onStream, sendNone_exited] at h
  | some (.error e) =>
    simp only [World.onStream] at h
    split at h <;> simp [sendNone_exited, World.send] at h
  | some (.ok event) =>
    refine ⟨event, rfl, ?_⟩
    simp only [World.onStream] at h ⊢
    split_ifs at h with hfull
    rw [if_neg hfull]

/-- **Inversion**: a step after which the actor still runs is one of `Live`. -/
theorem live_of_step {sha512 : Bytes → κ} {s t : World ι ε κ} {a : Label ι ε} (hs : s.OneEmpty)
    (h : step sha512 s a = some t) (ht : t.exited = false) : Live sha512 s a t := by
  cases a with
  | call => cases h; exact .call
  | action =>
    simp only [step] at h
    split at h
    · rename_i w rx _ hrx
      cases h
      rw [World.registerNext]
      split
      · rename_i e q hq
        exact .take hrx (popBack_eq_some.mp hq)
      · rename_i hq
        exact .wait hrx (popBack_eq_none.mp hq)
    · cases h
  | stream raw =>
    simp only [step] at h
    split_ifs at h
    cases h
    obtain ⟨event, rfl, he⟩ := onStream_live ht
    rw [he]
    rcases List.eq_nil_or_concat s.actor.waiters with hw | ⟨ws, w, hw⟩
    · have : (s.enqueue (some (.ok event))).answer = s.enqueue (some (.ok event)) := by
        simp [World.answer, World.enqueue, hw]
      rw [this]
      exact .queue hw
    · rw [List.concat_eq_append] at hw
      have hq : s.actor.msgQueue = [] := hs.resolve_right (by simp [hw])
      have hp : popBack [(some (.ok event) : RawEvent ι ε)] = some (some (.ok event), []) :=
        popBack_concat [] _
      have : (s.enqueue (some (.ok event))).answer =
          { s with actor.waiters := ws
                   arrived := s.arrived ++ [some (Except.ok event)] }.send w (some (.ok event)) := by
        simp [World.answer, World.enqueue, hw, hq, hp]
      rw [this]
      exact .answer hw hq
  | poll i =>
    simp only [step] at h
    split at h
    · rename_i e hi
      cases h
      exact .poll hi
    · cases h
  | drop i =>
    simp only [step] at h
    split at h
    · rename_i hi
      cases h
      exact .drop hi (Or.inl rfl)
    · rename_i e hi
      cases h
      exact .drop hi (Or.inr ⟨e, rfl⟩)
    · cases h

/-! ### The ledger -/

/-- The invariant of a running actor. -/
structure Inv (s : World ι ε κ) : Prop where
  /-- The oneshots. -/
  oneshots : CallsInv (s.actor.rx ++ s.actor.waiters) s.handed s.calls
  /-- Not both queues hold something. -/
  oneEmpty : s.OneEmpty
  /-- Every event that arrived was handed to a waiter or is queued, in order. -/
  ledger : s.arrived = s.handed.map Prod.snd ++ s.actor.msgQueue.reverse

theorem inv_init : Inv (World.init : World ι ε κ) :=
  ⟨⟨by simp [World.init], by simp [World.init], by simp [World.init], by simp [World.init]⟩,
    Or.inl rfl, rfl⟩

/-- A step after which the actor still runs keeps the ledger. -/
theorem inv_step {sha512 : Bytes → κ} {s t : World ι ε κ} {a : Label ι ε} (hs : Inv s)
    (h : step sha512 s a = some t) (ht : t.exited = false) : Inv t := by
  cases live_of_step hs.oneEmpty h ht with
  | call =>
    refine ⟨hs.oneshots.call.perm ?_, hs.oneEmpty, hs.ledger⟩
    rw [List.append_assoc]
    exact List.perm_middle.symm
  | @wait w rx hrx hq =>
    have ho := hs.oneshots
    rw [hrx] at ho
    exact ⟨ho.perm List.perm_middle.symm, Or.inl hq, hs.ledger⟩
  | @take w rx e q hrx hq =>
    have ho := hs.oneshots
    rw [hrx] at ho
    have hw : s.actor.waiters = [] := hs.oneEmpty.resolve_left (by simp [hq])
    refine ⟨ho.hand e, Or.inr hw, ?_⟩
    simp [World.send, hs.ledger, hq]
  | queue hw =>
    exact ⟨by simpa using hs.oneshots, Or.inr (by simpa using hw), by simp [hs.ledger]⟩
  | @answer event w ws hw hq =>
    have ho := hs.oneshots
    rw [hw, ← List.append_assoc] at ho
    have := (ho.perm (List.perm_append_singleton w _)).hand (some (.ok event))
    exact ⟨by simpa [World.send] using this, Or.inl (by simpa [World.send] using hq),
      by simp [World.send, hs.ledger, hq]⟩
  | poll hi => exact ⟨hs.oneshots.poll hi, hs.oneEmpty, hs.ledger⟩
  | drop => exact ⟨hs.oneshots.drop _, hs.oneEmpty, hs.ledger⟩

/-- With the ledger, everything was delivered exactly when no answered call was cancelled. -/
theorem delivered_iff_clean {s : World ι ε κ} (hs : Inv s) : s.Delivered ↔ Clean s.handed s.calls := by
  rw [World.Delivered, World.returned, Clean]
  rw [hs.ledger, List.append_cancel_right_eq]
  constructor
  · intro h p hp hd
    have hlen := congrArg List.length h
    rw [List.length_map, List.filterMap_length_eq_length] at hlen
    have := hlen p hp
    simp [hd, Call.value] at this
  · intro h
    have hv : ∀ p ∈ s.handed, (s.calls[p.1]?.bind Call.value) = (some ∘ Prod.snd) p := fun p hp =>
      (hs.oneshots.held p hp).resolve_right (h p hp)
    rw [List.filterMap_congr hv, List.filterMap_eq_map]

/-- Handing an event to a call keeps `Clean` exactly when the call was not cancelled. -/
theorem clean_hand {handed : List (ℕ × RawEvent ι ε)} {calls : List (Call ι ε)} (w : ℕ)
    (e : RawEvent ι ε) :
    Clean (handed ++ [(w, e)]) (deposit calls w e) ↔ Clean handed calls ∧ calls[w]? ≠ some .dropped := by
  simp only [Clean, List.forall_mem_append, List.forall_mem_singleton, ne_eq, deposit_dropped]

/-- A step keeps `Clean` exactly when it hands no event to a cancelled call. -/
theorem clean_step {sha512 : Bytes → κ} {s t : World ι ε κ} {a : Label ι ε} (hs : Inv s)
    (h : step sha512 s a = some t) (ht : t.exited = false) :
    Clean t.handed t.calls ↔ Clean s.handed s.calls ∧ HandsToLive s a := by
  have ho := hs.oneshots
  cases live_of_step hs.oneEmpty h ht with
  | call =>
    have hget : ∀ p ∈ s.handed, (s.calls ++ [Call.waiting])[p.1]? = s.calls[p.1]? := fun p hp =>
      List.getElem?_append_left (ho.handed_lt hp)
    simp only [HandsToLive, and_true]
    exact forall₂_congr fun p hp => by rw [hget p hp]
  | wait hrx hq => simp [HandsToLive, hrx, hq]
  | @take w rx e q hrx hq =>
    have hne : s.actor.msgQueue ≠ [] := by simp [hq]
    simp only [HandsToLive, hrx]
    rw [forall_prop_of_true hne]
    exact clean_hand w e
  | queue hw => simp [HandsToLive, hw]
  | @answer event w ws hw hq =>
    simp only [HandsToLive, hw, popBack_concat, recordHash_calls, recordHash_handed]
    exact clean_hand w _
  | @poll i e hi =>
    simp only [HandsToLive, and_true]
    refine forall₂_congr fun p _ => not_congr ?_
    rw [List.getElem?_set]
    split_ifs with hc hlt
    · simp [← hc, hi]
    · simp [← hc, hi]
    · exact Iff.rfl
  | @drop i c hi hc =>
    -- the cancelled call has its event exactly when it was answered
    have hans : (s.calls[i]?.bind Call.value) = none ↔ i ∉ s.handed.map Prod.fst := by
      constructor
      · intro hv hm
        obtain ⟨p, hp, rfl⟩ := List.mem_map.mp hm
        rcases ho.held p hp with he | hd
        · simp [hv] at he
        · rcases hc with rfl | ⟨e, rfl⟩ <;> simp [hi] at hd
      · intro hm
        by_contra hv
        obtain ⟨e, he⟩ := Option.ne_none_iff_exists'.mp hv
        exact hm (ho.valued i e he)
    have hlt := (List.getElem?_eq_some_iff.mp hi).1
    have hset : ∀ p ∈ s.handed, (s.calls.set i .dropped)[p.1]? ≠ some .dropped ↔
        s.calls[p.1]? ≠ some .dropped ∧ i ≠ p.1 := by
      intro p _
      by_cases hp : i = p.1
      · simp [← hp, hlt]
      · simp [List.getElem?_set_ne hp, hp]
    simp only [HandsToLive, hans]
    constructor
    · intro hcl
      refine ⟨fun p hp => ((hset p hp).mp (hcl p hp)).1, fun hm => ?_⟩
      obtain ⟨p, hp, he⟩ := List.mem_map.mp hm
      exact ((hset p hp).mp (hcl p hp)).2 he.symm
    · rintro ⟨hcl, hm⟩ p hp
      exact (hset p hp).mpr ⟨hcl p hp, fun he => hm (he ▸ List.mem_map_of_mem hp)⟩

/-- An actor that has ended stays ended. -/
theorem exited_step {sha512 : Bytes → κ} {s t : World ι ε κ} {a : Label ι ε}
    (h : step sha512 s a = some t) (ht : t.exited = false) : s.exited = false := by
  cases a with
  | call => cases h; exact ht
  | action =>
    simp only [step] at h
    split at h
    · assumption
    · cases h
  | stream raw =>
    simp only [step] at h
    split_ifs at h with hx
    simpa using hx
  | poll i =>
    simp only [step] at h
    split at h <;> cases h
    exact ht
  | drop i =>
    simp only [step] at h
    split at h <;> cases h <;> exact ht

/-- **What the receiver delivers**: in a run whose actor has not ended, the events returned followed
by those queued are exactly those that arrived, and the two queues are not both nonempty, if and
only if no step handed an event to a cancelled call or cancelled a call that had its event. -/
theorem delivered_iff (sha512 : Bytes → κ) (as : List (Label ι ε)) (s : World ι ε κ)
    (h : run (step sha512) World.init as = some s) (hx : s.exited = false) :
    (s.Delivered ∧ s.OneEmpty) ↔ Along (step sha512) HandsToLive World.init as := by
  obtain ⟨hs, hiff⟩ := run_iff_along (I := Inv) (C := fun s => Clean s.handed s.calls)
    (L := fun s => s.exited = false) (G := HandsToLive) (fun _ _ _ h ht => exited_step h ht)
    (fun _ _ _ hs h ht => inv_step hs h ht) (fun _ _ _ hs h ht => clean_step hs h ht) inv_init h hx
  rw [delivered_iff_clean hs, and_iff_left hs.oneEmpty, hiff]
  exact and_iff_right (by simp [Clean, World.init])

/-- The message with content `[n]`, delivered by neighbour `7`. -/
def message (n : UInt8) : RawEvent ℕ ℕ := some (.ok (.received [n] 7))

/-- A call is made, registered, answered and polled: the event is delivered. -/
theorem delivered_iff_answered :
    let s : World ℕ ℕ Bytes := ⟨⟨[], [], [], []⟩, false, [.returned (message 1)], [message 1],
      [(0, message 1)]⟩
    s.Delivered ∧ s.OneEmpty :=
  (delivered_iff id [.call, .action, .stream (message 1), .poll 0] _ (by decide) rfl).mpr
    ⟨trivial, fun _ h₁ => by
      cases h₁
      exact ⟨fun h => absurd rfl h, fun _ h₂ => by
        cases h₂
        exact ⟨nofun, fun _ h₃ => by cases h₃; exact ⟨trivial, fun _ _ => trivial⟩⟩⟩⟩

/-- A receive task that timed out once and asks again: the first event goes to the cancelled call
and is lost, the second to the call that waits. -/
theorem timeout_loses_event :
    let s : World ℕ ℕ Bytes := ⟨⟨[], [], [], []⟩, false, [.dropped, .returned (message 2)],
      [message 1, message 2], [(0, message 1), (1, message 2)]⟩
    run (step id) World.init [.call, .action, .drop 0, .call, .action, .stream (message 1),
      .stream (message 2), .poll 1] = some s ∧ s.exited = false ∧ ¬(s.Delivered ∧ s.OneEmpty) :=
  ⟨by decide, rfl, fun h => absurd h.1 (by decide)⟩

end PodpingAlpha.Dtt.GossipReceiver
