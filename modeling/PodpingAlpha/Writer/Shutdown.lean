import PodpingAlpha.Library.Transition
import PodpingAlpha.Writer.Broadcast
import PodpingAlpha.Writer.PayloadSize

/-!
# Shutting down

The three tasks of `gossip-writer/src/main.rs` that take part in a clean shutdown. The ZMQ thread
collects pings, flushes them into the channel every three seconds and once more when it sees the flag,
and replies to the front-end. The broadcast task takes payloads from the channel, and stops at the
first one it takes after the flag is set. The main task sets the flag and waits for the ZMQ thread
only.

## The model

A step is what one of them does between two accesses to the flag or to the channel. What a flush hands
to the channel is what `flushGroups` makes of the pending pings; here the channel answers for itself.
The tasks that announce and endorse peers put payloads of their own into the channel.

## What is proved

* `acknowledged_passed` — after a clean shutdown every ping replied to was passed to
  `sender.broadcast`, in every run in which no reply is sent for a ping with a notification that the
  channel refused, the broadcast task takes no notification after the flag, and none is on its way when
  the process ends.
* `shutdown_drops_acknowledged` — a ping that is flushed after the flag is replied to and dropped.
-/

namespace PodpingAlpha.Writer

open Transition

/-! ### The tasks -/

/-- What is in the channel. -/
inductive Payload where
  /-- From a flush. -/
  | notification (n : Send)
  /-- From another task. -/
  | other (bytes : Bytes)

/-- What became of the notifications of a batch. -/
structure Batch where
  /-- The channel took them. -/
  accepted : List Send
  /-- The channel was full, or closed. -/
  refused : List Send
  /-- `broadcast_ok`. -/
  broadcastOk : Bool

/-- Where the ZMQ thread is. -/
inductive Zmq where
  /-- At the check of the flag. -/
  | head
  /-- In `pull_socket.recv`. -/
  | receiving
  /-- At the check of the timer. -/
  | timer
  /-- In `flush_batch`, with these left to send. The last flush is the one after the flag. -/
  | sending (last : Bool) (rest : List Send) (batch : Batch)
  /-- In `flush_batch`, with these left to reply to. -/
  | replying (last : Bool) (rest : List PendingPing) (batch : Batch)
  | exited

/-- Where the broadcast task is. -/
inductive Broadcaster where
  /-- At the `select!`. -/
  | selecting
  /-- Before the check of the flag. -/
  | taken (p : Payload)
  /-- After it. -/
  | checked (p : Payload)
  /-- In `sender.broadcast`. -/
  | calling (p : Payload)
  | exited

/-- Where the main task is. -/
inductive Main where
  /-- Before Ctrl+C. -/
  | running
  /-- In `zmq_handle.await`. -/
  | waiting
  /-- In `endpoint.close().await`. -/
  | closing
  /-- After "Clean shutdown complete". -/
  | ended
  /-- After the deadline. -/
  | forced
  deriving DecidableEq

/-- The process. -/
structure Process where
  /-- The flag. -/
  shutdown : Bool
  main : Main
  zmq : Zmq
  /-- `pending`. -/
  pending : List PendingPing
  /-- `last_flush`, in milliseconds. -/
  lastFlush : ℕ
  /-- `seq_counter`. -/
  seqCounter : UInt64
  /-- The channel, its front first. -/
  channel : List Payload
  broadcaster : Broadcaster
  /-- The variables and the record of the broadcast task. -/
  task : Task Payload
  /-- The pings for which a reply was sent. -/
  replied : List PendingPing

/-- The capacity of the channel. -/
def channelCapacity : ℕ := 1000

/-- `BATCH_INTERVAL_SECS`, in milliseconds. -/
def batchInterval : ℕ := 3000

/-- What a task does next. -/
inductive ProcessLabel where
  /-- The ZMQ thread reads the flag. -/
  | check (env : Env)
  /-- It receives a ping, or nothing. -/
  | received (ping : Option PendingPing)
  /-- It reads the clock. -/
  | timed (now : ℕ) (env : Env)
  /-- It hands a notification to the channel. -/
  | send
  /-- It has handed over all of them. -/
  | sent
  /-- It sends a reply, which may fail. -/
  | reply (ok : Bool)
  /-- It has sent all of them. -/
  | flushed (now : ℕ)
  /-- Another task puts a payload into the channel. -/
  | queue (bytes : Bytes)
  /-- The broadcast task is notified. -/
  | notified (requested forced : Bool) (a : Attempt)
  /-- It takes a payload. -/
  | take
  /-- It reads the flag. -/
  | load
  /-- It calls `sender.broadcast`. -/
  | call
  /-- The call returns. -/
  | result (outcome : Delivery) (a : Attempt)
  /-- Ctrl+C. -/
  | signal
  /-- The main task has seen the ZMQ thread exit. -/
  | joined
  /-- The endpoint is closed. -/
  | closed
  /-- The deadline has passed. -/
  | deadline

namespace Process

/-- The process when it starts. -/
def init (now : ℕ) : Process where
  shutdown := false
  main := .running
  zmq := .head
  pending := []
  lastFlush := now
  seqCounter := 1
  channel := []
  broadcaster := .selecting
  task := .init now
  replied := []

/-! ### Steps -/

/-- `flush_batch` begins. -/
def startFlush (s : Process) (env : Env) (last : Bool) : Process :=
  let flush := flushGroups env s.seqCounter s.pending
  { s with
    seqCounter := flush.seqCounter
    zmq := .sending last flush.sends { accepted := [], refused := [], broadcastOk := false } }

/-- What the channel answers to `tx.try_send`. -/
def trySend (s : Process) : TrySend :=
  match s.broadcaster with
  | .exited => .closed
  | _ => if s.channel.length < channelCapacity then .ok else .full

/-- The notification is handed to the channel. -/
def sendNext (s : Process) (last : Bool) (n : Send) (rest : List Send) (batch : Batch) : Process :=
  match s.trySend with
  | .ok =>
    { s with
      channel := s.channel ++ [.notification n]
      zmq := .sending last rest
        { batch with accepted := batch.accepted ++ [n], broadcastOk := true } }
  | .full =>
    { s with
      zmq := .sending last rest { batch with refused := batch.refused ++ [n], broadcastOk := true } }
  | .closed => { s with zmq := .sending last rest { batch with refused := batch.refused ++ [n] } }

/-- A step of the ZMQ thread. -/
def zmqStep (s : Process) : ProcessLabel → Option Process
  | .check env =>
    match s.zmq with
    | .head =>
      if s.shutdown then
        if s.pending.isEmpty then some { s with zmq := .exited } else some (s.startFlush env true)
      else some { s with zmq := .receiving }
    | _ => none
  | .received ping =>
    match s.zmq with
    | .receiving => some { s with pending := s.pending ++ ping.toList, zmq := .timer }
    | _ => none
  | .timed now env =>
    match s.zmq with
    | .timer =>
      if batchInterval ≤ now - s.lastFlush ∧ !s.pending.isEmpty then some (s.startFlush env false)
      else some { s with zmq := .head }
    | _ => none
  | .send =>
    match s.zmq with
    | .sending last (n :: rest) batch => some (s.sendNext last n rest batch)
    | _ => none
  | .sent =>
    match s.zmq with
    | .sending last [] batch =>
      some { s with zmq := .replying last (if batch.broadcastOk then s.pending else []) batch }
    | _ => none
  | .reply ok =>
    match s.zmq with
    | .replying last (p :: rest) batch =>
      some { s with
        replied := if ok then s.replied ++ [p] else s.replied
        zmq := .replying last rest batch }
    | _ => none
  | .flushed now =>
    match s.zmq with
    | .replying true [] _ => some { s with pending := [], zmq := .exited }
    | .replying false [] _ => some { s with pending := [], lastFlush := now, zmq := .head }
    | _ => none
  | _ => none

/-- A step of the broadcast task. -/
def broadcastStep (s : Process) : ProcessLabel → Option Process
  | .notified requested forced a =>
    match s.broadcaster with
    | .selecting => some { s with task := s.task.step (.notified requested forced a) }
    | _ => none
  | .take =>
    match s.broadcaster, s.channel with
    | .selecting, p :: channel => some { s with broadcaster := .taken p, channel := channel }
    | _, _ => none
  | .load =>
    match s.broadcaster with
    -- the payload taken is dropped, and so is what is left in the channel
    | .taken p => some { s with broadcaster := if s.shutdown then .exited else .checked p }
    | _ => none
  | .call =>
    match s.broadcaster with
    | .checked p => some { s with broadcaster := .calling p }
    | _ => none
  | .result outcome a =>
    match s.broadcaster with
    | .calling p =>
      some { s with broadcaster := .selecting, task := s.task.step (.payload p outcome a) }
    | _ => none
  | _ => none

/-- A step of the main task, or of another one. -/
def mainStep (s : Process) : ProcessLabel → Option Process
  | .queue bytes =>
    if s.trySend = .ok then some { s with channel := s.channel ++ [.other bytes] } else none
  | .signal => if s.main = .running then some { s with shutdown := true, main := .waiting } else none
  | .joined =>
    match s.main, s.zmq with
    | .waiting, .exited => some { s with main := .closing }
    | _, _ => none
  | .closed => if s.main = .closing then some { s with main := .ended } else none
  | .deadline =>
    if s.main = .waiting ∨ s.main = .closing then some { s with main := .forced } else none
  | _ => none

/-- A step of the process, until it ends. -/
def step (s : Process) (a : ProcessLabel) : Option Process :=
  if s.main = .ended ∨ s.main = .forced then none
  else (s.zmqStep a).or ((s.broadcastStep a).or (s.mainStep a))

/-! ### The property and the condition -/

/-- The payloads passed to `sender.broadcast`. -/
def passed (s : Process) : List Payload :=
  s.task.broadcasts.map Prod.fst ++
    match s.broadcaster with
    | .calling p => [p]
    | _ => []

/-- The payload that the broadcast task took and has not passed on. -/
def held (s : Process) : List Payload :=
  match s.broadcaster with
  | .taken p | .checked p => [p]
  | _ => []

/-- After a clean shutdown, a ping replied to is in a notification that was passed to
`sender.broadcast`. -/
def Acknowledged (s : Process) : Prop :=
  s.main = .ended → ∀ p ∈ s.replied, ∃ n, .notification n ∈ s.passed ∧ n.Holds p

/-- No reply is sent for a ping with a notification that the channel refused; the broadcast task takes
no notification after the flag; and none is on its way when the process ends. -/
def Kept (s : Process) : ProcessLabel → Prop
  | .reply true =>
    match s.zmq with
    | .replying _ (p :: _) batch => ∀ n ∈ batch.refused, ¬n.Holds p
    | _ => True
  | .load =>
    match s.broadcaster with
    | .taken (.notification _) => s.shutdown = false
    | _ => True
  | .closed => ∀ n, .notification n ∉ s.held ++ s.channel
  | _ => True

/-! ### What the steps leave alone -/

/-- The notification was passed on, or is on its way. -/
def Has (s : Process) (n : Send) : Prop := .notification n ∈ s.passed ++ (s.held ++ s.channel)

theorem has_iff {s : Process} {n : Send} : s.Has n ↔
    .notification n ∈ s.passed ∨ .notification n ∈ s.held ∨ .notification n ∈ s.channel := by
  rw [Has, List.mem_append, List.mem_append]

/-- The broadcast task loses no notification, where it takes none after the flag. -/
theorem has_broadcastStep {s t : Process} {a : ProcessLabel} (h : s.broadcastStep a = some t)
    (hG : Kept s a) {n : Send} (hn : s.Has n) : t.Has n := by
  rw [has_iff] at hn ⊢
  cases a with
  | notified requested forced a =>
    simp only [broadcastStep] at h
    split at h
    · cases h
      have hpassed : passed { s with task := s.task.step (.notified requested forced a) } = s.passed := by
        rw [passed, Task.broadcasts_notified]
        rfl
      rw [hpassed]
      exact hn
    · cases h
  | take =>
    simp only [broadcastStep] at h
    split at h
    · rename_i p channel hb hchannel
      cases h
      simp only [passed, held, hb, hchannel, List.mem_cons, List.not_mem_nil, false_or, or_false] at hn ⊢
      exact hn
    · cases h
  | load =>
    simp only [broadcastStep] at h
    split at h
    · rename_i p hb
      cases h
      by_cases hs : s.shutdown
      · -- the payload is dropped, and is no notification
        cases p with
        | notification m =>
          simp only [Kept, hb, hs] at hG
          cases hG
        | other bytes =>
          simp only [passed, held, hb, hs, if_true, List.mem_singleton] at hn ⊢
          simpa using hn
      · simp only [passed, held, hb, if_neg hs] at hn ⊢
        exact hn
    · cases h
  | call =>
    simp only [broadcastStep] at h
    split at h
    · rename_i p hb
      cases h
      simp only [passed, held, hb, List.mem_append, List.not_mem_nil, or_false, false_or] at hn ⊢
      rcases hn with hn | hn | hn
      · exact .inl (.inl hn)
      · exact .inl (.inr hn)
      · exact .inr hn
    · cases h
  | result outcome a =>
    simp only [broadcastStep] at h
    split at h
    · rename_i p hb
      cases h
      have hsub := List.map_subset Prod.fst (Task.broadcasts_payload s.task p outcome a)
      rw [List.map_append] at hsub
      simp only [passed, held, hb, List.append_nil, List.not_mem_nil, false_or] at hn ⊢
      rcases hn with hn | hn
      · exact .inl (hsub hn)
      · exact .inr hn
    · cases h
  | _ => cases h

/-- It does not meddle with the ZMQ thread. -/
theorem frame_broadcastStep {s t : Process} {a : ProcessLabel} (h : s.broadcastStep a = some t) :
    t.zmq = s.zmq ∧ t.pending = s.pending ∧ t.replied = s.replied ∧ t.main = s.main := by
  cases a <;> simp only [broadcastStep, reduceCtorEq] at h <;> split at h <;> cases h <;>
    exact ⟨rfl, rfl, rfl, rfl⟩

/-- What a task adds to the channel loses nothing. -/
theorem Has.of_channel {s t : Process} {n : Send} (h : s.Has n) (hb : t.broadcaster = s.broadcaster)
    (ht : t.task = s.task) (hc : s.channel ⊆ t.channel) : t.Has n := by
  rw [has_iff] at h ⊢
  rw [passed, held, ht, hb]
  exact h.imp_right (Or.imp_right fun hn => hc hn)

/-- The main task ends the process when no notification is on its way, and loses none before. -/
theorem frame_mainStep {s t : Process} {a : ProcessLabel} (h : s.mainStep a = some t)
    (hG : Kept s a) (hmain : s.main ≠ .ended) :
    t.zmq = s.zmq ∧ t.pending = s.pending ∧ t.replied = s.replied ∧ (∀ n, s.Has n → t.Has n) ∧
      (t.main = .ended → ∀ n, .notification n ∉ t.held ++ t.channel) := by
  cases a with
  | queue bytes =>
    simp only [mainStep] at h
    split at h
    · cases h
      exact ⟨rfl, rfl, rfl, fun n hn => hn.of_channel rfl rfl (List.subset_append_left _ _),
        fun hend => absurd hend hmain⟩
    · cases h
  | signal =>
    simp only [mainStep] at h
    split at h
    · cases h
      exact ⟨rfl, rfl, rfl, fun n hn => hn, nofun⟩
    · cases h
  | joined =>
    simp only [mainStep] at h
    split at h
    · cases h
      exact ⟨rfl, rfl, rfl, fun n hn => hn, nofun⟩
    · cases h
  | closed =>
    simp only [mainStep] at h
    split at h
    · cases h
      exact ⟨rfl, rfl, rfl, fun n hn => hn, fun _ => hG⟩
    · cases h
  | deadline =>
    simp only [mainStep] at h
    split at h
    · cases h
      exact ⟨rfl, rfl, rfl, fun n hn => hn, nofun⟩
    · cases h
  | _ => cases h

/-! ### The ZMQ thread -/

/-- The notifications of a batch that the channel took are there; a ping of the batch is in one that was
handed over, or is left to send; and a ping left to reply to is in one that was handed over. -/
def Accounts (s : Process) : Prop :=
  match s.zmq with
  | .sending _ rest batch =>
    (∀ n ∈ batch.accepted, s.Has n) ∧
      ∀ p ∈ s.pending, ∃ n, (n ∈ batch.accepted ∨ n ∈ batch.refused ∨ n ∈ rest) ∧ n.Holds p
  | .replying _ rest batch =>
    (∀ n ∈ batch.accepted, s.Has n) ∧
      ∀ p ∈ rest, ∃ n, (n ∈ batch.accepted ∨ n ∈ batch.refused) ∧ n.Holds p
  | _ => True

theorem Accounts.of_frame {s t : Process} (hs : s.Accounts) (hzmq : t.zmq = s.zmq)
    (hpending : t.pending = s.pending) (hhas : ∀ n, s.Has n → t.Has n) : t.Accounts := by
  unfold Accounts at *
  rw [hzmq, hpending]
  cases hz : s.zmq with
  | sending last rest batch =>
    rw [hz] at hs
    exact ⟨fun n hn => hhas n (hs.1 n hn), hs.2⟩
  | replying last rest batch =>
    rw [hz] at hs
    exact ⟨fun n hn => hhas n (hs.1 n hn), hs.2⟩
  | _ => trivial

/-- A flush begins with a notification for each pending ping. -/
theorem accounts_startFlush (s : Process) (env : Env) (last : Bool) : (s.startFlush env last).Accounts := by
  refine ⟨nofun, fun p hp => ?_⟩
  obtain ⟨n, hn, hholds⟩ := mem_flushGroups_sends env s.seqCounter hp
  exact ⟨n, .inr (.inr hn), hholds⟩

/-- What a step of the ZMQ thread does. -/
inductive ZmqMove (s : Process) : ProcessLabel → Process → Prop where
  /-- It is in no flush afterwards. -/
  | idle (a : ProcessLabel) {zmq : Zmq} (hzmq : zmq = .head ∨ zmq = .receiving ∨ zmq = .timer ∨ zmq = .exited)
      (pending : List PendingPing) (lastFlush : ℕ) :
      ZmqMove s a { s with zmq := zmq, pending := pending, lastFlush := lastFlush }
  | flush (a : ProcessLabel) (env : Env) (last : Bool) : ZmqMove s a (s.startFlush env last)
  | accepted {last : Bool} {n : Send} {rest : List Send} {batch : Batch}
      (hz : s.zmq = .sending last (n :: rest) batch) :
      ZmqMove s .send
        { s with
          channel := s.channel ++ [.notification n]
          zmq := .sending last rest
            { batch with accepted := batch.accepted ++ [n], broadcastOk := true } }
  | refused {last : Bool} {n : Send} {rest : List Send} {batch : Batch}
      (hz : s.zmq = .sending last (n :: rest) batch) (ok : Bool) :
      ZmqMove s .send
        { s with
          zmq := .sending last rest { batch with refused := batch.refused ++ [n], broadcastOk := ok } }
  | sent {last : Bool} {batch : Batch} {pings : List PendingPing} (hz : s.zmq = .sending last [] batch)
      (hpings : pings ⊆ s.pending) : ZmqMove s .sent { s with zmq := .replying last pings batch }
  | replied {last : Bool} {p : PendingPing} {rest : List PendingPing} {batch : Batch}
      (hz : s.zmq = .replying last (p :: rest) batch) :
      ZmqMove s (.reply true) { s with replied := s.replied ++ [p], zmq := .replying last rest batch }
  | unreplied {last : Bool} {p : PendingPing} {rest : List PendingPing} {batch : Batch}
      (hz : s.zmq = .replying last (p :: rest) batch) :
      ZmqMove s (.reply false) { s with zmq := .replying last rest batch }

theorem zmqMove_of_step {s t : Process} {a : ProcessLabel} (h : s.zmqStep a = some t) :
    ZmqMove s a t := by
  cases a with
  | check env =>
    simp only [zmqStep] at h
    split at h
    · split_ifs at h <;> cases h
      · exact .idle _ (by simp) _ _
      · exact .flush _ env true
      · exact .idle _ (by simp) _ _
    · cases h
  | received ping =>
    simp only [zmqStep] at h
    split at h <;> cases h
    exact .idle _ (by simp) _ _
  | timed now env =>
    simp only [zmqStep] at h
    split at h
    · split_ifs at h <;> cases h
      · exact .flush _ env false
      · exact .idle _ (by simp) _ _
    · cases h
  | send =>
    simp only [zmqStep] at h
    split at h
    · rename_i hz
      simp only [sendNext] at h
      split at h <;> cases h
      · exact .accepted hz
      · exact .refused hz true
      · exact .refused hz _
    · cases h
  | sent =>
    simp only [zmqStep] at h
    split at h
    · rename_i hz
      cases h
      refine .sent hz ?_
      split_ifs
      · exact List.Subset.refl _
      · exact List.nil_subset _
    · cases h
  | reply ok =>
    simp only [zmqStep] at h
    split at h
    · rename_i hz
      cases h
      cases ok with
      | true => exact .replied hz
      | false => exact .unreplied hz
    · cases h
  | flushed now =>
    simp only [zmqStep] at h
    split at h <;> cases h <;> exact .idle _ (by simp) _ _
  | _ => cases h

/-- The ZMQ thread does not meddle with the broadcast task. -/
theorem frame_zmqStep {s t : Process} {a : ProcessLabel} (h : s.zmqStep a = some t) :
    t.broadcaster = s.broadcaster ∧ t.task = s.task ∧ t.main = s.main ∧ s.channel ⊆ t.channel := by
  cases zmqMove_of_step h with
  | accepted => exact ⟨rfl, rfl, rfl, List.subset_append_left _ _⟩
  | _ => exact ⟨rfl, rfl, rfl, List.Subset.refl _⟩

/-- A step of the ZMQ thread keeps the accounts. -/
theorem accounts_zmqStep {s t : Process} {a : ProcessLabel} (h : s.zmqStep a = some t)
    (hs : s.Accounts) : t.Accounts := by
  cases zmqMove_of_step h with
  | idle _ hzmq => rcases hzmq with rfl | rfl | rfl | rfl <;> trivial
  | flush _ env last => exact accounts_startFlush s env last
  | @accepted last n rest batch hz =>
    simp only [Accounts, hz] at hs
    obtain ⟨haccepted, hpings⟩ := hs
    refine ⟨fun m hm => ?_, fun p hp => ?_⟩
    · rcases List.mem_append.1 hm with hm | hm
      · exact (haccepted m hm).of_channel rfl rfl (List.subset_append_left _ _)
      · obtain rfl := List.mem_singleton.1 hm
        rw [has_iff]
        exact .inr (.inr (List.mem_append_right _ (List.mem_singleton.2 rfl)))
    · obtain ⟨m, hm, hholds⟩ := hpings p hp
      simp only [List.mem_append, List.mem_cons] at hm ⊢
      exact ⟨m, by tauto, hholds⟩
  | @refused last n rest batch hz ok =>
    simp only [Accounts, hz] at hs
    obtain ⟨haccepted, hpings⟩ := hs
    refine ⟨haccepted, fun p hp => ?_⟩
    obtain ⟨m, hm, hholds⟩ := hpings p hp
    simp only [List.mem_append, List.mem_cons] at hm ⊢
    exact ⟨m, by tauto, hholds⟩
  | sent hz hpings =>
    simp only [Accounts, hz] at hs
    obtain ⟨haccepted, hall⟩ := hs
    refine ⟨haccepted, fun p hp => ?_⟩
    obtain ⟨n, hn, hholds⟩ := hall p (hpings hp)
    exact ⟨n, by simpa only [List.not_mem_nil, or_false] using hn, hholds⟩
  | replied hz | unreplied hz =>
    simp only [Accounts, hz] at hs
    obtain ⟨haccepted, hall⟩ := hs
    exact ⟨haccepted, fun q hq => hall q (List.mem_cons_of_mem _ hq)⟩

/-- A reply is sent for a ping that is in a notification passed on or on its way. -/
theorem replied_zmqStep {s t : Process} {a : ProcessLabel} (h : s.zmqStep a = some t)
    (hs : s.Accounts) (hG : Kept s a) {p : PendingPing} (hp : p ∈ t.replied) :
    p ∈ s.replied ∨ ∃ n, s.Has n ∧ n.Holds p := by
  cases zmqMove_of_step h with
  | @replied last q rest batch hz =>
    rcases List.mem_append.1 hp with hp | hp
    · exact .inl hp
    · obtain rfl := List.mem_singleton.1 hp
      simp only [Accounts, hz] at hs
      simp only [Kept, hz] at hG
      obtain ⟨haccepted, hall⟩ := hs
      obtain ⟨n, hn, hholds⟩ := hall p List.mem_cons_self
      exact .inr ⟨n, haccepted n (hn.resolve_right fun hr => hG n hr hholds), hholds⟩
  | _ => exact .inl hp

/-! ### Runs -/

/-- What holds at every point of a run whose steps meet the condition. -/
structure Safe (s : Process) : Prop where
  /-- A ping replied to is in a notification passed on or on its way. -/
  replied : ∀ p ∈ s.replied, ∃ n, s.Has n ∧ n.Holds p
  accounts : s.Accounts
  /-- When the process has ended, none is on its way. -/
  ended : s.main = .ended → ∀ n, .notification n ∉ s.held ++ s.channel

theorem safe_init (now : ℕ) : (init now).Safe := ⟨nofun, trivial, nofun⟩

theorem Safe.step {s t : Process} {a : ProcessLabel} (hs : s.Safe) (hG : Kept s a)
    (h : s.step a = some t) : t.Safe := by
  simp only [Process.step] at h
  split at h
  · cases h
  rename_i hmain
  have hend : s.main ≠ .ended := fun hend => hmain (.inl hend)
  rcases Option.or_eq_some_iff.1 h with h | ⟨-, h⟩
  · obtain ⟨hb, ht, hm, hc⟩ := frame_zmqStep h
    refine ⟨fun p hp => ?_, accounts_zmqStep h hs.accounts, fun hend' => absurd (hm ▸ hend') hend⟩
    have hwas : ∃ n, s.Has n ∧ n.Holds p := by
      rcases replied_zmqStep h hs.accounts hG hp with hp | hn
      · exact hs.replied p hp
      · exact hn
    obtain ⟨n, hn, hholds⟩ := hwas
    exact ⟨n, hn.of_channel hb ht hc, hholds⟩
  rcases Option.or_eq_some_iff.1 h with h | ⟨-, h⟩
  · obtain ⟨hz, hp, hr, hm⟩ := frame_broadcastStep h
    have hhas : ∀ n, s.Has n → t.Has n := fun n => has_broadcastStep h hG
    refine ⟨fun p hp => ?_, hs.accounts.of_frame hz hp hhas, fun hend' => absurd (hm ▸ hend') hend⟩
    obtain ⟨n, hn, hholds⟩ := hs.replied p (hr ▸ hp)
    exact ⟨n, hhas n hn, hholds⟩
  · obtain ⟨hz, hp, hr, hhas, hends⟩ := frame_mainStep h hG hend
    refine ⟨fun p hp => ?_, hs.accounts.of_frame hz hp hhas, hends⟩
    obtain ⟨n, hn, hholds⟩ := hs.replied p (hr ▸ hp)
    exact ⟨n, hhas n hn, hholds⟩

/-- **Clean shutdown**: when the process has ended, each ping for which a reply was sent is in a
notification that was passed to `sender.broadcast`, in every run in which no reply is sent for a ping
with a notification that the channel refused, the broadcast task takes no notification after the flag,
and none is on its way at the end. -/
theorem acknowledged_passed (now : ℕ) (labels : List ProcessLabel) (s : Process)
    (hG : Along step Kept (init now) labels) (h : run step (init now) labels = some s) :
    s.Acknowledged := by
  have hs : s.Safe := inv_run_along (fun _ _ _ hI hG h => hI.step hG h) (safe_init now) hG h
  intro hend p hp
  obtain ⟨n, hn, hholds⟩ := hs.replied p hp
  rcases List.mem_append.1 hn with hn | hn
  · exact ⟨n, hn, hholds⟩
  · exact absurd hn (hs.ended hend n)

/-! ### A ping flushed after the flag -/

/-- A flush of one ping begins with one notification. -/
theorem startFlush_singleton (s : Process) (env : Env) (last : Bool) {p : PendingPing}
    (h : s.pending = [p]) : ∃ seqCounter n, s.startFlush env last =
      { s with
        seqCounter := seqCounter
        zmq := .sending last [n] { accepted := [], refused := [], broadcastOk := false } } := by
  obtain ⟨n, hn, -⟩ := sends_singleton env s.seqCounter p
  rw [← h] at hn
  exact ⟨_, n, by rw [startFlush, hn]⟩

/-- A ping comes in before the flag is set. The ZMQ thread sees the flag, flushes it and replies; the
broadcast task takes the notification, sees the flag and exits. -/
def lateFlush (env : Env) (p : PendingPing) : List ProcessLabel :=
  [.check env, .received (some p), .timed 0 env, .signal, .check env, .send, .sent, .reply true,
    .flushed 0, .take, .load, .joined, .closed]

theorem run_lateFlush (env : Env) (p : PendingPing) :
    ∃ s, run step (init 0) (lateFlush env p) = some s ∧ s.main = .ended ∧ s.replied = [p] ∧
      s.passed = [] := by
  obtain ⟨seqCounter, n, hflush⟩ := startFlush_singleton
    { init 0 with shutdown := true, main := .waiting, pending := [p] } env true rfl
  have hstart : run step (init 0) (lateFlush env p) =
      run step (startFlush { init 0 with shutdown := true, main := .waiting, pending := [p] } env true)
        [.send, .sent, .reply true, .flushed 0, .take, .load, .joined, .closed] := rfl
  rw [hstart, hflush]
  exact ⟨_, rfl, rfl, rfl, rfl⟩

/-- A feed. -/
def feed : PendingPing := ⟨"http://a", 1, 0⟩

/-- The feed is replied to and dropped, though no broadcast fails. -/
theorem shutdown_drops_acknowledged :
    ∃ s, run step (init 0) (lateFlush plainEnv feed) = some s ∧
      (∀ outcome a, .result outcome a ∈ lateFlush plainEnv feed → outcome = .ok) ∧ s.main = .ended ∧
      s.replied = [feed] ∧ s.passed = [] ∧ ¬s.Acknowledged := by
  obtain ⟨s, hrun, hend, hreplied, hpassed⟩ := run_lateFlush plainEnv feed
  refine ⟨s, hrun, by simp [lateFlush], hend, hreplied, hpassed, fun hack => ?_⟩
  obtain ⟨m, hm, -⟩ := hack hend feed (by simp [hreplied])
  rw [hpassed] at hm
  cases hm

/-- The ping is flushed, taken and broadcast before the flag is set. -/
def timelyFlush (env : Env) (p : PendingPing) : List ProcessLabel :=
  [.check env, .received (some p), .timed 3000 env, .send, .sent, .reply true, .flushed 3000, .take,
    .load, .call, .result .ok (Task.goodAttempt 0), .signal, .check env, .joined, .closed]

theorem run_timelyFlush (env : Env) (p : PendingPing) :
    (∃ s, run step (init 0) (timelyFlush env p) = some s ∧ s.main = .ended ∧ s.replied = [p]) ∧
      Along step Kept (init 0) (timelyFlush env p) := by
  obtain ⟨seqCounter, n, hflush⟩ :=
    startFlush_singleton { init 0 with pending := [p], zmq := .timer } env false rfl
  have hsplit : timelyFlush env p = [.check env, .received (some p), .timed 3000 env] ++
      [.send, .sent, .reply true, .flushed 3000, .take, .load, .call,
        .result .ok (Task.goodAttempt 0), .signal, .check env, .joined, .closed] := rfl
  have hbefore : run step (init 0) [.check env, .received (some p), .timed 3000 env] =
      some (startFlush { init 0 with pending := [p], zmq := .timer } env false) := rfl
  rw [hflush] at hbefore
  rw [hsplit, run_append, hbefore, along_append hbefore]
  refine ⟨⟨_, rfl, rfl, rfl⟩, ?_, ?_⟩
  · repeat' refine (along_cons rfl).2 ⟨?_, ?_⟩
    all_goals trivial
  · -- the channel refuses nothing, and the flag is set after the payload is passed on
    repeat' refine (along_cons rfl).2 ⟨?_, ?_⟩
    all_goals first | trivial | nofun

theorem timelyFlush_acknowledged :
    ∃ s, run step (init 0) (timelyFlush plainEnv feed) = some s ∧ s.main = .ended ∧
      s.replied = [feed] ∧ s.Acknowledged := by
  obtain ⟨⟨s, hrun, hend, hreplied⟩, hG⟩ := run_timelyFlush plainEnv feed
  exact ⟨s, hrun, hend, hreplied, acknowledged_passed 0 _ s hG hrun⟩

end Process

end PodpingAlpha.Writer
