import PodpingAlpha.Library.Transition
import PodpingAlpha.FrontEnd.Queue

/-!
# The front-end as a transition system

`podping/src/main.rs`: the HTTP handlers, which add pings to the queue, and the queue checker
thread, which fetches batches of them, sends them to the writers, marks what it sent as in flight
and deletes what a writer reports back, all on one SQLite file.

## The model

A step is one SQL statement, one socket operation, the arrival of a request or the passing of a
second; a list of labels is one interleaving. A handler is its ping and the statement it is at. The
thread is the list of operations it has yet to do in this iteration of its loop (`Task`). Whatever
the environment decides is in the label: whether a statement runs, whether a send succeeds, which
message of a writer is there. A writer reports on pings it was sent, in any order, at any time, any
number of times. A message that does not decode ends the process and so is none here.

The `log` is no part of the program: it records what was written to the queue and sent to the
writers, newest first, so that the statements about runs can speak about it. Beside each ping of a
batch stands which write of its row was read, counted in the log.
-/

namespace PodpingAlpha.FrontEnd

open Transition

/-! ### States -/

/-- A writer, by its socket. -/
inductive Writer where
  | hive
  | gossip
  deriving DecidableEq

/-- A message of a writer. -/
inductive Reply where
  /-- A `PodpingWriteError` with the iri of its ping, if it has one. -/
  | podpingWriteError (iri : Option String)
  /-- A `PodpingHiveTransaction` with its block number and, if it has podpings, their iris. -/
  | podpingHiveTransaction (hiveBlockNum : ℕ) (podpings : Option (List (List String)))
  deriving DecidableEq

/-- What happened so far to the queue and on the sockets. -/
inductive Event where
  /-- A handler's statement gave the row of `ping.url` the content of `ping`. -/
  | wrote (ping : Ping)
  /-- A message went to a writer, as read from the `version`-th write of its row. -/
  | sent (writer : Writer) (ping : Ping) (version : ℕ)
  deriving DecidableEq

/-- An operation of the queue checker thread. -/
inductive Task where
  /-- `receive_messages` on a socket; on the gossip socket for as long as it returns `true`. -/
  | receive (writer : Writer)
  /-- `delete_ping_from_queue` for an iri of a message; `written` if it was a transaction. -/
  | remove (url : String) (written : Bool)
  /-- `get_pings_from_queue(false)`. -/
  | fetch
  /-- The sends of one ping of the batch. -/
  | send (ping : Ping) (version : ℕ)
  /-- What follows a send: `set_ping_as_inflight`, or the deletion in ephemeral mode. -/
  | settle (ping : Ping)
  /-- The end of the iteration: `reset_pings_in_flight`. -/
  | reset
  deriving DecidableEq

/-- Where a handler is in `add_ping_to_queue`. -/
inductive Stage where
  /-- Before the `INSERT`. -/
  | inserting
  /-- After a failed `INSERT`, before the `UPDATE`. -/
  | updating
  /-- It has answered `Success!`. -/
  | answered
  deriving DecidableEq

/-- A request that passed the checks of `handler::ping`. -/
structure Handler where
  /-- The ping it asks for. -/
  ping : Ping
  /-- Where it is. -/
  stage : Stage
  /-- The length of the log when it arrived. -/
  arrival : ℕ
  deriving DecidableEq

/-- The settings of the process. -/
structure Config where
  /-- `GOSSIP_WRITER_ENABLED`. -/
  gossip : Bool
  /-- Rows are deleted when they are sent. -/
  ephemeral : Bool

/-- The front-end. -/
structure State where
  /-- The database. -/
  queue : Queue
  /-- The clock, in seconds. -/
  now : ℕ
  /-- The requests so far. -/
  handlers : List Handler
  /-- What the thread has yet to do in this iteration. -/
  todo : List Task
  /-- The messages of this iteration. -/
  sent : ℕ
  /-- The past, newest first. -/
  log : List Event
  deriving DecidableEq

/-- What the environment and the scheduler decide about an operation of the thread. -/
inductive Outcome where
  /-- A statement, and whether it runs. -/
  | sql (runs : Bool)
  /-- A message that was there, or the timeout. -/
  | received (reply : Option Reply)
  /-- Whether the sends to the two writers succeed. -/
  | sends (gossip hive : Bool)

/-- A step. -/
inductive Label where
  /-- A second passes. -/
  | tick
  /-- A request arrives. -/
  | arrive (url : String) (reason : Reason) (medium : Medium)
  /-- A handler's `INSERT`. -/
  | insert (i : ℕ) (runs : Bool)
  /-- A handler's `UPDATE`. -/
  | update (i : ℕ) (runs : Bool)
  /-- The next operation of the thread. -/
  | thread (outcome : Outcome)

/-! ### The past -/

/-- The content an event gave the row of `url`. -/
def Event.writes (url : String) : Event → Option (Reason × Medium)
  | .wrote ping => if ping.url = url then some (ping.reason, ping.medium) else none
  | .sent .. => none

/-- The content the row of `url` was last given. -/
def lastWritten (url : String) (log : List Event) : Option (Reason × Medium) :=
  log.findSome? (Event.writes url)

/-- How often the row of `url` was written. -/
def version (url : String) (log : List Event) : ℕ := log.countP fun e => (e.writes url).isSome

/-- The events since the row of `url` was last written. -/
def sinceWritten (url : String) (log : List Event) : List Event :=
  log.takeWhile fun e => (e.writes url).isNone

/-- The event is a message for `url`. -/
def messageFor (url : String) : Event → Bool
  | .wrote _ => false
  | .sent _ ping _ => ping.url = url

/-- The message was sent to the writer. -/
def sentTo (writer : Writer) (url : String) : Event → Bool
  | .wrote _ => false
  | .sent writer' ping _ => writer' = writer && ping.url = url

/-! ### Steps -/

/-- The iris a message names. -/
def Reply.iris : Reply → List String
  | .podpingWriteError iri => iri.toList
  | .podpingHiveTransaction _ podpings => (podpings.getD []).flatten

/-- The deletions a message asks for. A transaction with block number 0 asks for none. -/
def Reply.removals : Reply → List Task
  | .podpingWriteError iri => iri.toList.map (.remove · false)
  | .podpingHiveTransaction hiveBlockNum podpings =>
    if hiveBlockNum = 0 then [] else (podpings.getD []).flatten.map (.remove · true)

/-- The urls a message deletes because of a transaction. -/
def Reply.written : Reply → List String
  | .podpingWriteError _ => []
  | .podpingHiveTransaction hiveBlockNum podpings =>
    if hiveBlockNum = 0 then [] else (podpings.getD []).flatten

/-- What `receive_messages` returns on a message. -/
def Reply.continues : Reply → Bool
  | .podpingWriteError _ => false
  | .podpingHiveTransaction hiveBlockNum podpings => podpings.isNone || hiveBlockNum != 0

/-- Both sockets are given a chance. -/
def receives (cfg : Config) : List Task :=
  if cfg.gossip then [.receive .hive, .receive .gossip] else [.receive .hive]

/-- An iteration of the loop up to its batch. -/
def loopStart (cfg : Config) : List Task := receives cfg ++ [.fetch]

/-- What follows a successful send, before the rest of the batch. -/
def afterSend (cfg : Config) (ping : Ping) : List Task := .settle ping :: receives cfg

/-- A fetched batch, with the write that each of its pings was read from. -/
def batch (log : List Event) (pings : List Ping) : List Task :=
  pings.map fun p => .send p (version p.url log)

/-- The next operation of the queue checker thread. -/
def threadStep (cfg : Config) (s : State) (outcome : Outcome) : Option State :=
  match s.todo, outcome with
  | .receive _ :: rest, .received none => some { s with todo := rest }
  | .receive writer :: rest, .received (some reply) =>
    if ∀ url ∈ reply.iris, ∃ e ∈ s.log, sentTo writer url e then
      let again := if writer = .gossip ∧ reply.continues then [.receive .gossip] else []
      some { s with todo := reply.removals ++ again ++ rest }
    else none
  | .remove url _ :: rest, .sql runs =>
    some { s with queue := if runs then deletePingFromQueue url s.queue else s.queue, todo := rest }
  | .fetch :: _, .sql runs =>
    let pings := if runs then getPingsFromQueue false s.queue s.now else []
    some { s with todo := batch s.log pings ++ [.reset] }
  | .send ping v :: rest, .sends gossip hive =>
    let log := if cfg.gossip && gossip then .sent .gossip ping v :: s.log else s.log
    -- a failed send to the hive-writer reconnects and breaks out of the batch
    if hive then
      some { s with
        todo := afterSend cfg ping ++ rest, sent := s.sent + 1, log := .sent .hive ping v :: log }
    else some { s with todo := [.reset], log := log }
  | .settle ping :: rest, .sql runs =>
    let settled := if cfg.ephemeral then deletePingFromQueue ping.url s.queue
      else setPingAsInflight ping s.queue
    some { s with queue := if runs then settled else s.queue, todo := rest }
  | .reset :: _, .sql runs =>
    let due := !cfg.ephemeral && s.sent < 25 && runs
    some { s with
      queue := if due then resetPingsInFlight s.queue s.now else s.queue
      todo := loopStart cfg, sent := 0 }
  | _, _ => none

/-- One step of the front-end; `none` where the label is not enabled. -/
def step (cfg : Config) (s : State) : Label → Option State
  | .tick => some { s with now := s.now + 1 }
  | .arrive url reason medium =>
    some { s with handlers := s.handlers ++ [⟨⟨url, s.now, reason, medium⟩, .inserting, s.log.length⟩] }
  | .insert i runs =>
    match s.handlers[i]? with
    | some ⟨ping, .inserting, arrival⟩ =>
      match if runs then s.queue.insert? ping.row else none with
      | some queue =>
        some { s with
          queue := queue, handlers := s.handlers.set i ⟨ping, .answered, arrival⟩
          log := .wrote ping :: s.log }
      | none =>
        let stage := if ping.reason = .update then .answered else .updating
        some { s with handlers := s.handlers.set i ⟨ping, stage, arrival⟩ }
    | _ => none
  | .update i runs =>
    match s.handlers[i]? with
    | some ⟨ping, .updating, arrival⟩ =>
      let there := (s.queue.find? ping.url).isSome
      some { s with
        queue := if runs then updatePingInQueue ping s.queue else s.queue
        handlers := s.handlers.set i ⟨ping, .answered, arrival⟩
        log := if runs && there then .wrote ping :: s.log else s.log }
    | _ => none
  | .thread outcome => threadStep cfg s outcome

/-- The message of a writer that a step receives. -/
def Label.received : Label → Option Reply
  | .thread (.received reply) => reply
  | _ => none

/-- The front-end when it starts on a queue. -/
def State.init (cfg : Config) (queue : Queue) (now : ℕ) : State where
  queue := queue
  now := now
  handlers := []
  todo := loopStart cfg
  sent := 0
  log := queue.rows.map fun row => .wrote row.ping

/-! ### What a step does -/

/-- The effect of a step, one constructor for each way a statement or a socket operation can end. -/
inductive Move (cfg : Config) (s : State) : Label → State → Prop where
  | tick : Move cfg s .tick { s with now := s.now + 1 }
  | arrive {url : String} {reason : Reason} {medium : Medium} :
      Move cfg s (.arrive url reason medium)
        { s with
          handlers := s.handlers ++ [⟨⟨url, s.now, reason, medium⟩, .inserting, s.log.length⟩] }
  | inserted {i : ℕ} {ping : Ping} {arrival : ℕ} {queue : Queue}
      (hi : s.handlers[i]? = some ⟨ping, .inserting, arrival⟩)
      (hq : s.queue.insert? ping.row = some queue) :
      Move cfg s (.insert i true)
        { s with
          queue := queue, handlers := s.handlers.set i ⟨ping, .answered, arrival⟩
          log := .wrote ping :: s.log }
  | refused {i : ℕ} {runs : Bool} {ping : Ping} {arrival : ℕ}
      (hi : s.handlers[i]? = some ⟨ping, .inserting, arrival⟩)
      (hq : runs = true → ∃ row, s.queue.find? ping.url = some row) :
      Move cfg s (.insert i runs)
        { s with
          handlers := s.handlers.set i
            ⟨ping, if ping.reason = .update then .answered else .updating, arrival⟩ }
  | updated {i : ℕ} {ping : Ping} {arrival : ℕ} {row : Row}
      (hi : s.handlers[i]? = some ⟨ping, .updating, arrival⟩)
      (hrow : s.queue.find? ping.url = some row) :
      Move cfg s (.update i true)
        { s with
          queue := updatePingInQueue ping s.queue
          handlers := s.handlers.set i ⟨ping, .answered, arrival⟩
          log := .wrote ping :: s.log }
  | missed {i : ℕ} {runs : Bool} {ping : Ping} {arrival : ℕ}
      (hi : s.handlers[i]? = some ⟨ping, .updating, arrival⟩) :
      Move cfg s (.update i runs)
        { s with handlers := s.handlers.set i ⟨ping, .answered, arrival⟩ }
  | idle {writer : Writer} {rest : List Task} (htodo : s.todo = .receive writer :: rest) :
      Move cfg s (.thread (.received none)) { s with todo := rest }
  | replied {writer : Writer} {rest again : List Task} {reply : Reply}
      (htodo : s.todo = .receive writer :: rest)
      (hsent : ∀ url ∈ reply.iris, ∃ e ∈ s.log, sentTo writer url e)
      (hagain : ∀ task ∈ again, task = .receive .gossip) :
      Move cfg s (.thread (.received (some reply)))
        { s with todo := reply.removals ++ again ++ rest }
  | removed {url : String} {written : Bool} {rest : List Task}
      (htodo : s.todo = .remove url written :: rest) :
      Move cfg s (.thread (.sql true))
        { s with queue := deletePingFromQueue url s.queue, todo := rest }
  | fetched {rest : List Task} (htodo : s.todo = .fetch :: rest) :
      Move cfg s (.thread (.sql true))
        { s with todo := batch s.log (getPingsFromQueue false s.queue s.now) ++ [.reset] }
  | failed {task : Task} {rest : List Task} (htodo : s.todo = task :: rest)
      (htask : task = .fetch ∨ (∃ url written, task = .remove url written) ∨ ∃ p, task = .settle p)
      (after : List Task) (hafter : ∀ t ∈ after, t = .reset ∨ t ∈ rest) :
      Move cfg s (.thread (.sql false)) { s with todo := after }
  | sent {ping : Ping} {v : ℕ} {rest : List Task} {gossip : Bool} (log : List Event)
      (htodo : s.todo = .send ping v :: rest)
      (hlog : log = s.log ∨ log = .sent .gossip ping v :: s.log) :
      Move cfg s (.thread (.sends gossip true))
        { s with
          todo := afterSend cfg ping ++ rest, sent := s.sent + 1, log := .sent .hive ping v :: log }
  | broke {ping : Ping} {v : ℕ} {rest : List Task} {gossip : Bool} (log : List Event)
      (htodo : s.todo = .send ping v :: rest)
      (hlog : log = s.log ∨ log = .sent .gossip ping v :: s.log) :
      Move cfg s (.thread (.sends gossip false)) { s with todo := [.reset], log := log }
  | settled {ping : Ping} {rest : List Task} (htodo : s.todo = .settle ping :: rest) :
      Move cfg s (.thread (.sql true))
        { s with
          queue := if cfg.ephemeral then deletePingFromQueue ping.url s.queue
            else setPingAsInflight ping s.queue
          todo := rest }
  | reset {rest : List Task} {runs : Bool} (queue : Queue) (htodo : s.todo = .reset :: rest)
      (hqueue : queue = s.queue ∨ queue = resetPingsInFlight s.queue s.now) :
      Move cfg s (.thread (.sql runs)) { s with queue := queue, todo := loopStart cfg, sent := 0 }

/-- **Every step is a move.** -/
theorem move_of_step {cfg : Config} {s t : State} {a : Label} (h : step cfg s a = some t) :
    Move cfg s a t := by
  cases a with
  | tick => cases h; exact .tick
  | arrive url reason medium => cases h; exact .arrive
  | insert i runs =>
    simp only [step] at h
    split at h
    · rename_i ping arrival hi
      split at h
      · rename_i queue hq
        cases h
        cases runs with
        | false => cases hq
        | true => exact .inserted hi hq
      · rename_i hq
        cases h
        refine .refused hi fun hr => ?_
        have hnone : s.queue.insert? ping.row = none := by rwa [hr] at hq
        exact Table.insert?_eq_none.1 hnone
    · cases h
  | update i runs =>
    simp only [step] at h
    split at h
    · rename_i ping arrival hi
      cases h
      cases hrow : s.queue.find? ping.url with
      | none =>
        have hqueue : updatePingInQueue ping s.queue = s.queue := by
          by_contra hne
          obtain ⟨row, hrow', -⟩ := updatePingInQueue_ne_iff.1 hne
          cases hrow.symm.trans hrow'
        simp only [Option.isSome_none, Bool.and_false, Bool.false_eq_true, if_false, hqueue, ite_self]
        exact .missed hi
      | some row =>
        cases runs with
        | false => exact .missed hi
        | true => exact .updated hi hrow
    · cases h
  | thread outcome =>
    simp only [step, threadStep] at h
    split at h
    · rename_i htodo
      cases h
      exact .idle htodo
    · rename_i htodo
      split at h
      · rename_i hsent
        cases h
        refine .replied htodo hsent fun task htask => ?_
        split_ifs at htask
        · exact List.mem_singleton.1 htask
        · cases htask
      · cases h
    · rename_i url written rest runs htodo
      cases h
      cases runs with
      | false => exact .failed htodo (.inr (.inl ⟨_, _, rfl⟩)) rest fun t ht => .inr ht
      | true => exact .removed htodo
    · rename_i rest runs htodo
      cases h
      cases runs with
      | false => exact .failed htodo (.inl rfl) [.reset] fun t ht => .inl (List.mem_singleton.1 ht)
      | true => exact .fetched htodo
    · rename_i ping v rest gossip hive htodo
      have hlog : ∀ b : Bool, (if b then Event.sent .gossip ping v :: s.log else s.log) = s.log ∨
          (if b then Event.sent .gossip ping v :: s.log else s.log) =
            .sent .gossip ping v :: s.log := by
        intro b
        cases b
        · exact .inl rfl
        · exact .inr rfl
      cases hive with
      | true =>
        cases h
        exact .sent _ htodo (hlog _)
      | false =>
        cases h
        exact .broke _ htodo (hlog _)
    · rename_i ping rest runs htodo
      cases h
      cases runs with
      | false => exact .failed htodo (.inr (.inr ⟨_, rfl⟩)) rest fun t ht => .inr ht
      | true => exact .settled htodo
    · rename_i rest runs htodo
      cases h
      refine .reset _ htodo ?_
      split_ifs
      · exact .inr rfl
      · exact .inl rfl
    · cases h

/-- A step unsays nothing. -/
theorem log_suffix_of_step {cfg : Config} {s t : State} {a : Label} (h : step cfg s a = some t) :
    s.log <:+ t.log := by
  cases move_of_step h with
  | inserted => exact List.suffix_cons _ _
  | updated => exact List.suffix_cons _ _
  | sent log htodo hlog =>
    rcases hlog with rfl | rfl
    · exact List.suffix_cons _ _
    · exact (List.suffix_cons _ _).trans (List.suffix_cons _ _)
  | broke log htodo hlog =>
    rcases hlog with rfl | rfl
    · exact List.suffix_refl _
    · exact List.suffix_cons _ _
  | _ => exact List.suffix_refl _

theorem remove_mem_removals {reply : Reply} {url : String} :
    .remove url true ∈ reply.removals ↔ url ∈ reply.written := by
  cases reply with
  | podpingWriteError iri => simp [Reply.removals, Reply.written]
  | podpingHiveTransaction hiveBlockNum podpings =>
    simp only [Reply.removals, Reply.written]
    split_ifs <;> simp

/-- Only a transaction makes a deletion pending. -/
theorem remove_mem_todo_of_step {cfg : Config} {s t : State} {a : Label}
    (h : step cfg s a = some t) {url : String} (ht : .remove url true ∈ t.todo) :
    .remove url true ∈ s.todo ∨
      ∃ reply, a = .thread (.received (some reply)) ∧ url ∈ reply.written := by
  have hreceives : .remove url true ∉ receives cfg := by
    rw [receives]
    split_ifs <;> simp
  have hrest : ∀ {task : Task} {rest : List Task}, s.todo = task :: rest →
      .remove url true ∈ rest → .remove url true ∈ s.todo := by
    intro task rest htodo hmem
    rw [htodo]
    exact List.mem_cons_of_mem _ hmem
  cases move_of_step h with
  | idle htodo => exact .inl (hrest htodo ht)
  | @replied writer rest again reply htodo hsent hagain =>
    rcases List.mem_append.1 ht with hmem | hmem
    · rcases List.mem_append.1 hmem with hmem | hmem
      · exact .inr ⟨reply, rfl, remove_mem_removals.1 hmem⟩
      · cases hagain _ hmem
    · exact .inl (hrest htodo hmem)
  | removed htodo => exact .inl (hrest htodo ht)
  | fetched htodo =>
    have hmem := (List.mem_append.1 ht).resolve_right (by simp)
    obtain ⟨_, -, heq⟩ := List.mem_map.1 hmem
    cases heq
  | failed htodo htask after hafter =>
    rcases hafter _ ht with heq | hmem
    · cases heq
    · exact .inl (hrest htodo hmem)
  | sent log htodo hlog =>
    rcases List.mem_append.1 ht with hmem | hmem
    · rcases List.mem_cons.1 hmem with heq | hmem
      · cases heq
      · exact absurd hmem hreceives
    · exact .inl (hrest htodo hmem)
  | broke log htodo hlog => cases List.mem_singleton.1 ht
  | settled htodo => exact .inl (hrest htodo ht)
  | reset queue htodo hqueue =>
    rcases List.mem_append.1 ht with hmem | hmem
    · exact absurd hmem hreceives
    · cases List.mem_singleton.1 hmem
  | _ => exact .inl ht

/-- A handler that is not interrupted does what `add_ping_to_queue` does. -/
theorem run_addPingToQueue (cfg : Config) {s : State} {i : ℕ} {ping : Ping} {arrival : ℕ}
    (hi : s.handlers[i]? = some ⟨ping, .inserting, arrival⟩) (disk : Disk) :
    ∃ as t, as <+: [.insert i disk.inserts, .update i disk.updates] ∧
      run (step cfg) s as = some t ∧ t.queue = (addPingToQueue disk ping s.queue).2 ∧
        t.handlers[i]? = some ⟨ping, .answered, arrival⟩ := by
  have hlt : i < s.handlers.length := (List.getElem?_eq_some_iff.1 hi).1
  cases hq : (if disk.inserts then s.queue.insert? ping.row else none) with
  | some queue =>
    have hinsert : step cfg s (.insert i disk.inserts) = some { s with
        queue := queue, handlers := s.handlers.set i ⟨ping, .answered, arrival⟩
        log := .wrote ping :: s.log } := by
      simp only [step, hi, hq]
    refine ⟨[.insert i disk.inserts], _, ⟨_, rfl⟩, run_cons_eq_some.2 ⟨_, hinsert, rfl⟩, ?_, ?_⟩
    · simp only [addPingToQueue, hq]
    · exact List.getElem?_set_self hlt
  | none =>
    have hinsert : step cfg s (.insert i disk.inserts) = some { s with
        handlers := s.handlers.set i
          ⟨ping, if ping.reason = .update then .answered else .updating, arrival⟩ } := by
      simp only [step, hi, hq]
    by_cases hreason : ping.reason = .update
    · rw [if_pos hreason] at hinsert
      refine ⟨[.insert i disk.inserts], _, ⟨_, rfl⟩, run_cons_eq_some.2 ⟨_, hinsert, rfl⟩, ?_, ?_⟩
      · simp only [addPingToQueue, hq, hreason]
      · exact List.getElem?_set_self hlt
    · rw [if_neg hreason] at hinsert
      have hset : i < (s.handlers.set i ⟨ping, .updating, arrival⟩).length := by
        rwa [List.length_set]
      refine ⟨_, ?_, List.prefix_refl _, run_cons_eq_some.2 ⟨_, hinsert, ?_⟩, ?_, ?_⟩
      rotate_left
      · simp only [run_cons, step, List.getElem?_set_self hlt, Option.bind_some, run_nil]
        rfl
      · simp only [addPingToQueue, hq]
        cases h : ping.reason with
        | update => exact absurd h hreason
        | live => cases disk.updates <;> rfl
        | liveEnd => cases disk.updates <;> rfl
      · exact List.getElem?_set_self hset

end PodpingAlpha.FrontEnd
