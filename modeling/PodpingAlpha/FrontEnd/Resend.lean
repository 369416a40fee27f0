import PodpingAlpha.FrontEnd.QueueChecker
import Mathlib.Logic.Function.Basic

/-!
# Sent again too soon

A row in flight is sent again when no writer reports on it for 180 seconds. `reset_pings_in_flight`
measures them from `createdon`, which the handlers write and the sending does not: a ping that has
waited in the queue for three minutes is overdue as soon as it is sent.

## The model

An observer notes, for each url, when its last message was sent and when the last one was sent whose
row was marked as in flight (`Times`); a write of the row by a handler wipes both.

## What is proved

* `Spaced`, `spaced_step` — the invariant: a row that is not in flight was put back no sooner than
  164 seconds after its message, and what is left of the batch is due.
* `apart_of_lateResets` — in every run in which the reset puts back rows only whose message was sent
  164 seconds ago, no message is sent within 180 seconds of one whose row was marked.
* `backlog_sent_again` — a run in which a ping that waited is sent twice within 16 seconds.
-/

namespace PodpingAlpha.FrontEnd

open Transition

/-! ### The property and the condition -/

/-- When messages were sent since the row of a url was last written. -/
structure Times where
  /-- The last message. -/
  sent : String → Option ℕ
  /-- The last message whose row was marked as in flight. -/
  parked : String → Option ℕ

/-- Before the front-end starts. -/
def Times.none : Times := ⟨fun _ => .none, fun _ => .none⟩

/-- The row of `url` was written. -/
def Times.wipe (w : Times) (url : String) : Times where
  sent := Function.update w.sent url .none
  parked := Function.update w.parked url .none

/-- What the observer notes of a step from `s` to `t`. -/
def watch (w : Times) (s : State) (a : Label) (t : State) : Times :=
  match a with
  | .insert i _ | .update i _ =>
    match s.handlers[i]? with
    | some h => if t.log = s.log then w else w.wipe h.ping.url
    | _ => w
  | .thread outcome =>
    match s.todo, outcome with
    | .send ping _ :: _, .sends _ true =>
      { w with sent := Function.update w.sent ping.url (some s.now) }
    | .settle ping :: _, .sql true =>
      { w with parked := Function.update w.parked ping.url (w.sent ping.url) }
    | _, _ => w
  | _ => w

/-- The url of the message that a step sends. -/
def sends (cfg : Config) (s : State) : Label → Option String
  | .thread (.sends gossip hive) =>
    match s.todo with
    | .send ping _ :: _ => if hive || (cfg.gossip && gossip) then some ping.url else none
    | _ => none
  | _ => none

/-- The urls of the rows that a step puts back. -/
def resets (cfg : Config) (s : State) : Label → List String
  | .thread (.sql true) =>
    match s.todo with
    | .reset :: _ => if !cfg.ephemeral && s.sent < 25 then overdue s.queue s.now else []
    | _ => []
  | _ => []

/-- A message is sent 180 seconds after the last one whose row was marked, or later. -/
def Apart (cfg : Config) (p : State × Times) (a : Label) : Prop :=
  ∀ url ∈ sends cfg p.1 a, ∀ t ∈ p.2.parked url, t + 180 ≤ p.1.now

/-- A row is put back 164 seconds after its message, or later. -/
def LateResets (cfg : Config) (p : State × Times) (a : Label) : Prop :=
  ∀ url ∈ resets cfg p.1 a, ∀ t ∈ p.2.parked url, t + 164 ≤ p.1.now

instance (cfg : Config) (p : State × Times) (a : Label) : Decidable (LateResets cfg p a) :=
  inferInstanceAs (Decidable (∀ _ ∈ _, _))

/-! ### The invariant -/

/-- The url that a task sends or has sent a message for. -/
def Task.feed : Task → Option String
  | .send ping _ | .settle ping => some ping.url
  | _ => none

/-- The urls of the batch. -/
def feeds (todo : List Task) : List String := todo.filterMap Task.feed

@[simp] theorem feeds_append (todo todo' : List Task) :
    feeds (todo ++ todo') = feeds todo ++ feeds todo' := List.filterMap_append

/-- The other tasks are about no message. -/
theorem feeds_eq_nil {todo : List Task} (h : ∀ task ∈ todo, task.feed = none) : feeds todo = [] :=
  List.filterMap_eq_nil_iff.2 h

@[simp] theorem feeds_receives (cfg : Config) : feeds (receives cfg) = [] := by
  refine feeds_eq_nil fun task htask => ?_
  unfold receives at htask
  split_ifs at htask
  · simp only [List.mem_cons, List.not_mem_nil, or_false] at htask
    obtain rfl | rfl := htask <;> rfl
  · rw [List.mem_singleton.1 htask]
    rfl

@[simp] theorem feeds_removals (reply : Reply) : feeds reply.removals = [] := by
  refine feeds_eq_nil fun task htask => ?_
  cases reply with
  | podpingWriteError iri =>
    obtain ⟨url, -, rfl⟩ := List.mem_map.1 htask
    rfl
  | podpingHiveTransaction hiveBlockNum podpings =>
    simp only [Reply.removals] at htask
    split_ifs at htask
    · cases htask
    · obtain ⟨url, -, rfl⟩ := List.mem_map.1 htask
      rfl

@[simp] theorem feeds_batch (log : List Event) (pings : List Ping) :
    feeds (batch log pings) = pings.map Ping.url := by
  rw [feeds, batch, List.filterMap_map]
  exact congrFun (List.filterMap_eq_map (f := Ping.url)) pings

/-- A message to be sent is one of the batch. -/
theorem mem_feeds_of_send {ping : Ping} {v : ℕ} {todo : List Task} (h : .send ping v ∈ todo) :
    ping.url ∈ feeds todo := List.mem_filterMap.2 ⟨_, h, rfl⟩

/-- What keeps the messages apart. -/
structure Spaced (p : State × Times) : Prop where
  /-- A row not in flight is fetched when its message was sent 180 seconds ago. -/
  rows : ∀ url, ∀ t ∈ p.2.parked url, ∀ row, p.1.queue.find? url = some row →
    row.inflight = true ∨ t + 164 ≤ row.createdon
  /-- For what is left of the batch they have passed. -/
  batch : ∀ ping v, .send ping v ∈ p.1.todo → ∀ t ∈ p.2.parked ping.url, t + 180 ≤ p.1.now
  /-- No url is in the batch twice. -/
  distinct : (feeds p.1.todo).Nodup

theorem spaced_init (cfg : Config) (queue : Queue) (now : ℕ) :
    Spaced (State.init cfg queue now, Times.none) where
  rows url t ht := by cases ht
  batch ping v _ t ht := by cases ht
  distinct := by
    rw [State.init, loopStart, feeds_append, feeds_receives]
    exact List.nodup_nil

/-- What is not about the rows, but about the tasks, may go away. -/
theorem Spaced.of_step {s t : State} {w : Times} (hs : Spaced (s, w)) (hnow : s.now ≤ t.now)
    (hq : ∀ url row, t.queue.find? url = some row → row.inflight = true ∨
      s.queue.find? url = some row)
    (hsends : ∀ ping v, .send ping v ∈ t.todo → .send ping v ∈ s.todo)
    (hfeeds : (feeds t.todo).Sublist (feeds s.todo)) : Spaced (t, w) where
  rows url t' ht' row hrow := by
    obtain hin | hrow := hq url row hrow
    · exact .inl hin
    · exact hs.rows url t' ht' row hrow
  batch ping v hsend t' ht' := (hs.batch ping v (hsends ping v hsend) t' ht').trans hnow
  distinct := hs.distinct.sublist hfeeds

/-- A handler's write wipes what was noted of its url. -/
theorem Spaced.wrote {s t : State} {w : Times} {url : String} (hs : Spaced (s, w))
    (hq : ∀ url' row, url' ≠ url → t.queue.find? url' = some row → s.queue.find? url' = some row)
    (hnow : t.now = s.now) (htodo : t.todo = s.todo) : Spaced (t, w.wipe url) where
  rows url' t' ht' row hrow := by
    by_cases hurl : url' = url
    · simp [Times.wipe, hurl] at ht'
    · simp only [Times.wipe, Function.update_of_ne hurl] at ht'
      exact hs.rows url' t' ht' row (hq url' row hurl hrow)
  batch ping v hsend t' ht' := by
    by_cases hurl : ping.url = url
    · simp [Times.wipe, hurl] at ht'
    · simp only [Times.wipe, Function.update_of_ne hurl] at ht'
      show t' + 180 ≤ t.now
      rw [hnow]
      exact hs.batch ping v (htodo ▸ hsend) t' ht'
  distinct := by
    show (feeds t.todo).Nodup
    rw [htodo]
    exact hs.distinct

/-- A message that is sent was to be sent. -/
theorem send_of_sends {cfg : Config} {s : State} {a : Label} {url : String}
    (h : url ∈ sends cfg s a) : ∃ ping v, .send ping v ∈ s.todo ∧ ping.url = url := by
  unfold sends at h
  split at h
  · split at h
    · next ping v rest htodo =>
      split_ifs at h
      · cases h
        exact ⟨ping, v, htodo ▸ List.mem_cons_self, rfl⟩
      · cases h
    · cases h
  · cases h

/-- What is left of the tasks was among them. -/
theorem sends_of_rest {s : State} {task : Task} {rest : List Task} (htodo : s.todo = task :: rest)
    (ping : Ping) (v : ℕ) (h : .send ping v ∈ rest) : .send ping v ∈ s.todo := by
  rw [htodo]
  exact List.mem_cons_of_mem _ h

theorem feeds_of_rest {s : State} {task : Task} {rest : List Task} (htodo : s.todo = task :: rest) :
    (feeds rest).Sublist (feeds s.todo) := by
  rw [htodo]
  exact (List.sublist_cons_self task rest).filterMap _

/-! ### Steps -/

variable {cfg : Config} {s t : State} {w : Times} {ping : Ping} {v : ℕ} {rest : List Task}

/-- A row that is fetched is due. -/
theorem Spaced.fetched (hs : Spaced (s, w)) :
    Spaced ({ s with
      todo := FrontEnd.batch s.log (getPingsFromQueue false s.queue s.now) ++ [.reset] }, w) where
  rows := hs.rows
  batch p v hmem t' ht' := by
    obtain hmem | hreset := List.mem_append.1 hmem
    · obtain ⟨ping', hping, heq⟩ := List.mem_map.1 hmem
      cases heq
      obtain ⟨row, hrow, hout, hread⟩ := mem_getPingsFromQueue hping
      have hlong := time_of_mem_getPingsFromQueue hping
      rw [← hread] at hlong
      have hback := (hs.rows _ t' ht' row hrow).resolve_left (by simp [hout])
      show t' + 180 ≤ s.now
      change row.createdon + 15 < s.now at hlong
      omega
    · cases List.mem_singleton.1 hreset
  distinct := by
    have hfeeds : feeds (FrontEnd.batch s.log (getPingsFromQueue false s.queue s.now) ++ [.reset]) =
        (getPingsFromQueue false s.queue s.now).map Ping.url := by
      rw [feeds_append, feeds_batch]
      exact List.append_nil _
    show (feeds _).Nodup
    rw [hfeeds]
    exact nodup_getPingsFromQueue _ _ _

/-- What is sent is noted, and is still in the batch until it is settled. -/
theorem Spaced.sent (hs : Spaced (s, w)) (htodo : s.todo = .send ping v :: rest)
    (log : List Event) (n : ℕ) (sent : String → Option ℕ) :
    Spaced ({ s with todo := afterSend cfg ping ++ rest, sent := n, log }, { w with sent }) where
  rows := hs.rows
  batch p v' hmem t' ht' := by
    obtain hmem | hmem := List.mem_append.1 hmem
    · obtain hsettle | hmem := List.mem_cons.1 hmem
      · cases hsettle
      · have hnone := mem_feeds_of_send hmem
        rw [feeds_receives] at hnone
        cases hnone
    · exact hs.batch p v' (sends_of_rest htodo p v' hmem) t' ht'
  distinct := by
    have hfeeds : feeds (afterSend cfg ping ++ rest) = feeds s.todo := by
      rw [feeds_append, htodo]
      show ping.url :: (feeds (receives cfg) ++ feeds rest) = ping.url :: feeds rest
      rw [feeds_receives, List.nil_append]
    show (feeds _).Nodup
    rw [hfeeds]
    exact hs.distinct

/-- What is settled is in flight, or has no row any more. -/
theorem Spaced.settled (hs : Spaced (s, w)) (htodo : s.todo = .settle ping :: rest)
    (last : Option ℕ) :
    Spaced ({ s with
      queue := if cfg.ephemeral then deletePingFromQueue ping.url s.queue
        else setPingAsInflight ping s.queue
      todo := rest }, { w with parked := Function.update w.parked ping.url last }) := by
  have hdistinct : (ping.url :: feeds rest).Nodup := by
    have hnodup : (feeds s.todo).Nodup := hs.distinct
    rwa [htodo] at hnodup
  constructor
  case rows =>
    intro url t' ht' row hrow
    have hrow' : url = ping.url ∧ row.inflight = true ∨
        url ≠ ping.url ∧ s.queue.find? url = some row := by
      simp only at hrow
      split_ifs at hrow
      · rw [find?_deletePingFromQueue] at hrow
        split_ifs at hrow with hurl
        exact .inr ⟨hurl, hrow⟩
      · rw [find?_setPingAsInflight] at hrow
        split_ifs at hrow with hurl
        · obtain ⟨old, -, rfl⟩ := Option.map_eq_some_iff.1 hrow
          exact .inl ⟨hurl, rfl⟩
        · exact .inr ⟨hurl, hrow⟩
    obtain ⟨-, hin⟩ | ⟨hurl, hrow⟩ := hrow'
    · exact .inl hin
    · simp only [Function.update_of_ne hurl] at ht'
      exact hs.rows url t' ht' row hrow
  case batch =>
    intro p v hmem t' ht'
    have hurl : p.url ≠ ping.url := by
      rintro heq
      exact (List.nodup_cons.1 hdistinct).1 (heq ▸ mem_feeds_of_send hmem)
    simp only [Function.update_of_ne hurl] at ht'
    exact hs.batch p v (sends_of_rest htodo p v hmem) t' ht'
  case distinct => exact hdistinct.of_cons

/-- A reset of late rows only. -/
theorem Spaced.reset (hs : Spaced (s, w)) {queue : Queue} (hqueue : queue = s.queue ∨
      (∀ url ∈ overdue s.queue s.now, ∀ t ∈ w.parked url, t + 164 ≤ s.now) ∧
        queue = resetPingsInFlight s.queue s.now) :
    Spaced ({ s with queue, todo := loopStart cfg, sent := 0 }, w) where
  rows url t' ht' row hrow := by
    obtain rfl | ⟨hlate, rfl⟩ := hqueue
    · exact hs.rows url t' ht' row hrow
    · obtain hrow | ⟨hover, hcreated⟩ := find?_resetPingsInFlight_eq_some hrow
      · exact hs.rows url t' ht' row hrow
      · refine .inr ?_
        rw [hcreated]
        exact hlate url hover t' ht'
  batch p v hmem t' ht' := by
    have hnone := mem_feeds_of_send hmem
    simp only [loopStart, feeds_append, feeds_receives] at hnone
    cases hnone
  distinct := by
    simp only [loopStart, feeds_append, feeds_receives]
    exact List.nodup_nil

/-- Every step that puts back late rows only keeps the messages apart. -/
theorem spaced_step {a : Label} (hs : Spaced (s, w)) (hlate : LateResets cfg (s, w) a)
    (h : step cfg s a = some t) : Spaced (t, watch w s a t) := by
  have hsame : ∀ url row, s.queue.find? url = some row → row.inflight = true ∨
      s.queue.find? url = some row := fun _ _ hrow => .inr hrow
  have hmove := move_of_step h
  cases hmove with
  | tick => exact hs.of_step (Nat.le_succ _) hsame (fun _ _ h => h) (List.Sublist.refl _)
  | arrive => exact hs.of_step le_rfl hsame (fun _ _ h => h) (List.Sublist.refl _)
  | @inserted i ping arrival queue hi hq =>
    simp only [watch, hi, List.cons_ne_self, if_false]
    refine hs.wrote (fun url row hne hrow => ?_) rfl rfl
    rw [Table.find?_insert? hq] at hrow
    exact (if_neg (Ne.symm hne)).symm.trans hrow
  | @updated i ping arrival row₀ hi hrow₀ =>
    simp only [watch, hi, List.cons_ne_self, if_false]
    refine hs.wrote (fun url row hne hrow => ?_) rfl rfl
    rw [find?_updatePingInQueue] at hrow
    exact (if_neg hne).symm.trans hrow
  | refused hi hq =>
    simp only [watch, hi, if_true]
    exact hs.of_step le_rfl hsame (fun _ _ h => h) (List.Sublist.refl _)
  | missed hi =>
    simp only [watch, hi, if_true]
    exact hs.of_step le_rfl hsame (fun _ _ h => h) (List.Sublist.refl _)
  | idle htodo =>
    simp only [watch, htodo]
    exact hs.of_step le_rfl hsame (sends_of_rest htodo) (feeds_of_rest htodo)
  | @replied writer rest again reply htodo hsent hagain =>
    have hagain' : feeds again = [] := feeds_eq_nil fun task htask => by rw [hagain task htask]; rfl
    have hfeeds : feeds (reply.removals ++ again ++ rest) = feeds rest := by
      rw [feeds_append, feeds_append, feeds_removals, hagain', List.nil_append, List.nil_append]
    simp only [watch, htodo]
    refine hs.of_step le_rfl hsame (fun ping v hmem => ?_) (hfeeds ▸ feeds_of_rest htodo)
    obtain hmem | hmem := List.mem_append.1 hmem
    · have hnone := mem_feeds_of_send hmem
      rw [feeds_append, feeds_removals, hagain'] at hnone
      cases hnone
    · exact sends_of_rest htodo ping v hmem
  | removed htodo =>
    simp only [watch, htodo]
    refine hs.of_step le_rfl (fun url row hrow => .inr ?_) (sends_of_rest htodo) (feeds_of_rest htodo)
    rw [find?_deletePingFromQueue] at hrow
    split_ifs at hrow
    exact hrow
  | fetched htodo =>
    simp only [watch, htodo]
    exact hs.fetched
  | @failed task rest htodo htask after hafter =>
    -- what is left is the rest, or after a failed fetch the reset
    have hafter' : after = rest ∨ after = [.reset] := by
      obtain rfl | ⟨url, written, rfl⟩ | ⟨ping, rfl⟩ := htask <;>
        simp only [step, threadStep, htodo, Option.some.injEq] at h
      · exact .inr (congrArg State.todo h).symm
      · exact .inl (congrArg State.todo h).symm
      · exact .inl (congrArg State.todo h).symm
    have hwatch : watch w s (.thread (.sql false)) { s with todo := after } = w := by
      obtain rfl | ⟨url, written, rfl⟩ | ⟨ping, rfl⟩ := htask <;> simp only [watch, htodo]
    rw [hwatch]
    obtain rfl | rfl := hafter'
    · exact hs.of_step le_rfl hsame (sends_of_rest htodo) (feeds_of_rest htodo)
    · refine hs.of_step le_rfl hsame (fun ping v hmem => ?_) (List.nil_sublist _)
      cases List.mem_singleton.1 hmem
  | sent log htodo hlog =>
    simp only [watch, htodo]
    exact hs.sent htodo _ _ _
  | broke log htodo hlog =>
    simp only [watch, htodo]
    refine hs.of_step le_rfl hsame (fun p v' hmem => ?_) (List.nil_sublist _)
    cases List.mem_singleton.1 hmem
  | settled htodo =>
    simp only [watch, htodo]
    exact hs.settled htodo _
  | @reset rest runs queue htodo hqueue =>
    simp only [watch, htodo]
    refine hs.reset ?_
    simp only [step, threadStep, htodo, Option.some.injEq] at h
    have hq := congrArg State.queue h
    cases runs with
    | false =>
      simp only [Bool.and_false, Bool.false_eq_true, if_false] at hq
      exact .inl hq.symm
    | true =>
      simp only [Bool.and_true] at hq
      split_ifs at hq with hdue
      · have hresets : resets cfg s (.thread (.sql true)) = overdue s.queue s.now := by
          simp only [resets, htodo, if_pos hdue]
        exact .inr ⟨fun url hurl => hlate url (hresets ▸ hurl), hq.symm⟩
      · exact .inl hq.symm

/-- **A ping that was sent is not sent again within 180 seconds**: in every run in which the reset
puts back rows only whose message was sent at least 164 seconds ago, no message is sent within 180
seconds of one whose row was marked as in flight, unless the row was written in between. -/
theorem apart_of_lateResets (cfg : Config) (queue : Queue) (now : ℕ) (as : List Label)
    (h : Along (observed (step cfg) watch) (LateResets cfg) (.init cfg queue now, .none) as) :
    Along (observed (step cfg) watch) (Apart cfg) (.init cfg queue now, .none) as := by
  refine along_of_inv (I := Spaced) ?_ ?_ (spaced_init cfg queue now) h
  · rintro ⟨s, w⟩ a ⟨t, w'⟩ hs hlate hstep
    obtain ⟨hnext, rfl⟩ : step cfg s a = some t ∧ w' = watch w s a t := observed_eq_some.1 hstep
    exact spaced_step hs hlate hnext
  · rintro ⟨s, w⟩ a hs - url hurl t ht
    obtain ⟨ping, v, hsend, rfl⟩ := send_of_sends hurl
    exact hs.batch ping v hsend t ht

/-- A ping that has waited for 200 seconds, as the front-end starts. -/
def backlog : Queue := ⟨[⟨"u", 0, .update, .podcast, false⟩], by decide⟩

/-- The ping is sent and marked, and the iteration ends with its reset. -/
def sentOnce : List Label :=
  [.thread (.received none), .thread (.sql true), .thread (.sends false true), .thread (.sql true),
    .thread (.received none), .thread (.sql true)]

/-- A ping that has waited for 16 seconds, as the front-end starts. -/
def waiting : Queue := ⟨[⟨"u", 84, .update, .podcast, false⟩], by decide⟩

/-- The ping is sent and marked; after 165 seconds without a report it is put back, and sent again 16 seconds
later. -/
def sentTwice : List Label :=
  sentOnce ++ List.replicate 165 .tick ++
    [.thread (.received none), .thread (.sql true), .thread (.sql true)] ++ List.replicate 16 .tick ++
    [.thread (.received none), .thread (.sql true), .thread (.sends false true), .thread (.sql true)]

theorem apart_of_lateResets_twice :
    ((run (step ⟨false, false⟩) (.init ⟨false, false⟩ waiting 100) sentTwice).map fun s =>
      (s.now, s.log.length)) = some (281, 3) ∧
    Along (observed (step ⟨false, false⟩) watch) (Apart ⟨false, false⟩)
      (.init ⟨false, false⟩ waiting 100, .none) sentTwice :=
  ⟨by decide +kernel, apart_of_lateResets _ _ _ _ (by decide +kernel)⟩

/-- A ping that waited for 200 seconds is sent again 16 seconds after it was sent. -/
theorem backlog_sent_again :
    ¬Along (observed (step ⟨false, false⟩) watch) (Apart ⟨false, false⟩)
      (.init ⟨false, false⟩ backlog 200, .none)
      (sentOnce ++ List.replicate 16 .tick ++
        [.thread (.received none), .thread (.sql true), .thread (.sends false true)]) := by
  intro h
  have hlast := along_iff_forall.1 h (sentOnce ++ List.replicate 16 .tick ++
    [.thread (.received none), .thread (.sql true)]) _ [] _ rfl rfl "u" rfl 200 rfl
  exact absurd hlast (by decide)

end PodpingAlpha.FrontEnd
