import Mathlib.Data.List.Basic
import Mathlib.Data.List.Perm.Basic

/-!
# The broadcast task

The loop of the broadcast task of `gossip-writer/src/main.rs`: it takes payloads from the channel and
broadcasts them, keeps those that failed in `retry_queue`, and reconnects to the gossip topic, either
because it was notified or after too many failures in a row. The second kind of reconnect replays the
queue through the new sender; the first does not.

## The model

An iteration of the loop is one step, and its `Label` says what the world does in it: which branch of
the `select!` is taken, what the flags read, what the broadcasts come to, and how a reconnect goes. The
clocks are in milliseconds. The payloads are of any type. The task keeps a record of the payloads it
took, of each call of `sender.broadcast` with what it came to, and of the payloads it dropped. The log
lines, the counters of the health report and what a reconnect does to the receive tasks are left out.

## What is proved

* `payloads_conserved` — every payload taken was sent, is in the queue, or was dropped when the queue
  was full; the queue is in order and bounded.
* `reconnects_agree_iff` — the two reconnects do the same exactly when the queue is empty.
-/

namespace PodpingAlpha.Writer

universe u

variable {π : Type u}

/-- What a call of `sender.broadcast` under a timeout comes to. -/
inductive Delivery where
  | ok
  | error
  | timeout
  deriving DecidableEq

/-- How an attempt to reconnect goes, if there is one. -/
structure Attempt where
  /-- The clock when the cooldown is checked. -/
  checked : ℕ
  /-- The clock when the attempt is over. -/
  finished : ℕ
  /-- A fresh endpoint, if one is asked for, can be bound. -/
  bound : Bool
  /-- `reconnect_gossip_topic` returns `Ok`. -/
  joined : Bool
  /-- What the `k`-th broadcast through the new sender comes to. -/
  sends : ℕ → Delivery

/-- The variables of the task, and its record. -/
structure Task (π : Type u) where
  /-- `consecutive_failures`. -/
  consecutiveFailures : ℕ
  /-- `consecutive_reconnects`. -/
  consecutiveReconnects : ℕ
  /-- `retry_queue`, its front first. -/
  retryQueue : List π
  /-- `last_reconnect`. -/
  lastReconnect : ℕ
  /-- How many fresh endpoints `_current_endpoint` has been. -/
  endpoints : ℕ
  /-- The payloads taken from the channel, oldest first. -/
  received : List π
  /-- The payloads passed to `sender.broadcast`, oldest first, with what became of it. -/
  broadcasts : List (π × Delivery)
  /-- The payloads dropped, with the length that the queue had. -/
  discarded : List (π × ℕ)

/-- `MAX_RETRY_QUEUE`. -/
def maxRetryQueue : ℕ := 500

/-- `RECONNECT_AFTER_FAILURES`. -/
def reconnectAfterFailures : ℕ := 5

/-- `ENDPOINT_RESET_AFTER_RECONNECTS`. -/
def endpointResetAfterReconnects : ℕ := 3

/-- The cooldown between two reconnects. -/
def reconnectCooldown : ℕ := 30000

namespace Task

/-- The task when it starts. -/
def init (now : ℕ) : Task π where
  consecutiveFailures := 0
  consecutiveReconnects := 0
  retryQueue := []
  lastReconnect := now
  endpoints := 0
  received := []
  broadcasts := []
  discarded := []

/-- The payloads whose broadcast was confirmed. -/
def sent (t : Task π) : List π := (t.broadcasts.filter fun b => b.2 = .ok).map Prod.fst

/-! ### The loop -/

/-- The count of reconnects, and the fresh endpoint after too many of them. -/
def counted (t : Task π) (reconnects : ℕ) (bound : Bool) : Task π :=
  { t with
    consecutiveReconnects := reconnects
    endpoints :=
      if reconnects > endpointResetAfterReconnects ∧ bound then t.endpoints + 1 else t.endpoints }

/-- The branch of `reconnect_notify`. -/
def notified (t : Task π) (requested forced : Bool) (a : Attempt) : Task π :=
  if !requested && !forced then t
  else if !forced && a.checked - t.lastReconnect < reconnectCooldown then t
  else
    let reconnects :=
      if forced then endpointResetAfterReconnects + 1 else t.consecutiveReconnects + 1
    let t := t.counted reconnects a.bound
    if a.joined then { t with consecutiveFailures := 0, lastReconnect := a.finished }
    else { t with consecutiveFailures := 0 }

/-- The payload is queued for retry, if there is room. -/
def retry (t : Task π) (p : π) : Task π :=
  if t.retryQueue.length < maxRetryQueue then { t with retryQueue := t.retryQueue ++ [p] }
  else { t with discarded := t.discarded ++ [(p, t.retryQueue.length)] }

/-- A payload is taken and broadcast. -/
def tried (t : Task π) (p : π) (outcome : Delivery) : Task π :=
  let t := { t with received := t.received ++ [p], broadcasts := t.broadcasts ++ [(p, outcome)] }
  match outcome with
  | .ok => { t with consecutiveFailures := 0, consecutiveReconnects := 0 }
  | .error => { t with consecutiveFailures := t.consecutiveFailures + 1 }.retry p
  | .timeout => { t with consecutiveFailures := t.consecutiveFailures + 1 }.retry p

/-- The replay of the queue from the `k`-th broadcast through the new sender on: the broadcasts it
makes, and what it leaves in the queue. -/
def replay (sends : ℕ → Delivery) : ℕ → List π → List (π × Delivery) × List π
  | _, [] => ([], [])
  | k, p :: queue =>
    if sends k = .ok then
      let (tried, left) := replay sends (k + 1) queue
      ((p, .ok) :: tried, left)
    else ([(p, sends k)], p :: queue)

/-- The reconnect after too many failures. -/
def afterFailures (t : Task π) (a : Attempt) : Task π :=
  if t.consecutiveFailures ≥ reconnectAfterFailures then
    let t := { t with consecutiveFailures := 0 }
    if a.checked - t.lastReconnect < reconnectCooldown then t
    else
      let t := t.counted (t.consecutiveReconnects + 1) a.bound
      if a.joined then
        let (tried, left) := replay a.sends 0 t.retryQueue
        { t with
          retryQueue := left
          broadcasts := t.broadcasts ++ tried
          consecutiveFailures := 0
          lastReconnect := a.finished }
      else { t with consecutiveFailures := 0 }
  else t

end Task

/-- What the world does in an iteration. -/
inductive TaskLabel (π : Type u) where
  /-- The task is notified, and reads the two flags. -/
  | notified (requested forced : Bool) (a : Attempt)
  /-- A payload comes out of the channel. -/
  | payload (p : π) (outcome : Delivery) (a : Attempt)

/-- The payload that an iteration takes from the channel. -/
def TaskLabel.taken : TaskLabel π → Option π
  | .notified .. => none
  | .payload p _ _ => some p

namespace Task

/-- An iteration of the loop. -/
def step (t : Task π) : TaskLabel π → Task π
  | .notified requested forced a => t.notified requested forced a
  | .payload p outcome a => (t.tried p outcome).afterFailures a

/-- A run of the loop. -/
def run (t : Task π) (labels : List (TaskLabel π)) : Task π := labels.foldl step t

/-! ### The replay -/

/-- What is sent and what is left are the queue, in order. -/
theorem replay_partition (sends : ℕ → Delivery) (k : ℕ) (queue : List π) :
    ((replay sends k queue).1.filter fun b => b.2 = .ok).map Prod.fst ++ (replay sends k queue).2 =
      queue := by
  induction queue generalizing k with
  | nil => rfl
  | cons p queue ih =>
    by_cases h : sends k = .ok
    · simp only [replay, if_pos h, List.filter_cons, decide_true, if_true, List.map_cons,
        List.cons_append, ih]
    · simp [replay, h]

/-- The payloads are broadcast from the front of the queue on. -/
theorem replay_prefix (sends : ℕ → Delivery) (k : ℕ) (queue : List π) :
    (replay sends k queue).1.map Prod.fst <+: queue := by
  induction queue generalizing k with
  | nil => exact List.nil_prefix
  | cons p queue ih =>
    by_cases h : sends k = .ok
    · simp only [replay, if_pos h, List.map_cons]
      exact List.cons_prefix_cons.2 ⟨rfl, ih (k + 1)⟩
    · simp [replay, h]

/-- A sender that works empties the queue. -/
theorem replay_of_ok {sends : ℕ → Delivery} (h : ∀ k, sends k = .ok) (k : ℕ) (queue : List π) :
    (replay sends k queue).2 = [] := by
  induction queue generalizing k with
  | nil => rfl
  | cons p queue ih =>
    simp only [replay, if_pos (h k)]
    exact ih (k + 1)

/-- A queue that is not empty is tried. -/
theorem replay_ne_nil (sends : ℕ → Delivery) (k : ℕ) {queue : List π} (h : queue ≠ []) :
    (replay sends k queue).1 ≠ [] := by
  obtain ⟨p, queue, rfl⟩ := List.exists_cons_of_ne_nil h
  by_cases hk : sends k = .ok <;> simp [replay, hk]

/-! ### Where the payloads are -/

/-- Every payload taken is in one place. -/
structure Conserved (t : Task π) : Prop where
  /-- Sent, queued or dropped: as often as it was taken. -/
  places : t.received.Perm (t.sent ++ t.retryQueue ++ t.discarded.map Prod.fst)
  /-- The queue is bounded. -/
  bounded : t.retryQueue.length ≤ maxRetryQueue
  /-- It is in the order in which the payloads were taken. -/
  ordered : t.retryQueue.Sublist t.received
  /-- A payload is dropped when the queue is full. -/
  full : ∀ d ∈ t.discarded, maxRetryQueue ≤ d.2

theorem conserved_init (now : ℕ) : (init now : Task π).Conserved :=
  ⟨.refl _, Nat.zero_le _, .refl _, nofun⟩

/-- Two tasks that differ in the counters, the endpoint and the clock only. -/
def SamePlaces (t u : Task π) : Prop :=
  t.received = u.received ∧ t.broadcasts = u.broadcasts ∧ t.retryQueue = u.retryQueue ∧
    t.discarded = u.discarded

theorem SamePlaces.conserved {t u : Task π} (h : SamePlaces t u) (ht : t.Conserved) : u.Conserved := by
  obtain ⟨hreceived, hbroadcasts, hqueue, hdiscarded⟩ := h
  obtain ⟨places, bounded, ordered, full⟩ := ht
  rw [sent, hbroadcasts, hreceived, hqueue, hdiscarded] at places
  rw [hqueue] at bounded
  rw [hqueue, hreceived] at ordered
  rw [hdiscarded] at full
  exact ⟨places, bounded, ordered, full⟩

/-- A notification moves no payload. -/
theorem samePlaces_notified (t : Task π) (requested forced : Bool) (a : Attempt) :
    SamePlaces t (t.notified requested forced a) := by
  simp only [notified]
  split_ifs <;> exact ⟨rfl, rfl, rfl, rfl⟩

/-- A payload taken is sent, queued behind the others, or dropped. -/
theorem Conserved.tried {t : Task π} (h : t.Conserved) (p : π) (outcome : Delivery) :
    (t.tried p outcome).Conserved := by
  obtain ⟨places, bounded, ordered, full⟩ := h
  have taken := places.append_right [p]
  have hfailed : ∀ {o : Delivery}, o ≠ .ok → (retry { t with
      received := t.received ++ [p], broadcasts := t.broadcasts ++ [(p, o)]
      consecutiveFailures := t.consecutiveFailures + 1 } p).Conserved := by
    intro o ho
    have hsent : ((t.broadcasts ++ [(p, o)]).filter fun b => b.2 = .ok).map Prod.fst = t.sent := by
      simp [sent, ho]
    by_cases hroom : t.retryQueue.length < maxRetryQueue
    · simp only [retry, if_pos hroom]
      refine ⟨?_, ?_, ordered.append (.refl [p]), full⟩
      · rw [sent, hsent]
        refine taken.trans ?_
        rw [List.append_assoc, List.append_assoc, List.append_assoc, List.append_assoc]
        exact (List.perm_append_comm.append_left _).append_left _
      · rw [List.length_append, List.length_singleton]
        omega
    · simp only [retry, if_neg hroom]
      refine ⟨?_, bounded, ordered.trans (List.sublist_append_left _ _), ?_⟩
      · rw [sent, hsent, List.map_append, ← List.append_assoc]
        exact taken
      · intro d hd
        rcases List.mem_append.1 hd with hd | hd
        · exact full d hd
        · rw [List.mem_singleton.1 hd]
          exact Nat.le_of_not_lt hroom
  cases outcome with
  | ok =>
    refine ⟨?_, bounded, ordered.trans (List.sublist_append_left _ _), full⟩
    have hsent : ((t.broadcasts ++ [(p, Delivery.ok)]).filter fun b => b.2 = .ok).map Prod.fst =
        t.sent ++ [p] := by
      simp [sent]
    simp only [Task.tried]
    rw [sent, hsent]
    refine taken.trans ?_
    rw [List.append_assoc, List.append_assoc, List.append_assoc, List.append_assoc]
    refine List.Perm.append_left _ ?_
    rw [← List.append_assoc]
    exact List.perm_append_comm
  | error => exact hfailed nofun
  | timeout => exact hfailed nofun

/-- The replay sends from the front of the queue, and leaves the rest there. -/
theorem Conserved.afterFailures {t : Task π} (h : t.Conserved) (a : Attempt) :
    (t.afterFailures a).Conserved := by
  have hsame : ∀ {u : Task π}, SamePlaces t u → u.Conserved := fun hu => hu.conserved h
  simp only [Task.afterFailures]
  split_ifs
  · exact hsame ⟨rfl, rfl, rfl, rfl⟩
  · obtain ⟨places, bounded, ordered, full⟩ := h
    have hpart := replay_partition a.sends 0 t.retryQueue
    have hleft : (replay a.sends 0 t.retryQueue).2 <:+ t.retryQueue := ⟨_, hpart⟩
    refine ⟨?_, Nat.le_trans hleft.length_le bounded, hleft.sublist.trans ordered, full⟩
    have hsent : ((t.broadcasts ++ (replay a.sends 0 t.retryQueue).1).filter
          fun b => b.2 = .ok).map Prod.fst ++ (replay a.sends 0 t.retryQueue).2 =
        t.sent ++ t.retryQueue := by
      rw [List.filter_append, List.map_append, List.append_assoc, hpart]
      rfl
    rw [sent]
    exact hsent ▸ places
  · exact hsame ⟨rfl, rfl, rfl, rfl⟩
  · exact h

theorem Conserved.step {t : Task π} (h : t.Conserved) (label : TaskLabel π) :
    (t.step label).Conserved := by
  cases label with
  | notified requested forced a => exact (samePlaces_notified t requested forced a).conserved h
  | payload p outcome a => exact (h.tried p outcome).afterFailures a

theorem Conserved.run {t : Task π} (h : t.Conserved) (labels : List (TaskLabel π)) :
    (t.run labels).Conserved := by
  induction labels generalizing t with
  | nil => exact h
  | cons label labels ih => exact ih (h.step label)

theorem received_tried (t : Task π) (p : π) (outcome : Delivery) :
    (t.tried p outcome).received = t.received ++ [p] := by
  cases outcome <;> simp only [tried, retry] <;> split_ifs <;> rfl

theorem received_afterFailures (t : Task π) (a : Attempt) : (t.afterFailures a).received = t.received := by
  simp only [afterFailures]
  split_ifs <;> rfl

/-- What a run has taken are the payloads of its iterations, in their order. -/
theorem received_run (t : Task π) (labels : List (TaskLabel π)) :
    (t.run labels).received = t.received ++ labels.filterMap TaskLabel.taken := by
  induction labels generalizing t with
  | nil => exact (List.append_nil _).symm
  | cons label labels ih =>
    refine (ih (t.step label)).trans ?_
    cases label with
    | notified requested forced a =>
      rw [step, ← (samePlaces_notified t requested forced a).1]
      rfl
    | payload p outcome a =>
      rw [step, received_afterFailures, received_tried, List.append_assoc]
      rfl

/-- **No payload is lost or doubled**: after every run of the loop, which has taken the payloads of its
labels, each payload was confirmed sent, is in the queue or was dropped, together as often as it was taken,
and a payload taken once is in one of the three places once; what was dropped was dropped when the queue
was full; and the queue is bounded and in the order in which its payloads were taken. -/
theorem payloads_conserved [DecidableEq π] (now : ℕ) (labels : List (TaskLabel π)) :
    let t := (init now : Task π).run labels
    t.received = labels.filterMap TaskLabel.taken ∧
    (∀ p, t.received.count p =
        t.sent.count p + t.retryQueue.count p + (t.discarded.map Prod.fst).count p) ∧
      (∀ p, t.received.count p = 1 →
        (t.sent.count p = 1 ∧ p ∉ t.retryQueue ∧ p ∉ t.discarded.map Prod.fst) ∨
        (t.retryQueue.count p = 1 ∧ p ∉ t.sent ∧ p ∉ t.discarded.map Prod.fst) ∨
        ((t.discarded.map Prod.fst).count p = 1 ∧ p ∉ t.sent ∧ p ∉ t.retryQueue)) ∧
      (∀ d ∈ t.discarded, maxRetryQueue ≤ d.2) ∧ t.retryQueue.length ≤ maxRetryQueue ∧
      t.retryQueue.Sublist t.received := by
  intro t
  obtain ⟨places, bounded, ordered, full⟩ : t.Conserved := (conserved_init now).run labels
  have hcount : ∀ p, t.received.count p =
      t.sent.count p + t.retryQueue.count p + (t.discarded.map Prod.fst).count p := by
    intro p
    rw [places.count_eq p, List.count_append, List.count_append]
  refine ⟨received_run (init now) labels, hcount, fun p hp => ?_, full, bounded, ordered⟩
  have := hcount p
  simp only [← List.count_eq_zero]
  omega

/-! ### The record of broadcasts -/

theorem broadcasts_tried (t : Task π) (p : π) (outcome : Delivery) :
    (t.tried p outcome).broadcasts = t.broadcasts ++ [(p, outcome)] := by
  cases outcome <;> simp only [tried, retry] <;> split_ifs <;> rfl

theorem broadcasts_afterFailures (t : Task π) (a : Attempt) :
    t.broadcasts ⊆ (t.afterFailures a).broadcasts := by
  simp only [afterFailures]
  split_ifs
  · exact List.Subset.refl _
  · exact List.subset_append_left _ _
  · exact List.Subset.refl _
  · exact List.Subset.refl _

/-- A payload that is taken is on the record, with those before it. -/
theorem broadcasts_payload (t : Task π) (p : π) (outcome : Delivery) (a : Attempt) :
    t.broadcasts ++ [(p, outcome)] ⊆ (t.step (.payload p outcome a)).broadcasts := by
  rw [← broadcasts_tried]
  exact broadcasts_afterFailures _ a

/-- A notification adds nothing to the record. -/
theorem broadcasts_notified (t : Task π) (requested forced : Bool) (a : Attempt) :
    (t.step (.notified requested forced a)).broadcasts = t.broadcasts :=
  (samePlaces_notified t requested forced a).2.1.symm

/-! ### The two reconnects -/

/-- A notification leads to a reconnect that succeeds. -/
def NotifiedReconnects (t : Task π) (requested forced : Bool) (a : Attempt) : Prop :=
  (requested ∨ forced) ∧ (forced ∨ reconnectCooldown ≤ a.checked - t.lastReconnect) ∧ a.joined

/-- The failures lead to a reconnect that succeeds. -/
def FailuresReconnect (t : Task π) (a : Attempt) : Prop :=
  reconnectAfterFailures ≤ t.consecutiveFailures ∧
    reconnectCooldown ≤ a.checked - t.lastReconnect ∧ a.joined

/-- Two reconnects that succeed, from tasks with one queue and to senders that behave the same: the
first because the task was notified, the second because of failures. -/
structure TwoReconnects (t u : Task π) (requested forced : Bool) (a b : Attempt) : Prop where
  notified : t.NotifiedReconnects requested forced a
  failures : u.FailuresReconnect b
  queue : t.retryQueue = u.retryQueue
  sends : a.sends = b.sends

/-- The payloads broadcast between `t` and `u`. -/
def broadcastSince (t u : Task π) : List π := (u.broadcasts.drop t.broadcasts.length).map Prod.fst

/-- The two reconnects have the same effect on the queue, and where the new sender works they leave
nothing in it. -/
def SameEffect (t u t' u' : Task π) (sends : ℕ → Delivery) : Prop :=
  t'.retryQueue = u'.retryQueue ∧ broadcastSince t t' = broadcastSince u u' ∧
    ((∀ k, sends k = .ok) → t'.retryQueue = [] ∧ u'.retryQueue = [])

/-- A notification leaves the queue alone. -/
theorem queue_notified (t : Task π) (requested forced : Bool) (a : Attempt) :
    (t.notified requested forced a).retryQueue = t.retryQueue ∧
      broadcastSince t (t.notified requested forced a) = [] := by
  obtain ⟨-, hbroadcasts, hqueue, -⟩ := samePlaces_notified t requested forced a
  refine ⟨hqueue.symm, ?_⟩
  rw [broadcastSince, ← hbroadcasts, List.drop_length, List.map_nil]

/-- A reconnect because of failures replays it. -/
theorem queue_afterFailures {t : Task π} {a : Attempt} (h : t.FailuresReconnect a) :
    (t.afterFailures a).retryQueue = (replay a.sends 0 t.retryQueue).2 ∧
      broadcastSince t (t.afterFailures a) = (replay a.sends 0 t.retryQueue).1.map Prod.fst := by
  obtain ⟨hfailures, hcooldown, hjoined⟩ := h
  have heq : t.afterFailures a = { t.counted (t.consecutiveReconnects + 1) a.bound with
      retryQueue := (replay a.sends 0 t.retryQueue).2
      broadcasts := t.broadcasts ++ (replay a.sends 0 t.retryQueue).1
      consecutiveFailures := 0
      lastReconnect := a.finished } := by
    simp only [Task.afterFailures]
    rw [if_pos hfailures, if_neg (Nat.not_lt.2 hcooldown), if_pos hjoined]
    rfl
  rw [heq, broadcastSince]
  exact ⟨rfl, by rw [List.drop_left]⟩

/-- **The two reconnects** have the same effect exactly when there is nothing to replay. -/
theorem reconnects_agree_iff {t u : Task π} {requested forced : Bool} {a b : Attempt}
    (h : TwoReconnects t u requested forced a b) :
    SameEffect t u (t.notified requested forced a) (u.afterFailures b) a.sends ↔
      t.retryQueue = [] := by
  obtain ⟨-, hfailures, hqueue, hsends⟩ := h
  obtain ⟨hnqueue, hnsince⟩ := queue_notified t requested forced a
  obtain ⟨hfqueue, hfsince⟩ := queue_afterFailures hfailures
  rw [SameEffect, hnqueue, hnsince, hfqueue, hfsince, ← hsends, ← hqueue]
  constructor
  · rintro ⟨-, hsince, -⟩
    by_contra hne
    exact replay_ne_nil a.sends 0 hne (List.map_eq_nil_iff.1 hsince.symm)
  · intro hnil
    rw [hnil]
    exact ⟨rfl, rfl, fun _ => ⟨rfl, rfl⟩⟩

/-- A reconnect at some time that succeeds, with a sender that works. -/
def goodAttempt (now : ℕ) : Attempt := ⟨now, now, true, true, fun _ => .ok⟩

/-- The broadcast of a payload fails. -/
def fails (now : ℕ) (p : ℕ) : TaskLabel ℕ := .payload p .error (goodAttempt now)

/-- Five broadcasts have failed in the cooldown. -/
def afterFive : Task ℕ := (init 0).run ([1, 2, 3, 4, 5].map (fails 20000))

/-- The fifth is about to enter the failure branch. -/
def atFifth : Task ℕ := ((init 0).run ([1, 2, 3, 4].map (fails 20000))).tried 5 .error

theorem twoReconnects_afterFive :
    TwoReconnects afterFive atFifth true false (goodAttempt 40000) (goodAttempt 40000) :=
  have hchecked : (goodAttempt 40000).checked - afterFive.lastReconnect = 40000 := rfl
  ⟨⟨.inl rfl, .inr (by rw [hchecked]; decide), rfl⟩, ⟨by decide, by decide, rfl⟩, rfl, rfl⟩

/-- After five failures they do not. -/
theorem reconnects_agree_afterFive :
    afterFive.retryQueue = [1, 2, 3, 4, 5] ∧ ¬SameEffect afterFive atFifth
      (afterFive.notified true false (goodAttempt 40000)) (atFifth.afterFailures (goodAttempt 40000))
      (goodAttempt 40000).sends := by
  refine ⟨by decide, fun h => ?_⟩
  have hnil := (reconnects_agree_iff twoReconnects_afterFive).1 h
  revert hnil
  decide

/-- Five broadcasts fail. During the cooldown they stay in the queue, and a notification that comes
later leaves them there; after the cooldown the fifth failure replays them. -/
theorem notified_keeps_payloads :
    let t := (init 0).run ([1, 2, 3, 4, 5].map (fails 20000))
    let u := ((init 0).run ([1, 2, 3, 4].map (fails 20000))).tried 5 .error
    let a := goodAttempt 40000
    TwoReconnects t u true false a a ∧
      (t.notified true false a).retryQueue = [1, 2, 3, 4, 5] ∧ (u.afterFailures a).retryQueue = [] ∧
      ¬SameEffect t u (t.notified true false a) (u.afterFailures a) a.sends := by
  refine ⟨twoReconnects_afterFive, rfl, rfl, ?_⟩
  rintro ⟨hqueue, -, -⟩
  revert hqueue
  decide

end Task

end PodpingAlpha.Writer
