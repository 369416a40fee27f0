import PodpingAlpha.Library.Transition
import Mathlib.Data.List.TakeDrop
import Mathlib.Order.MinMax
import Mathlib.Logic.Function.Basic

/-!
# Broadcast channels

A bounded channel on which every message goes to every receiver. The channel holds the last `capacity`
messages. A receiver reads them at its own pace, from the first one sent after it subscribed, and passes
on those that its filter lets through; when the message it would read next is no longer there, it is
told so and goes on with the oldest that is.

A step is one operation of one party, so a list of actions is one interleaving.

* `sublist_run` — a receiver passes on messages that its filter lets through, in the order in which they
  were sent, none twice.
* `complete_iff_along` — it has passed on all of those it came to exactly when none of those is gone
  when it reads.
* `run_concerns` — what it passes on does not depend on the other receivers.
* `polls_spec`, `run_polls` — by reading on it gets everything that is still there.
-/

namespace PodpingAlpha.Fanout

open Transition

universe u v w

/-! ### The channel -/

/-- A channel. -/
structure Channel (α : Type u) (φ : Type w) where
  /-- How many messages it holds. -/
  capacity : ℕ
  /-- Whether a filter lets a message through. -/
  accepts : φ → α → Bool

/-- What a receiver finds. -/
inductive Recv (α : Type u) where
  | value (a : α)
  /-- So many messages are gone. -/
  | lagged (missed : ℕ)
  | empty

/-- A receiver. -/
structure Receiver (α : Type u) (φ : Type w) where
  /-- Which messages it wants. -/
  filter : φ
  /-- How many messages had been sent when it subscribed. -/
  start : ℕ
  /-- The number of the message it reads next. -/
  next : ℕ
  /-- What it passed on, oldest first. -/
  got : List α

/-- A channel and its receivers. -/
structure Hub (α : Type u) (φ : Type w) (ι : Type v) where
  /-- What was sent, oldest first. -/
  sent : List α
  /-- The receivers that are subscribed. -/
  receivers : ι → Option (Receiver α φ)

/-- What a party does. -/
inductive Action (α : Type u) (φ : Type w) (ι : Type v) where
  | send (a : α)
  | subscribe (i : ι) (filter : φ)
  /-- A receiver reads one message. -/
  | poll (i : ι)
  | unsubscribe (i : ι)

variable {α : Type u} {φ : Type w} {ι : Type v}

/-- The number of the oldest message that is still there. -/
def Channel.oldest (c : Channel α φ) (sent : List α) : ℕ := sent.length - c.capacity

/-- What a receiver finds that reads the `next`-th message, and which it reads after that. -/
def Channel.recv (c : Channel α φ) (sent : List α) (next : ℕ) : Recv α × ℕ :=
  if next < c.oldest sent then
    (.lagged (c.oldest sent - next), c.oldest sent)
  else
    match sent[next]? with
    | some a => (.value a, next + 1)
    | none => (.empty, next)

/-- A new receiver. -/
def Receiver.new (filter : φ) (sent : List α) : Receiver α φ where
  filter := filter
  start := sent.length
  next := sent.length
  got := []

/-- A receiver reads. -/
def Receiver.poll (c : Channel α φ) (sent : List α) (r : Receiver α φ) : Receiver α φ :=
  match c.recv sent r.next with
  | (.value a, next) =>
    { r with next := next, got := if c.accepts r.filter a then r.got ++ [a] else r.got }
  | (_, next) => { r with next := next }

variable [DecidableEq ι]

/-- The receiver `i` changes. -/
def Hub.set (s : Hub α φ ι) (i : ι) (r : Option (Receiver α φ)) : Hub α φ ι :=
  { s with receivers := Function.update s.receivers i r }

/-- One step of one party. -/
def step (c : Channel α φ) (s : Hub α φ ι) : Action α φ ι → Option (Hub α φ ι)
  | .send a => some { s with sent := s.sent ++ [a] }
  | .subscribe i filter =>
    match s.receivers i with
    | none => some (s.set i (some (.new filter s.sent)))
    | some _ => none
  | .poll i => (s.receivers i).map fun r => s.set i (some (r.poll c s.sent))
  | .unsubscribe i => (s.receivers i).map fun _ => s.set i none

theorem receivers_set_self (s : Hub α φ ι) (i : ι) (r : Option (Receiver α φ)) :
    (s.set i r).receivers i = r := Function.update_self ..

theorem receivers_set_of_ne (s : Hub α φ ι) {i j : ι} (h : j ≠ i) (r : Option (Receiver α φ)) :
    (s.set i r).receivers j = s.receivers j := Function.update_of_ne h ..

/-! ### What a receiver came to -/

/-- The wanted messages among those from number `m` to number `n`. -/
def Receiver.between (c : Channel α φ) (r : Receiver α φ) (sent : List α) (m n : ℕ) : List α :=
  ((sent.take n).drop m).filter (c.accepts r.filter)

/-- The wanted messages that the receiver came to since it subscribed. -/
def Receiver.due (c : Channel α φ) (sent : List α) (r : Receiver α φ) : List α :=
  r.between c sent r.start r.next

/-- The wanted messages that are gone, of those it has not come to. -/
def Receiver.lost (c : Channel α φ) (sent : List α) (r : Receiver α φ) : List α :=
  r.between c sent r.next (c.oldest sent)

/-- A receiver has not read what was not sent, and has passed on what it came to, or some of it. -/
structure Receiver.Sound (c : Channel α φ) (sent : List α) (r : Receiver α φ) : Prop where
  /-- It reads on. -/
  start_le : r.start ≤ r.next
  /-- What was sent. -/
  next_le : r.next ≤ sent.length
  /-- In the order in which it was sent. -/
  got_sublist : r.got.Sublist (r.due c sent)

variable {c : Channel α φ} {sent : List α} {r : Receiver α φ}

theorem between_append {m n k : ℕ} (hm : m ≤ n) (hn : n ≤ k) :
    r.between c sent m k = r.between c sent m n ++ r.between c sent n k := by
  rw [Receiver.between, Receiver.between, Receiver.between, ← List.filter_append]
  congr 1
  have htake : sent.take k = sent.take n ++ (sent.take k).drop n := by
    conv_lhs => rw [← List.take_append_drop n (sent.take k), List.take_take, min_eq_left hn]
  by_cases hlen : n ≤ sent.length
  · conv_lhs => rw [htake]
    rw [List.drop_append_of_le_length]
    rwa [List.length_take, min_eq_left hlen]
  · have hall : sent.take k = sent.take n := by
      rw [List.take_of_length_le (by omega), List.take_of_length_le (by omega)]
    rw [hall, List.drop_of_length_le (by rw [List.length_take]; omega : (sent.take n).length ≤ n),
      List.append_nil]

theorem between_of_le {m n : ℕ} (h : n ≤ m) : r.between c sent m n = [] := by
  rw [Receiver.between, List.drop_of_length_le, List.filter_nil]
  rw [List.length_take]
  omega

/-- What was sent stays where it is. -/
theorem between_concat {m n : ℕ} (hn : n ≤ sent.length) (a : α) :
    r.between c (sent ++ [a]) m n = r.between c sent m n := by
  rw [Receiver.between, List.take_append_of_le_length hn]
  rfl

theorem between_singleton {n : ℕ} {a : α} (h : sent[n]? = some a) :
    r.between c sent n (n + 1) = if c.accepts r.filter a then [a] else [] := by
  obtain ⟨hn, rfl⟩ := List.getElem?_eq_some_iff.1 h
  rw [Receiver.between, List.take_add_one, h, Option.toList_some,
    List.drop_left' (by rw [List.length_take]; omega), List.filter_cons, List.filter_nil]

/-! ### Reading -/

/-- A receiver goes on with the oldest message, reads one, or has read them all. -/
theorem poll_cases (c : Channel α φ) (sent : List α) (r : Receiver α φ) :
    (r.next < c.oldest sent ∧
        r.poll c sent = { r with next := c.oldest sent }) ∨
      (c.oldest sent ≤ r.next ∧ ∃ a, sent[r.next]? = some a ∧
        r.poll c sent =
          { r with next := r.next + 1, got := r.got ++ if c.accepts r.filter a then [a] else [] }) ∨
      (c.oldest sent ≤ r.next ∧ sent.length ≤ r.next ∧ r.poll c sent = r) := by
  unfold Receiver.poll Channel.recv
  by_cases hlag : r.next < c.oldest sent
  · rw [if_pos hlag]
    exact .inl ⟨hlag, rfl⟩
  · rw [if_neg hlag]
    refine .inr ?_
    cases hread : sent[r.next]? with
    | none => exact .inr ⟨Nat.not_lt.1 hlag, List.getElem?_eq_none_iff.1 hread, rfl⟩
    | some a =>
      refine .inl ⟨Nat.not_lt.1 hlag, a, rfl, ?_⟩
      by_cases hfilter : c.accepts r.filter a
      · simp only [if_pos hfilter]
      · simp only [if_neg hfilter, List.append_nil]

theorem poll_same (c : Channel α φ) (sent : List α) (r : Receiver α φ) :
    (r.poll c sent).filter = r.filter ∧ (r.poll c sent).start = r.start := by
  rcases poll_cases c sent r with ⟨-, hpoll⟩ | ⟨-, a, -, hpoll⟩ | ⟨-, -, hpoll⟩
  · rw [hpoll]
    exact ⟨rfl, rfl⟩
  · rw [hpoll]
    exact ⟨rfl, rfl⟩
  · rw [hpoll]
    exact ⟨rfl, rfl⟩

/-- **What a receiver does when it reads**: it comes to what is gone, and to what it passes on. -/
theorem poll_spec (hr : r.Sound c sent) :
    r.next ≤ (r.poll c sent).next ∧ (r.poll c sent).next ≤ sent.length ∧
      ∃ new, (r.poll c sent).got = r.got ++ new ∧
        (r.poll c sent).due c sent = r.due c sent ++ (r.lost c sent ++ new) := by
  rcases poll_cases c sent r with ⟨hlag, hpoll⟩ | ⟨hle, a, hread, hpoll⟩ | ⟨hle, -, hpoll⟩
  · rw [hpoll]
    refine ⟨Nat.le_of_lt hlag, Nat.sub_le _ _, [], (List.append_nil _).symm, ?_⟩
    rw [List.append_nil]
    exact between_append hr.start_le (Nat.le_of_lt hlag)
  · obtain ⟨hlt, -⟩ := List.getElem?_eq_some_iff.1 hread
    have hlost : r.lost c sent = [] := between_of_le hle
    rw [hpoll, hlost]
    refine ⟨Nat.le_succ _, hlt, _, rfl, ?_⟩
    rw [List.nil_append, ← between_singleton hread]
    exact between_append hr.start_le (Nat.le_succ _)
  · have hlost : r.lost c sent = [] := between_of_le hle
    rw [hpoll, hlost]
    exact ⟨Nat.le_refl _, hr.next_le, [], (List.append_nil _).symm, (List.append_nil _).symm⟩

theorem sound_new (filter : φ) (sent : List α) : (Receiver.new filter sent).Sound c sent where
  start_le := le_rfl
  next_le := le_rfl
  got_sublist := List.nil_sublist _

theorem Receiver.Sound.poll (hr : r.Sound c sent) : (r.poll c sent).Sound c sent := by
  obtain ⟨hnext, hle, new, hgot, hdue⟩ := poll_spec hr
  refine ⟨by rw [(poll_same c sent r).2]; exact hr.start_le.trans hnext, hle, ?_⟩
  rw [hgot, hdue]
  exact hr.got_sublist.append (List.sublist_append_right _ _)

theorem due_concat (hr : r.Sound c sent) (a : α) : r.due c (sent ++ [a]) = r.due c sent :=
  between_concat hr.next_le a

theorem Receiver.Sound.concat (hr : r.Sound c sent) (a : α) : r.Sound c (sent ++ [a]) where
  start_le := hr.start_le
  next_le := by
    rw [List.length_append]
    exact hr.next_le.trans (Nat.le_add_right _ _)
  got_sublist := by
    rw [due_concat hr]
    exact hr.got_sublist

/-- **By reading on it gets everything that is still there.** -/
theorem polls_spec (n : ℕ) (hr : r.Sound c sent) (hn : sent.length ≤ r.next + n) :
    ((Receiver.poll c sent)^[n] r).next = sent.length ∧
      ((Receiver.poll c sent)^[n] r).got =
        r.got ++ r.between c sent (max r.next (c.oldest sent)) sent.length := by
  induction n generalizing r with
  | zero =>
    have hnext : r.next = sent.length := le_antisymm hr.next_le hn
    refine ⟨hnext, ?_⟩
    rw [between_of_le (hnext ▸ le_max_left _ _), List.append_nil]
    rfl
  | succ n ih =>
    rw [Function.iterate_succ_apply]
    have hsound := hr.poll
    rcases poll_cases c sent r with ⟨hlag, hpoll⟩ | ⟨hle, a, hread, hpoll⟩ | ⟨hle, hend, hpoll⟩
    · rw [hpoll] at hsound ⊢
      obtain ⟨hnext, hgot⟩ := ih hsound (by show _ ≤ c.oldest sent + n; omega)
      refine ⟨hnext, hgot.trans ?_⟩
      rw [max_self, max_eq_right (Nat.le_of_lt hlag)]
      rfl
    · rw [hpoll] at hsound ⊢
      obtain ⟨hlt, -⟩ := List.getElem?_eq_some_iff.1 hread
      obtain ⟨hnext, hgot⟩ := ih hsound (by show _ ≤ r.next + 1 + n; omega)
      refine ⟨hnext, hgot.trans ?_⟩
      rw [max_eq_left hle, max_eq_left (Nat.le_succ_of_le hle), List.append_assoc,
        between_append (Nat.le_succ r.next) hlt, between_singleton hread]
      rfl
    · rw [hpoll]
      exact ih hr (by omega)

/-! ### The system -/

variable {s t : Hub α φ ι} {a : Action α φ ι} {as : List (Action α φ ι)} {i : ι}

/-- Every receiver is sound. -/
def Sound (c : Channel α φ) (s : Hub α φ ι) : Prop :=
  ∀ i r, s.receivers i = some r → r.Sound c s.sent

/-- What a receiver has come to, it has passed on. -/
def Complete (c : Channel α φ) (i : ι) (s : Hub α φ ι) : Prop :=
  ∀ r, s.receivers i = some r → r.got = r.due c s.sent

/-- When the receiver reads, nothing that it wants is gone. -/
def InTime (c : Channel α φ) (i : ι) (s : Hub α φ ι) (a : Action α φ ι) : Prop :=
  a = .poll i → ∀ r, s.receivers i = some r → r.lost c s.sent = []

/-- The action is a send, or by this receiver. -/
def concerns (i : ι) : Action α φ ι → Bool
  | .send _ => true
  | .subscribe j _ | .poll j | .unsubscribe j => j = i

/-- **What a step does to a receiver.** -/
inductive Change (c : Channel α φ) (i : ι) (s : Hub α φ ι) : Action α φ ι → Hub α φ ι → Prop where
  | sent (a : α) : Change c i s (.send a) { s with sent := s.sent ++ [a] }
  | subscribed (filter : φ) {t : Hub α φ ι} (hsent : t.sent = s.sent)
      (hi : t.receivers i = some (.new filter s.sent)) : Change c i s (.subscribe i filter) t
  | polled {r : Receiver α φ} {t : Hub α φ ι} (hr : s.receivers i = some r) (hsent : t.sent = s.sent)
      (hi : t.receivers i = some (r.poll c s.sent)) : Change c i s (.poll i) t
  | unsubscribed {t : Hub α φ ι} (hsent : t.sent = s.sent) (hi : t.receivers i = none) :
      Change c i s (.unsubscribe i) t
  | other {a : Action α φ ι} {t : Hub α φ ι} (ha : concerns i a = false) (hsent : t.sent = s.sent)
      (hi : t.receivers i = s.receivers i) : Change c i s a t

theorem change_of_step (i : ι) (h : step c s a = some t) : Change c i s a t := by
  cases a with
  | send a =>
    cases h
    exact .sent a
  | subscribe j filter =>
    simp only [step] at h
    split at h
    · cases h
      by_cases hj : j = i
      · subst hj
        exact .subscribed filter rfl (receivers_set_self ..)
      · exact .other (decide_eq_false hj) rfl (receivers_set_of_ne s (Ne.symm hj) _)
    · cases h
  | poll j =>
    obtain ⟨r, hr, rfl⟩ := Option.map_eq_some_iff.1 h
    by_cases hj : j = i
    · subst hj
      exact .polled hr rfl (receivers_set_self ..)
    · exact .other (decide_eq_false hj) rfl (receivers_set_of_ne s (Ne.symm hj) _)
  | unsubscribe j =>
    obtain ⟨r, hr, rfl⟩ := Option.map_eq_some_iff.1 h
    by_cases hj : j = i
    · subst hj
      exact .unsubscribed rfl (receivers_set_self ..)
    · exact .other (decide_eq_false hj) rfl (receivers_set_of_ne s (Ne.symm hj) _)

theorem sound_step (hs : Sound c s) (h : step c s a = some t) : Sound c t := by
  intro i r hr
  cases change_of_step i h with
  | sent a => exact (hs i r hr).concat a
  | subscribed filter hsent hi =>
    rw [hi] at hr
    cases hr
    rw [hsent]
    exact sound_new filter s.sent
  | polled hr' hsent hi =>
    rw [hi] at hr
    cases hr
    rw [hsent]
    exact (hs i _ hr').poll
  | unsubscribed hsent hi =>
    rw [hi] at hr
    cases hr
  | other ha hsent hi =>
    rw [hi] at hr
    rw [hsent]
    exact hs i r hr

/-- **Order**: in every run a receiver passes on messages that it wants, in the order in which they were
sent and none twice. -/
theorem sublist_run (hs : Sound c s) (h : run (step c) s as = some t) {i : ι} {r : Receiver α φ}
    (hr : t.receivers i = some r) : r.got.Sublist (r.due c t.sent) :=
  (inv_run (fun _ _ _ => sound_step) hs h i r hr).got_sublist

theorem complete_step (hs : Sound c s) (hc : Complete c i s) (h : step c s a = some t) :
    Complete c i t ↔ InTime c i s a := by
  cases change_of_step i h with
  | sent a =>
    refine iff_of_true (fun r hr => ?_) nofun
    rw [due_concat (hs i r hr)]
    exact hc r hr
  | subscribed filter hsent hi =>
    refine iff_of_true (fun r hr => ?_) nofun
    rw [hi] at hr
    cases hr
    exact (between_of_le le_rfl).symm
  | polled hr hsent hi =>
    obtain ⟨-, -, new, hgot, hdue⟩ := poll_spec (hs i _ hr)
    have hcomplete := hc _ hr
    constructor
    · intro ht _ r hr'
      cases hr.symm.trans hr'
      have heq := ht _ hi
      rw [hsent, hgot, hdue, hcomplete, List.append_cancel_left_eq] at heq
      exact List.self_eq_append_left.1 heq
    · intro hin r hr'
      cases hi.symm.trans hr'
      rw [hsent, hgot, hdue, hcomplete, hin rfl _ hr, List.nil_append]
  | unsubscribed hsent hi =>
    refine iff_of_true (fun r hr => ?_) nofun
    rw [hi] at hr
    cases hr
  | other ha hsent hi =>
    refine iff_of_true (fun r hr => ?_) fun hpoll => ?_
    · rw [hi] at hr
      rw [hsent]
      exact hc r hr
    · subst hpoll
      exact absurd ha (by simp [concerns])

/-- **Completeness**: all along a run a receiver has passed on everything it came to exactly when nothing
that it wants is gone when it reads. -/
theorem complete_iff_along (hs : Sound c s) (hc : Complete c i s) (h : run (step c) s as = some t) :
    (∀ pre u, pre <+: as → run (step c) s pre = some u → Complete c i u) ↔
      Along (step c) (InTime c i) s as :=
  always_iff_along (I := Sound c) (A := fun _ => True) (fun _ _ _ hs _ => sound_step hs)
    (fun _ _ _ hs hc _ => complete_step hs hc) hs hc (fun _ _ => trivial) h

/-- The systems look the same to the receiver. -/
def Agree (i : ι) (s s' : Hub α φ ι) : Prop := s'.sent = s.sent ∧ s'.receivers i = s.receivers i

/-- What concerns the receiver is enabled in both, and they look the same after it. -/
theorem agree_step {s' u : Hub α φ ι} (h : Agree i s s') (ha : concerns i a = true)
    (hu : step c s a = some u) : ∃ u', step c s' a = some u' ∧ Agree i u u' := by
  obtain ⟨hsent, hi⟩ := h
  cases a with
  | send a =>
    cases hu
    exact ⟨_, rfl, congrArg (· ++ [a]) hsent, hi⟩
  | subscribe j filter =>
    obtain rfl : j = i := of_decide_eq_true ha
    simp only [step] at hu ⊢
    rw [hi]
    split at hu
    · cases hu
      refine ⟨_, rfl, hsent, ?_⟩
      rw [hsent]
      exact (receivers_set_self ..).trans (receivers_set_self ..).symm
    · cases hu
  | poll j =>
    obtain rfl : j = i := of_decide_eq_true ha
    obtain ⟨r, hr, rfl⟩ := Option.map_eq_some_iff.1 hu
    refine ⟨_, Option.map_eq_some_iff.2 ⟨r, hi.trans hr, rfl⟩, hsent, ?_⟩
    rw [hsent]
    exact (receivers_set_self ..).trans (receivers_set_self ..).symm
  | unsubscribe j =>
    obtain rfl : j = i := of_decide_eq_true ha
    obtain ⟨r, hr, rfl⟩ := Option.map_eq_some_iff.1 hu
    exact ⟨_, Option.map_eq_some_iff.2 ⟨r, hi.trans hr, rfl⟩, hsent,
      (receivers_set_self ..).trans (receivers_set_self ..).symm⟩

/-- What does not concern the receiver it does not see. -/
theorem agree_of_not_concerns {u : Hub α φ ι} (ha : ¬concerns i a = true)
    (hu : step c s a = some u) : Agree i u s := by
  cases change_of_step i hu with
  | sent a => exact absurd rfl ha
  | subscribed filter => exact absurd (decide_eq_true rfl) ha
  | polled => exact absurd (decide_eq_true rfl) ha
  | unsubscribed => exact absurd (decide_eq_true rfl) ha
  | other _ hsent hi => exact ⟨hsent.symm, hi.symm⟩

/-- **Isolation**: a receiver passes on what it would pass on if the others were not there. -/
theorem run_concerns {s' : Hub α φ ι} (hs : Agree i s s') (h : run (step c) s as = some t) :
    ∃ t', run (step c) s' (as.filter (concerns i)) = some t' ∧ Agree i t t' := by
  induction as generalizing s s' with
  | nil =>
    cases h
    exact ⟨s', rfl, hs⟩
  | cons a as ih =>
    obtain ⟨u, hu, hr⟩ := run_cons_eq_some.1 h
    by_cases ha : concerns i a
    · obtain ⟨u', hu', hagree⟩ := agree_step hs ha hu
      obtain ⟨t', ht', hfinal⟩ := ih hagree hr
      rw [List.filter_cons_of_pos ha]
      exact ⟨t', run_cons_eq_some.2 ⟨u', hu', ht'⟩, hfinal⟩
    · obtain ⟨hsent, hi⟩ := agree_of_not_concerns ha hu
      rw [List.filter_cons_of_neg ha]
      exact ih ⟨hs.1.trans hsent, hs.2.trans hi⟩ hr

/-- A receiver that reads `n` times. -/
theorem run_polls (n : ℕ) (hr : s.receivers i = some r) :
    ∃ t, run (step c) s (List.replicate n (.poll i)) = some t ∧ t.sent = s.sent ∧
      t.receivers i = some ((Receiver.poll c s.sent)^[n] r) := by
  induction n generalizing s r with
  | zero => exact ⟨s, rfl, rfl, hr⟩
  | succ n ih =>
    have hstep : step c s (.poll i) = some (s.set i (some (r.poll c s.sent))) :=
      Option.map_eq_some_iff.2 ⟨r, hr, rfl⟩
    obtain ⟨t, ht, hsent, hi⟩ := ih (receivers_set_self s i (some (r.poll c s.sent)))
    exact ⟨t, run_cons_eq_some.2 ⟨_, hstep, ht⟩, hsent, hi⟩

end PodpingAlpha.Fanout
