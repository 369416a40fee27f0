import PodpingAlpha.Listener.Authentic

/-!
# The reports of sequence gaps

`handle_event` keeps the number of the last notification of each sender. When a notification has a
number beyond the next one, it reports those in between as missing, whatever it has received before.

## The model

An observer notes the number of every notification that is received, from a neighbor or from the
archive of a peer, and whether the detector was given it.

## What is proved

* `gaps_handle` — what an input does to the last numbers and the reports.
* `Remembers.step` — the last numbers are those that the detector was given last.
* `gaps_truthful_iff` — all reports are true and all sums exact, exactly when no number between the last one
  and the next was received before, and no last one is the greatest.
* `late_reported` — four notifications, one of which is late.
-/

namespace PodpingAlpha.Listener

open Outcome Text Transition

/-! ### The observer -/

/-- A number that was received. -/
structure Receipt where
  /-- Who sent it. -/
  sender : String
  /-- The number. -/
  seq : UInt64
  /-- It came from a neighbor, and passed the gate. -/
  taken : Bool
  deriving DecidableEq

/-- The input comes from a neighbor. -/
def Input.isLive : Input → Bool
  | .live _ => true
  | .catchup _ => false

/-- The gate lets the notification pass. -/
def Passes (s : Node) (n : GossipNotification) : Prop :=
  s.trustedPublishers.poisoned = false ∧ Admitted s.trustedPublishers.value n

instance (s : Node) (n : GossipNotification) : Decidable (Passes s n) :=
  inferInstanceAs (Decidable (_ ∧ _))

/-- The number in an input. -/
def receipt? (env : Env) (s : Node) (a : Input) : Option Receipt :=
  (notification? env a).bind fun n => n.seq.map fun seq => ⟨n.sender, seq, a.isLive && Passes s n⟩

/-- The observer notes it. -/
def watchReceipts (env : Env) (log : List Receipt) (s : Node) (a : Moment × Input) (_ : Node) :
    List Receipt := log ++ (receipt? env s a.2).toList

/-- The number of a sender that the detector was given last. -/
def lastTaken (log : List Receipt) (sender : String) : Option UInt64 :=
  ((log.filter fun r => r.taken && r.sender = sender).getLast?).map Receipt.seq

/-- The number was received from the sender. -/
def Heard (log : List Receipt) (sender : String) (seq : UInt64) : Prop :=
  ∃ r ∈ log, r.sender = sender ∧ r.seq = seq

/-! ### The detector -/

/-- What becomes of the last numbers, and what is reported. -/
inductive Tracked (env : Env) (lock : Lock Seqs) (sender : String) (seq : UInt64) :
    Lock Seqs → List Gap → Prop where
  /-- The lock is poisoned. -/
  | poisoned (h : lock.poisoned = true) : Tracked env lock sender seq lock []
  /-- The sum overflows. -/
  | overflow (last : UInt64) (hlast : lock.value.lookup sender = some last)
      (hchecks : env.overflowChecks = true) (hmax : last.toNat = 2 ^ 64 - 1) :
      Tracked env lock sender seq ⟨lock.value, true⟩ []
  /-- The report cannot be printed. -/
  | torn (last : UInt64) (hlast : lock.value.lookup sender = some last) (hcuts : ¬Cuts 8 sender) :
      Tracked env lock sender seq ⟨lock.value, true⟩ []
  /-- A gap is reported. -/
  | gap (hfree : lock.poisoned = false) (last next : UInt64)
      (hlast : lock.value.lookup sender = some last) (hnext : nextSeq env last = .ok next)
      (hlt : next < seq) (display : String) (hcuts : Cuts 8 sender) :
      Tracked env lock sender seq ⟨lock.value.insert sender seq, false⟩
        [⟨display, next, seq, seq - last - 1⟩]
  /-- There is none. -/
  | noted (hfree : lock.poisoned = false)
      (hnone : ∀ last ∈ lock.value.lookup sender, ∃ next, nextSeq env last = .ok next ∧ ¬next < seq) :
      Tracked env lock sender seq ⟨lock.value.insert sender seq, false⟩ []

variable {env : Env} {s : Node} {m : Moment} {n : GossipNotification} {seq : UInt64}

theorem tracked_hold (env : Env) (lock : Lock Seqs) (sender : String) (seq : UInt64) :
    wp (Lock.hold (trackSeq env sender seq))
      (fun gap lock' => Tracked env lock sender seq lock' gap.toList)
      (fun _ lock' => Tracked env lock sender seq lock' []) lock := by
  rw [wp_hold]
  cases hpoisoned : lock.poisoned with
  | true => exact .poisoned hpoisoned
  | false =>
    rw [if_neg Bool.false_ne_true, trackSeq]
    rw [wp_bind, wp_get]
    cases hlast : lock.value.lookup sender with
    | none => exact .noted hpoisoned fun last h => by rw [hlast] at h; cases h
    | some last =>
      show wp (ofPure (nextSeq env last) >>= _) _ _ _
      cases hnext : nextSeq env last with
      | error p =>
        unfold nextSeq at hnext
        split_ifs at hnext with hover
        exact .overflow last hlast hover.1 hover.2
      | ok next =>
        rw [wp_bind, wp_ofPure_ok rfl, wp_ite]
        split_ifs with hlt
        · rw [wp_bind, wp_cut]
          cases hshort : short 8 sender with
          | none => exact .torn last hlast (by rw [Cuts, hshort]; exact Bool.false_ne_true)
          | some display =>
            exact .gap hpoisoned last next hlast hnext hlt display (by rw [Cuts, hshort]; rfl)
        · refine .noted hpoisoned fun last' h => ?_
          rw [hlast] at h
          cases h
          exact ⟨next, hnext, hlt⟩

/-! ### A step -/

/-- The last numbers and the reports. -/
def Node.tracking (s : Node) : Lock Seqs × List Gap := (s.lastSeqPerSender, s.gaps)

/-- What becomes of them, when the detector is given a number or is not. -/
inductive Noticed (env : Env) (s : Node) : Option Receipt → Node → Prop where
  /-- It is given none. -/
  | none {r : Option Receipt} {t : Node} (hnot : ∀ r' ∈ r, r'.taken = false)
      (h : t.tracking = s.tracking) : Noticed env s r t
  /-- It is given one. -/
  | taken {r : Receipt} {t : Node} (htaken : r.taken = true) (new : List Gap)
      (h : t.gaps = s.gaps ++ new)
      (htracked : Tracked env s.lastSeqPerSender r.sender r.seq t.lastSeqPerSender new) :
      Noticed env s (some r) t

theorem noticed_recordSeq (hseq : n.seq = some seq) :
    let noticed : Node → Prop := fun t => ∃ new, t.gaps = s.gaps ++ new ∧
      Tracked env s.lastSeqPerSender n.sender seq t.lastSeqPerSender new
    wp (recordSeq env n) (fun _ => noticed) (fun _ => noticed) s := by
  intro noticed
  rw [recordSeq, hseq]
  rw [wp_bind, wp_zoom]
  refine wp_mono (fun gap lock h => ?_) (fun _ lock h => ?_)
    (tracked_hold env s.lastSeqPerSender n.sender seq)
  · exact ⟨gap.toList, rfl, h⟩
  · exact ⟨[], (List.append_nil _).symm, h⟩

theorem Noticed.congr {s' t : Node} {r : Option Receipt} (h : Noticed env s r t)
    (hs : s'.tracking = s.tracking) : Noticed env s' r t := by
  obtain ⟨hlock, hgaps⟩ := Prod.mk.inj hs
  cases h with
  | none hnot h => exact .none hnot (h.trans hs.symm)
  | taken htaken new h htracked => exact .taken htaken new (hgaps ▸ h) (hlock ▸ htracked)

theorem after_gated_of_not_passes (h : ¬Passes s n) (body : Program Node Unit) :
    after (gated n body) s = s := by
  rw [← wp_after (P := fun t => t = s), wp_gated]
  split_ifs with hpoisoned hadm
  · rfl
  · exact absurd ⟨Bool.eq_false_of_not_eq_true hpoisoned, hadm⟩ h
  · rfl

/-- A notification behind the gate. -/
theorem noticed_gated (m : Moment) (raw : Bytes) : Noticed env s
    (n.seq.map fun seq => ⟨n.sender, seq, true && Passes s n⟩)
    (after (gated n do recordSeq env n; showNotification env m raw n) s) := by
  have hshow : Keeps Node.tracking (showNotification env m raw n) :=
    keeps_showNotification (fun _ _ _ => rfl) env m raw n
  by_cases hpasses : Passes s n
  · obtain ⟨hfree, hadm⟩ := hpasses
    refine (wp_after (P := Noticed env s (n.seq.map _))).1 ?_
    rw [wp_gated, hfree, if_neg Bool.false_ne_true, if_pos hadm, wp_bind]
    cases hseq : n.seq with
    | none =>
      rw [recordSeq, hseq]
      show wp (showNotification env m raw n) (fun _ => Noticed env s none)
        (fun _ => Noticed env s none) s
      refine wp_mono (fun _ t ht => ?_) (fun _ t ht => ?_) hshow.wp
      all_goals exact .none (fun _ hr => by cases hr) ht
    | some seq =>
      have htaken : (true && decide (Passes s n)) = true := decide_eq_true ⟨hfree, hadm⟩
      refine wp_mono (fun _ t ht => ?_) (fun _ t ht => ?_) (noticed_recordSeq hseq)
      · obtain ⟨new, hgaps, htracked⟩ := ht
        refine wp_mono (fun _ u hu => ?_) (fun _ u hu => ?_) hshow.wp
        all_goals
          obtain ⟨hlock, hsame⟩ := Prod.mk.inj hu
          exact .taken htaken new (hsame.trans hgaps) (hlock ▸ htracked)
      · obtain ⟨new, hgaps, htracked⟩ := ht
        exact .taken htaken new hgaps htracked
  · rw [after_gated_of_not_passes hpasses]
    refine .none (fun r hr => ?_) rfl
    obtain ⟨seq, -, rfl⟩ := Option.map_eq_some_iff.1 hr
    exact decide_eq_false hpasses

theorem noticed_handleMessage (raw : Bytes) (msg : Incoming) : Noticed env s
    (msg.notification?.bind fun n => n.seq.map fun seq => ⟨n.sender, seq, true && Passes s n⟩)
    (after (handleMessage env m raw msg) s) := by
  have hnone : ∀ r ∈ (none : Option Receipt), r.taken = false := fun _ hr => by cases hr
  cases msg with
  | suggest g => exact .none hnone (keeps_suggest (fun _ _ => rfl) env m g s)
  | announce a => exact .none hnone (keeps_announce (fun _ _ => rfl) (fun _ _ => rfl) env m a s)
  | endorse a =>
    exact .none hnone
      (keeps_endorse (fun _ _ => rfl) (fun _ _ => rfl) (fun _ _ => rfl) env m a s)
  | ignored => exact .none hnone rfl
  | notification n =>
    let u : Node :=
      { s with
        lastNotificationTime := m.now
        notificationsReceived := s.notificationsReceived + 1 }
    have hgated : Noticed env u (n.seq.map _) _ := noticed_gated m raw
    show Noticed env s _ (after (handleNotification env m raw n) s)
    rw [handleNotification]
    rw [after_modify_bind]
    exact hgated.congr rfl

/-- **What an input does** to the last numbers and the reports. -/
theorem gaps_handle (s : Node) (a : Moment × Input) :
    Noticed env s (receipt? env s a.2) (after (handle env a.1 a.2) s) := by
  obtain ⟨m, a⟩ := a
  have hnone : ∀ r ∈ (none : Option Receipt), r.taken = false := fun _ hr => by cases hr
  cases a with
  | live ev =>
    cases ev with
    | received content deliveredFrom =>
      let u : Node := { s with uniqueSources := insert deliveredFrom s.uniqueSources }
      have hmessage : Noticed env u _ (after (handleMessage env m content (classify env content)) u) :=
        noticed_handleMessage content (classify env content)
      exact hmessage.congr rfl
    | neighborUp nodeId =>
      exact .none hnone (keeps_neighborUp (fun _ _ _ => rfl) (fun _ _ _ _ => rfl) env m nodeId s)
    | neighborDown nodeId =>
      exact .none hnone (keeps_neighborDown (fun _ _ _ => rfl) env m nodeId s)
    | lagged => exact .none hnone rfl
  | catchup payload =>
    refine .none (fun r hr => ?_) (keeps_catchup (fun _ _ _ => rfl) env m payload s)
    obtain ⟨n, -, hn⟩ := Option.bind_eq_some_iff.1 hr
    obtain ⟨seq, -, rfl⟩ := Option.map_eq_some_iff.1 hn
    rfl

/-! ### The last numbers -/

variable {log : List Receipt} {r : Receipt} {sender : String}

theorem lastTaken_concat : lastTaken (log ++ [r]) sender =
    if r.taken = true ∧ r.sender = sender then some r.seq else lastTaken log sender := by
  rw [lastTaken, List.filter_append, List.filter_singleton]
  split_ifs with h
  · have hkeep : (r.taken && decide (r.sender = sender)) = true := by simpa using h
    rw [hkeep, cond_true, List.getLast?_concat]
    rfl
  · have hdrop : (r.taken && decide (r.sender = sender)) = false := by simpa using h
    rw [hdrop, cond_false, List.append_nil]
    rfl

/-- As long as the lock is free, the last numbers are those that the detector was given last. -/
def Remembers (q : Node × List Receipt) : Prop :=
  q.1.lastSeqPerSender.poisoned = false →
    ∀ sender, q.1.lastSeqPerSender.value.lookup sender = lastTaken q.2 sender

/-- The listener, observed. -/
def heardStep (env : Env) : Node × List Receipt → Moment × Input → Option (Node × List Receipt) :=
  observed (handleStep env) (watchReceipts env)

theorem lookup_insert_eq {seqs : Seqs} (h : seqs.lookup sender = lastTaken log sender)
    (hr : r.taken = true) : (seqs.insert r.sender r.seq).lookup sender =
      lastTaken (log ++ [r]) sender := by
  rw [lastTaken_concat]
  by_cases hsender : r.sender = sender
  · rw [if_pos ⟨hr, hsender⟩, ← hsender, Finmap.lookup_insert]
  · rw [if_neg fun hboth => hsender hboth.2, Finmap.lookup_insert_of_ne _ (Ne.symm hsender), h]

/-- **A step keeps it**. -/
theorem Remembers.step {q q' : Node × List Receipt} {a : Moment × Input} (h : Remembers q)
    (hstep : heardStep env q a = some q') : Remembers q' := by
  cases hstep
  have hnoticed : Noticed env q.1 (receipt? env q.1 a.2) (after (handle env a.1 a.2) q.1) :=
    gaps_handle q.1 a
  show Remembers (after (handle env a.1 a.2) q.1, q.2 ++ (receipt? env q.1 a.2).toList)
  generalize after (handle env a.1 a.2) q.1 = t at hnoticed
  generalize receipt? env q.1 a.2 = r at hnoticed
  intro hfree sender
  cases hnoticed with
  | none hnot hsame =>
    obtain ⟨hlock, -⟩ := Prod.mk.inj hsame
    dsimp only at hfree ⊢
    rw [hlock] at hfree ⊢
    rw [h hfree sender]
    cases r with
    | none => rw [Option.toList_none, List.append_nil]
    | some r =>
      rw [Option.toList_some, lastTaken_concat, if_neg]
      rintro ⟨htaken, -⟩
      rw [hnot r rfl] at htaken
      cases htaken
  | taken htaken new hgaps htracked =>
    dsimp only at hfree ⊢
    generalize t.lastSeqPerSender = lock at hfree htracked ⊢
    cases htracked with
    | poisoned hpoisoned =>
      rw [hpoisoned] at hfree
      cases hfree
    | overflow => cases hfree
    | torn => cases hfree
    | gap hlock => exact lookup_insert_eq (h hlock sender) htaken
    | noted hlock => exact lookup_insert_eq (h hlock sender) htaken

/-! ### True reports -/

/-- What is reported as missing has not been received from the sender of the notification. -/
def Truthful (env : Env) (q : Node × List Receipt) (a : Moment × Input) : Prop :=
  ∀ new, (after (handle env a.1 a.2) q.1).gaps = q.1.gaps ++ new → ∀ gap ∈ new,
    ∃ n ∈ notification? env a.2, ∀ k, gap.expected ≤ k → k < gap.got → ¬Heard q.2 n.sender k

/-- The sums that the detector computes are those of the numbers. -/
def Exact (env : Env) (q : Node × List Receipt) (a : Moment × Input) : Prop :=
  ∀ r ∈ receipt? env q.1 a.2, r.taken = true → q.1.lastSeqPerSender.poisoned = false →
    ∀ last ∈ q.1.lastSeqPerSender.value.lookup r.sender, ∃ next,
      nextSeq env last = .ok next ∧ next.toNat = last.toNat + 1 ∧
        (next < r.seq → (r.seq - last - 1).toNat + (last.toNat + 1) = r.seq.toNat)

/-- Where the detector is given a number and has one of the sender, this is not the greatest, and none
between the two has been received, if the sender can be printed. -/
def InOrder (env : Env) (q : Node × List Receipt) (a : Moment × Input) : Prop :=
  ∀ r ∈ receipt? env q.1 a.2, r.taken = true → q.1.lastSeqPerSender.poisoned = false →
    ∀ last ∈ lastTaken q.2 r.sender, last.toNat ≠ 2 ^ 64 - 1 ∧
      (Cuts 8 r.sender → ∀ k, last < k → k < r.seq → ¬Heard q.2 r.sender k)

theorem notification_of_receipt {a : Input} (h : receipt? env s a = some r) :
    ∃ n, notification? env a = some n ∧ n.sender = r.sender := by
  obtain ⟨n, hn, hr⟩ := Option.bind_eq_some_iff.1 h
  obtain ⟨seq, -, rfl⟩ := Option.map_eq_some_iff.1 hr
  exact ⟨n, hn, rfl⟩

theorem nextSeq_eq (env : Env) {last : UInt64} (h : last.toNat ≠ 2 ^ 64 - 1) :
    nextSeq env last = .ok (last + 1) ∧ (last + 1).toNat = last.toNat + 1 := by
  have hlt : last.toNat < 2 ^ 64 := last.toNat_lt
  refine ⟨if_neg fun hover => h hover.2, ?_⟩
  rw [UInt64.toNat_add]
  exact Nat.mod_eq_of_lt (by show last.toNat + 1 < _; omega)

/-- What is missing is counted right. -/
theorem toNat_missed {last : UInt64} (h : (last + 1).toNat = last.toNat + 1) (hlt : last + 1 < seq) :
    (seq - last - 1).toNat + (last.toNat + 1) = seq.toNat := by
  have hle : last.toNat + 1 < seq.toNat := h ▸ UInt64.lt_iff_toNat_lt.1 hlt
  have hsub : (seq - last).toNat = seq.toNat - last.toNat :=
    UInt64.toNat_sub_of_le _ _ (UInt64.le_iff_toNat_le.2 (by omega))
  rw [UInt64.toNat_sub_of_le _ _ (UInt64.le_iff_toNat_le.2 (by rw [hsub]; show 1 ≤ _; omega)), hsub]
  show seq.toNat - last.toNat - 1 + _ = _
  omega

theorem le_of_next {last next k : UInt64} (h : next.toNat = last.toNat + 1) : next ≤ k ↔ last < k := by
  rw [UInt64.le_iff_toNat_le, UInt64.lt_iff_toNat_lt, h]
  exact Iff.rfl

/-- The sums are exact, if no last number is the greatest; and only then. -/
theorem exact_iff {q : Node × List Receipt} {a : Moment × Input} (h : Remembers q) :
    Exact env q a ↔ ∀ r ∈ receipt? env q.1 a.2, r.taken = true →
      q.1.lastSeqPerSender.poisoned = false →
        ∀ last ∈ lastTaken q.2 r.sender, last.toNat ≠ 2 ^ 64 - 1 := by
  refine forall₄_congr fun r hr htaken hfree => ?_
  rw [h hfree]
  refine forall₂_congr fun last hlast => ?_
  constructor
  · rintro ⟨next, -, hnext, -⟩ hmax
    have hlt : next.toNat < 2 ^ 64 := next.toNat_lt
    omega
  · intro hmax
    obtain ⟨hnext, hsucc⟩ := nextSeq_eq env hmax
    exact ⟨last + 1, hnext, hsucc, toNat_missed hsucc⟩

/-- In order, what is reported is true. -/
theorem Remembers.truthful {q : Node × List Receipt} {a : Moment × Input} (h : Remembers q)
    (horder : InOrder env q a) : Truthful env q a := by
  have hnoticed : Noticed env q.1 (receipt? env q.1 a.2) (after (handle env a.1 a.2) q.1) :=
    gaps_handle q.1 a
  unfold Truthful
  unfold InOrder at horder
  generalize hreceipt : receipt? env q.1 a.2 = r at hnoticed horder
  generalize after (handle env a.1 a.2) q.1 = t at hnoticed
  intro new hnew gap hgap
  cases hnoticed with
  | none _ hsame =>
    obtain ⟨-, hgaps⟩ := Prod.mk.inj hsame
    rw [List.self_eq_append_right.1 (hgaps.symm.trans hnew)] at hgap
    exact absurd hgap List.not_mem_nil
  | taken htaken reported hgaps htracked =>
    obtain rfl := List.append_cancel_left (hgaps.symm.trans hnew)
    generalize t.lastSeqPerSender = lock at htracked
    cases htracked with
    | gap hfree last next hlast hnext _ display hcuts =>
      obtain rfl := List.mem_singleton.1 hgap
      obtain ⟨n, hn, hsender⟩ := notification_of_receipt hreceipt
      obtain ⟨hmax, hclear⟩ := horder _ rfl htaken hfree last (h hfree _ ▸ hlast)
      obtain ⟨hnext', hsucc⟩ := nextSeq_eq env hmax
      cases hnext.symm.trans hnext'
      refine ⟨n, hn, fun k hle hlt => ?_⟩
      rw [hsender]
      exact hclear hcuts k ((le_of_next hsucc).1 hle) hlt
    | _ => exact absurd hgap List.not_mem_nil

/-- What is between the last number and the next is reported, unless the step panics. -/
theorem Remembers.clear {q : Node × List Receipt} {a : Moment × Input} (h : Remembers q)
    (htruthful : Truthful env q a) {r : Receipt} (hr : receipt? env q.1 a.2 = some r)
    (htaken : r.taken = true) (hfree : q.1.lastSeqPerSender.poisoned = false) {last k : UInt64}
    (hlast : lastTaken q.2 r.sender = some last) (hmax : last.toNat ≠ 2 ^ 64 - 1)
    (hcuts : Cuts 8 r.sender) (hlt : last < k) (hlt' : k < r.seq) : ¬Heard q.2 r.sender k := by
  obtain ⟨hnext, hsucc⟩ := nextSeq_eq env hmax
  have hlookup : q.1.lastSeqPerSender.value.lookup r.sender = some last := (h hfree _).trans hlast
  have hnoticed : Noticed env q.1 (receipt? env q.1 a.2) (after (handle env a.1 a.2) q.1) :=
    gaps_handle q.1 a
  unfold Truthful at htruthful
  rw [hr] at hnoticed
  generalize after (handle env a.1 a.2) q.1 = t at hnoticed htruthful
  cases hnoticed with
  | none hnot _ =>
    rw [hnot r rfl] at htaken
    cases htaken
  | taken _ new hgaps htracked =>
    generalize t.lastSeqPerSender = lock at htracked
    cases htracked with
    | poisoned hpoisoned =>
      rw [hfree] at hpoisoned
      cases hpoisoned
    | overflow last' hlast' _ hmax' =>
      cases hlookup.symm.trans hlast'
      exact absurd hmax' hmax
    | torn _ _ hcuts' => exact absurd hcuts hcuts'
    | gap _ last' next hlast' hnext' hlt'' display =>
      cases hlookup.symm.trans hlast'
      cases hnext.symm.trans hnext'
      obtain ⟨n, hn, hclear⟩ := htruthful _ hgaps _ (List.mem_singleton_self _)
      obtain ⟨n', hn', hsender⟩ := notification_of_receipt hr
      cases hn.symm.trans hn'
      rw [← hsender]
      exact hclear k ((le_of_next hsucc).2 hlt) hlt'
    | noted _ hnone =>
      obtain ⟨next, hnext', hnot⟩ := hnone last hlookup
      cases hnext.symm.trans hnext'
      exact absurd (UInt64.lt_of_le_of_lt ((le_of_next hsucc).2 hlt) hlt') hnot

/-- **A step reports the truth and computes exact sums** exactly when the number is in order. -/
theorem Remembers.truthful_iff {q : Node × List Receipt} {a : Moment × Input} (h : Remembers q) :
    Truthful env q a ∧ Exact env q a ↔ InOrder env q a := by
  rw [exact_iff h]
  constructor
  · rintro ⟨htruthful, hmax⟩ r hr htaken hfree last hlast
    have hne := hmax r hr htaken hfree last hlast
    exact ⟨hne, fun hcuts k => h.clear htruthful hr htaken hfree hlast hne hcuts⟩
  · intro horder
    exact ⟨h.truthful horder, fun r hr htaken hfree last hlast => (horder r hr htaken hfree last hlast).1⟩

/-- **The reports of sequence gaps are true**: in every run from the start, whatever is received, in
whatever order and how often, every report at a step names numbers only that have not been received
from the sender before, and the sums are exact, if and only if each number that the detector is given
comes when the last one is not the greatest and no number between the two has been received. -/
theorem gaps_truthful_iff (env : Env) (now : UInt64) (trustedFile monitorsFile peersFile : Option String)
    (db : Option Archive) (sseEnabled catchupEnabled : Bool) (as : List (Moment × Input)) :
    let q := (Node.start now trustedFile monitorsFile peersFile db sseEnabled catchupEnabled, [])
    Along (heardStep env) (fun q a => Truthful env q a ∧ Exact env q a) q as ↔
      Along (heardStep env) (InOrder env) q as :=
  along_congr (I := Remembers) (fun _ _ _ h hstep => h.step hstep) (fun _ _ h => h.truthful_iff)
    fun _ _ => rfl

/-! ### A late notification -/

/-- A notification with a number. -/
def numbered (seq : UInt64) : GossipNotification :=
  ⟨"1.0", "aa", 7, "podcast", "update", [], some seq, none⟩

/-- A world in which the payload is the number. -/
def numberedEnv : Env :=
  { plainEnv (numbered 0) with
    parseGossipNotification := fun raw => raw.head?.map fun b => numbered b.toUInt64 }

/-- The third one is reported as missing, though it came late. -/
theorem late_reported :
    ¬Along (heardStep numberedEnv) (fun q a => Truthful numberedEnv q a ∧ Exact numberedEnv q a)
      (Node.start 7 none none none none false false, [])
      ([1, 3, 2, 4].map fun b => (Moment.fine 7, Input.live (.received [b] "peer"))) := by
  intro h
  have hlast := (along_iff_forall.1 h)
    ([1, 3, 2].map fun b => (Moment.fine 7, Input.live (.received [b] "peer"))) _ [] _ rfl rfl
  obtain ⟨n, hn, hclear⟩ := hlast.1 [⟨"aa", 3, 4, 1⟩] (by decide) _ (List.mem_singleton_self _)
  cases hn
  exact hclear 3 (by decide) (by decide) ⟨⟨"aa", 3, true⟩, by decide, rfl, rfl⟩

end PodpingAlpha.Listener
