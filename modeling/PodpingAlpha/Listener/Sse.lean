import PodpingAlpha.Library.Deserialize
import PodpingAlpha.Library.JsonReader
import PodpingAlpha.Library.Fanout
import PodpingAlpha.Listener.Authentic

/-!
# The listener's event stream

`gossip-listener/src/sse.rs`: clients that connect to `/events` get what the listener prints of the
notifications it lets through, each client with a filter of its own.

## The model

The channel is the broadcast channel of the library, of any capacity. `serde_json::from_str` is a
parameter. A step of the service is a step of the listener or one operation of a client, so a client may
be as slow as it likes. A message that is sent while nobody is connected is counted too, which nobody
can tell.

## What is proved

* `matchesFilter_printNotification` — what a filter says of a printed notification.
* `appended_handle` — a step of the listener sends at most one text, and that of a notification that
  passed the gate.
* `stream_authentic` — in every run, an event that a client got is the text of a notification that passed
  the gate when it was handled, it has the fields the client asked for, and it is one line.
* `stream_complete_iff` — in every run, what a client got is what was sent since it connected and matches
  its filter, in order, exactly when nothing that matches it is overwritten before it is read.
* `stream_delivers` — a client that was in time and reads on gets everything that matches its filter.
* `stream_isolated` — what a client gets does not depend on the other clients.
-/

namespace PodpingAlpha.Listener.Sse

open Outcome Text Transition
open Fanout (Channel Hub Receiver)

/-! ### Filters -/

/-- `EventFilter`. -/
structure EventFilter where
  /-- The medium. -/
  medium : Option String
  /-- The reason. -/
  reason : Option String
  /-- The beginning of the sender. -/
  sender : Option String
  deriving DecidableEq

/-- `parsed.get(key).and_then(|v| v.as_str())`. -/
def getStr (parsed : Json) (key : String) : Option String :=
  match parsed with
  | .obj fields => (fields.lookup key).bind Json.str?
  | _ => none

/-- `matches_filter`. -/
def matchesFilter (fromStr : String → Option Json) (jsonStr : String) (filter : EventFilter) : Bool :=
  if filter.medium.isNone && filter.reason.isNone && filter.sender.isNone then true
  else
    match fromStr jsonStr with
    | none => true
    | some parsed =>
      (filter.medium.all fun medium => getStr parsed "medium" = some medium) &&
      (filter.reason.all fun reason => getStr parsed "reason" = some reason) &&
      filter.sender.all fun senderPrefix =>
        (getStr parsed "sender").any fun sender => senderPrefix.toList.isPrefixOf sender.toList

/-- The notification is of the kind that a filter asks for. -/
structure EventFilter.Selects (filter : EventFilter) (n : GossipNotification) : Prop where
  medium : ∀ medium ∈ filter.medium, n.medium = medium
  reason : ∀ reason ∈ filter.reason, n.reason = reason
  sender : ∀ senderPrefix ∈ filter.sender, senderPrefix.toList <+: n.sender.toList

/-- The parser takes back an object from its text, if its keys are in order and its values are null or
flat. -/
def ReadsBack (fromStr : String → Option Json) : Prop :=
  ∀ fields, (fields.map Prod.fst).Pairwise (· < ·) → (∀ f ∈ fields, f.2 = .null ∨ f.2.Flat) →
    fromStr (String.ofList (Json.obj fields).render) = some (.obj fields)

/-- The fields of a printed notification. -/
def shownFields (env : Env) (n : GossipNotification) (display : String) : List (String × Json) :=
  [("iris", .arr (n.iris.map .str)), ("medium", .str n.medium), ("reason", .str n.reason),
    ("sender", .str n.sender), ("sender_name", .str display), ("seq", n.seq.elim .null .u64),
    ("sig_status", .str (sigStatus env n)), ("signature", n.signature.elim .null .str),
    ("timestamp", .u64 n.timestamp), ("version", .str n.version)]

theorem readsBack_fromText : ReadsBack Json.fromText :=
  fun fields _ _ => Json.fromText_render (.obj fields)

variable {env : Env} {fromStr : String → Option Json} {n : GossipNotification}

theorem fromStr_printNotification (h : ReadsBack fromStr) (env : Env) (n : GossipNotification)
    (display : String) :
    fromStr (printNotification env n display) = some (.obj (shownFields env n display)) := by
  refine h (shownFields env n display) ?_ ?_
  · show ["iris", "medium", "reason", "sender", "sender_name", "seq", "sig_status", "signature",
      "timestamp", "version"].Pairwise (· < ·)
    decide
  · have hseq : n.seq.elim Json.null .u64 = .null ∨ (n.seq.elim Json.null .u64).Flat := by
      cases n.seq with
      | none => exact .inl rfl
      | some seq => exact .inr (Json.flat_u64 seq)
    have hsignature : n.signature.elim Json.null .str = .null ∨ (n.signature.elim Json.null .str).Flat := by
      cases n.signature with
      | none => exact .inl rfl
      | some sig => exact .inr (Json.flat_str sig)
    simp only [shownFields, List.forall_mem_cons]
    exact ⟨.inr (Json.flat_arr _), .inr trivial, .inr trivial, .inr trivial, .inr trivial, hseq,
      .inr trivial, hsignature, .inr (Json.flat_u64 _), .inr trivial,
      List.forall_mem_nil _⟩

/-- **What a filter says of a printed notification.** -/
theorem matchesFilter_printNotification (h : ReadsBack fromStr) (env : Env) (n : GossipNotification)
    (display : String) (filter : EventFilter) :
    matchesFilter fromStr (printNotification env n display) filter = true ↔ filter.Selects n := by
  unfold matchesFilter
  split_ifs with hnone
  · simp only [Bool.and_eq_true, Option.isNone_iff_eq_none] at hnone
    obtain ⟨⟨hmedium, hreason⟩, hsender⟩ := hnone
    refine iff_of_true rfl ⟨?_, ?_, ?_⟩
    · rw [hmedium]
      nofun
    · rw [hreason]
      nofun
    · rw [hsender]
      nofun
  · rw [fromStr_printNotification h]
    have hmedium : getStr (.obj (shownFields env n display)) "medium" = some n.medium := rfl
    have hreason : getStr (.obj (shownFields env n display)) "reason" = some n.reason := rfl
    have hsender : getStr (.obj (shownFields env n display)) "sender" = some n.sender := rfl
    simp only [hmedium, hreason, hsender, Bool.and_eq_true, Option.all_eq_true, decide_eq_true_eq,
      Option.any_some, List.isPrefixOf_iff_prefix, Option.some.injEq]
    exact ⟨fun ⟨⟨h1, h2⟩, h3⟩ => ⟨h1, h2, h3⟩, fun h => ⟨⟨h.medium, h.reason⟩, h.sender⟩⟩

/-- An event is one line of printable characters. -/
def OneLine (event : String) : Prop := ∀ c ∈ event.toList, Json.Printable c

theorem oneLine_printNotification (env : Env) (n : GossipNotification) (display : String) :
    OneLine (printNotification env n display) := by
  show ∀ c ∈ (String.ofList _).toList, _
  rw [String.toList_ofList]
  exact Json.printable_render _

/-! ### What is sent -/

variable {m : Moment} {raw : Bytes} {s t : Node}

/-- Nothing was sent, or the text of the notification. -/
def Prints (env : Env) (n : GossipNotification) (s t : Node) : Prop :=
  t.sseTx = s.sseTx ∨ ∃ display, t.sseTx = s.sseTx.map (· ++ [printNotification env n display])

theorem prints_deliver (h : t.sseTx = s.sseTx) (sender : String → String) :
    wp (do
        let display ← cut (short 8 n.sender)
        deliver env m raw n (sender display)) (fun _ => Prints env n s) (fun _ => Prints env n s) t := by
  simp only [deliver]
  simp only [wp_bind, wp_cut, wp_modify]
  cases short 8 n.sender with
  | none => exact .inl h
  | some display => exact .inr ⟨sender display, by rw [h]⟩

theorem prints_notification :
    wp (handleNotification env m raw n) (fun _ => Prints env n s) (fun _ => Prints env n s) s := by
  have hseq : Keeps Node.sseTx (recordSeq env n) := keeps_recordSeq (fun _ _ _ => rfl) env n
  rw [handleNotification]
  rw [wp_bind, wp_modify, wp_gated]
  split_ifs
  · exact .inl rfl
  · rw [wp_bind]
    refine wp_mono (fun _ t ht => ?_) (fun _ _ ht => .inl ht) hseq.wp
    rw [showNotification]
    rw [wp_bind, wp_zoom, wp_read]
    split_ifs
    · exact .inl ht
    · exact prints_deliver ht _
  · exact .inl rfl

/-- **A step of the listener sends at most one text**, and that of a notification that passed the gate. -/
theorem appended_handle (env : Env) (m : Moment) (s : Node) (a : Input) :
    (after (handle env m a) s).sseTx = s.sseTx ∨
      ∃ n display, notification? env a = some n ∧ Admitted s.trustedPublishers.value n ∧
        (after (handle env m a) s).sseTx = s.sseTx.map (· ++ [printNotification env n display]) := by
  by_cases hchange : (after (handle env m a) s).sinks = s.sinks
  · exact .inl (congrArg (·.2.1) hchange)
  · obtain ⟨n, hn, hadm⟩ := admitted_of_handle hchange
    have hprints : Prints env n s (after (handle env m a) s) := by
      refine (wp_after (P := Prints env n s)).1 ?_
      cases a with
      | catchup payload =>
        change env.parseGossipNotification payload = some n at hn
        show wp (catchupPayload env m payload) _ _ s
        rw [catchupPayload]
        rw [hn]
        dsimp only
        rw [wp_gated]
        split_ifs
        · exact .inl rfl
        · exact prints_deliver rfl _
      | live ev =>
        cases ev with
        | received content deliveredFrom =>
          change (classify env content).notification? = some n at hn
          refine (wp_bind.trans wp_modify).2 ?_
          cases hclass : classify env content with
          | notification n' =>
            rw [hclass] at hn
            cases hn
            exact prints_notification
          | _ =>
            rw [hclass] at hn
            cases hn
        | _ => cases hn
    rcases hprints with hsame | ⟨display, hsent⟩
    · exact .inl hsame
    · exact .inr ⟨n, display, hn, hadm, hsent⟩

/-! ### The service -/

/-- The listener and its clients. -/
structure Service (ι : Type) where
  node : Node
  clients : ι → Option (Receiver String EventFilter)

/-- What happens next. -/
inductive Act (ι : Type) where
  /-- The listener handles something. -/
  | input (m : Moment) (a : Input)
  /-- A client connects to `/events`. -/
  | connect (i : ι) (filter : EventFilter)
  /-- Its stream reads one message of the channel. -/
  | read (i : ι)
  | disconnect (i : ι)

variable {ι : Type} [DecidableEq ι]

/-- The broadcast channel of `start_sse_server`. -/
def channel (capacity : ℕ) (fromStr : String → Option Json) : Channel String EventFilter where
  capacity := capacity
  accepts := fun filter jsonStr => matchesFilter fromStr jsonStr filter

/-- The channel with its receivers. -/
def Service.hub (s : Service ι) : Hub String EventFilter ι := ⟨s.node.sseTx.getD [], s.clients⟩

/-- A client does something to the channel, if there is one. -/
def Service.client (c : Channel String EventFilter) (s : Service ι)
    (act : Fanout.Action String EventFilter ι) : Option (Service ι) :=
  if s.node.sseTx.isSome then
    (Fanout.step c s.hub act).map fun hub => { s with clients := hub.receivers }
  else none

/-- One step of the service. -/
def step (env : Env) (c : Channel String EventFilter) (s : Service ι) : Act ι → Option (Service ι)
  | .input m a => some { s with node := after (handle env m a) s.node }
  | .connect i filter => s.client c (.subscribe i filter)
  | .read i => s.client c (.poll i)
  | .disconnect i => s.client c (.unsubscribe i)

/-- The service when it starts. -/
def Service.start (node : Node) : Service ι := ⟨node, fun _ => none⟩

variable {c : Channel String EventFilter} {u v : Service ι} {x : Act ι} {xs : List (Act ι)} {i : ι}

/-! ### The channel under the service -/

/-- What a step of the service does to the channel. -/
inductive Serves (env : Env) (c : Channel String EventFilter) (u : Service ι) :
    Act ι → Service ι → Prop where
  /-- The listener sends nothing. -/
  | quiet {m : Moment} {a : Input} {v : Service ι} (hhub : v.hub = u.hub) :
      Serves env c u (.input m a) v
  /-- It sends the text of a notification. -/
  | sent {m : Moment} {a : Input} {v : Service ι} {n : GossipNotification} (display : String)
      (hn : notification? env a = some n) (hadm : Admitted u.node.trustedPublishers.value n)
      (hhub : v.hub = { u.hub with sent := u.hub.sent ++ [printNotification env n display] }) :
      Serves env c u (.input m a) v
  | connected {i : ι} {filter : EventFilter} {v : Service ι}
      (hhub : Fanout.step c u.hub (.subscribe i filter) = some v.hub) :
      Serves env c u (.connect i filter) v
  | read {i : ι} {v : Service ι} (hhub : Fanout.step c u.hub (.poll i) = some v.hub) :
      Serves env c u (.read i) v
  | disconnected {i : ι} {v : Service ι} (hhub : Fanout.step c u.hub (.unsubscribe i) = some v.hub) :
      Serves env c u (.disconnect i) v

theorem sent_of_step {h h' : Hub String EventFilter ι} {act : Fanout.Action String EventFilter ι}
    (hact : ∀ a, act ≠ .send a) (hstep : Fanout.step c h act = some h') : h'.sent = h.sent := by
  cases act with
  | send a => exact absurd rfl (hact a)
  | subscribe i filter =>
    cases Fanout.change_of_step i hstep with
    | subscribed _ hsent => exact hsent
    | other _ hsent => exact hsent
  | poll i =>
    cases Fanout.change_of_step i hstep with
    | polled _ hsent => exact hsent
    | other _ hsent => exact hsent
  | unsubscribe i =>
    cases Fanout.change_of_step i hstep with
    | unsubscribed hsent => exact hsent
    | other _ hsent => exact hsent

theorem hub_of_client {act : Fanout.Action String EventFilter ι} (hact : ∀ a, act ≠ .send a)
    (h : u.client c act = some v) : Fanout.step c u.hub act = some v.hub ∧ v.node = u.node := by
  unfold Service.client at h
  split_ifs at h
  obtain ⟨hub, hhub, rfl⟩ := Option.map_eq_some_iff.1 h
  refine ⟨hhub.trans (congrArg some ?_), rfl⟩
  show hub = ⟨u.hub.sent, hub.receivers⟩
  rw [← sent_of_step hact hhub]

theorem serves_of_step (h : step env c u x = some v) : Serves env c u x v := by
  cases x with
  | input m a =>
    cases h
    rcases appended_handle env m u.node a with hsame | ⟨n, display, hn, hadm, hsent⟩
    · refine .quiet ?_
      show (⟨_, _⟩ : Hub String EventFilter ι) = ⟨_, _⟩
      rw [hsame]
    · cases htx : u.node.sseTx with
      | none =>
        refine .quiet ?_
        show (⟨_, _⟩ : Hub String EventFilter ι) = ⟨_, _⟩
        rw [hsent, htx]
        rfl
      | some sent =>
        refine .sent display hn hadm ?_
        show (⟨_, _⟩ : Hub String EventFilter ι) = ⟨_, _⟩
        rw [hsent, htx]
        simp [Service.hub, htx]
  | connect i filter => exact .connected (hub_of_client (by rintro a ⟨⟩) h).1
  | read i => exact .read (hub_of_client (by rintro a ⟨⟩) h).1
  | disconnect i => exact .disconnected (hub_of_client (by rintro a ⟨⟩) h).1

theorem sound_serves (hu : Fanout.Sound c u.hub) (h : Serves env c u x v) : Fanout.Sound c v.hub := by
  cases h with
  | quiet hhub => rwa [hhub]
  | @sent m a _ n display hn hadm hhub =>
    exact Fanout.sound_step (a := .send (printNotification env n display)) hu (congrArg some hhub.symm)
  | connected hhub => exact Fanout.sound_step hu hhub
  | read hhub => exact Fanout.sound_step hu hhub
  | disconnected hhub => exact Fanout.sound_step hu hhub

/-- What was sent stays sent. -/
theorem prefix_serves (h : Serves env c u x v) : u.hub.sent <+: v.hub.sent := by
  cases h with
  | quiet hhub => rw [hhub]
  | sent display hn hadm hhub =>
    rw [hhub]
    exact List.prefix_append _ _
  | connected hhub => rw [sent_of_step (by rintro a ⟨⟩) hhub]
  | read hhub => rw [sent_of_step (by rintro a ⟨⟩) hhub]
  | disconnected hhub => rw [sent_of_step (by rintro a ⟨⟩) hhub]

theorem prefix_run (h : run (step env c) u xs = some v) : u.hub.sent <+: v.hub.sent :=
  inv_run (I := fun w : Service ι => u.hub.sent <+: w.hub.sent)
    (fun _ _ _ hs hstep => hs.trans (prefix_serves (serves_of_step hstep))) (List.prefix_refl _) h

/-! ### What a client got -/

/-- The step puts the text of a notification on the channel. -/
def Printed (env : Env) (u : Service ι) (x : Act ι) (event : String) (n : GossipNotification) : Prop :=
  ∃ m a display, x = .input m a ∧ notification? env a = some n ∧
    Admitted u.node.trustedPublishers.value n ∧ event = printNotification env n display

/-- What comes onto the channel in a step. -/
theorem printed_of_serves (h : Serves env c u x v) {k : ℕ} {event : String}
    (hk : u.hub.sent.length ≤ k) (hevent : v.hub.sent[k]? = some event) :
    ∃ n, Printed env u x event n := by
  have hnone : v.hub.sent = u.hub.sent → False := fun hsent => by
    rw [hsent, List.getElem?_eq_none hk] at hevent
    cases hevent
  cases h with
  | quiet hhub => exact (hnone (by rw [hhub])).elim
  | @sent m a _ n display hn hadm hhub =>
    rw [hhub, List.getElem?_append_right hk] at hevent
    obtain ⟨-, rfl⟩ := List.getElem?_eq_some_iff.1 hevent
    exact ⟨n, m, a, display, rfl, hn, hadm, List.getElem_singleton _⟩
  | connected hhub => exact (hnone (sent_of_step (by rintro a ⟨⟩) hhub)).elim
  | read hhub => exact (hnone (sent_of_step (by rintro a ⟨⟩) hhub)).elim
  | disconnected hhub => exact (hnone (sent_of_step (by rintro a ⟨⟩) hhub)).elim

/-- What comes onto the channel in a run. -/
theorem printed_of_run (h : run (step env c) u xs = some v) {k : ℕ} {event : String}
    (hk : u.hub.sent.length ≤ k) (hevent : v.hub.sent[k]? = some event) :
    ∃ pre x post w n, xs = pre ++ x :: post ∧ run (step env c) u pre = some w ∧
      Printed env w x event n := by
  induction xs generalizing u with
  | nil =>
    cases h
    rw [List.getElem?_eq_none hk] at hevent
    cases hevent
  | cons x xs ih =>
    obtain ⟨w, hw, hr⟩ := run_cons_eq_some.1 h
    rcases Nat.lt_or_ge k w.hub.sent.length with hlt | hge
    · -- it was put there by this step
      obtain ⟨later, hlater⟩ := prefix_run hr
      rw [← hlater, List.getElem?_append_left hlt] at hevent
      obtain ⟨n, hprinted⟩ := printed_of_serves (serves_of_step hw) hk hevent
      exact ⟨[], x, xs, u, n, rfl, rfl, hprinted⟩
    · obtain ⟨pre, y, post, w', n, rfl, hpre, hprinted⟩ := ih hr hge
      exact ⟨x :: pre, y, post, w', n, rfl, run_cons_eq_some.2 ⟨w, hw, hpre⟩, hprinted⟩

/-- A client was there before a step, or connected in it. -/
theorem client_of_serves (h : Serves env c u x v) {r : Receiver String EventFilter}
    (hr : v.clients i = some r) :
    (∃ r', u.clients i = some r' ∧ r'.filter = r.filter ∧ r'.start = r.start) ∨
      x = .connect i r.filter ∧ u.hub.sent.length = r.start := by
  have hsame : v.hub.receivers i = u.hub.receivers i →
      ∃ r', u.clients i = some r' ∧ r'.filter = r.filter ∧ r'.start = r.start :=
    fun hi => ⟨r, hi.symm.trans hr, rfl, rfl⟩
  change v.hub.receivers i = some r at hr
  cases h with
  | quiet hhub => exact .inl (hsame (by rw [hhub]))
  | sent display hn hadm hhub => exact .inl (hsame (by rw [hhub]))
  | connected hhub =>
    cases Fanout.change_of_step i hhub with
    | subscribed filter _ hi =>
      cases hi.symm.trans hr
      exact .inr ⟨rfl, rfl⟩
    | other _ _ hi => exact .inl (hsame hi)
  | read hhub =>
    cases Fanout.change_of_step i hhub with
    | polled hr' _ hi =>
      cases hi.symm.trans hr
      obtain ⟨hfilter, hstart⟩ := Fanout.poll_same c u.hub.sent _
      exact .inl ⟨_, hr', hfilter.symm, hstart.symm⟩
    | other _ _ hi => exact .inl (hsame hi)
  | disconnected hhub =>
    cases Fanout.change_of_step i hhub with
    | unsubscribed _ hi => cases hi.symm.trans hr
    | other _ _ hi => exact .inl (hsame hi)

/-- A client was there before a run, or connected in it. -/
theorem client_of_run (h : run (step env c) u xs = some v) {r : Receiver String EventFilter}
    (hr : v.clients i = some r) :
    (∃ r', u.clients i = some r' ∧ r'.filter = r.filter ∧ r'.start = r.start) ∨
      ∃ pre post w, xs = pre ++ .connect i r.filter :: post ∧ run (step env c) u pre = some w ∧
        w.hub.sent.length = r.start := by
  induction xs generalizing u with
  | nil =>
    cases h
    exact .inl ⟨r, hr, rfl, rfl⟩
  | cons x xs ih =>
    obtain ⟨w, hw, hrun⟩ := run_cons_eq_some.1 h
    rcases ih hrun with ⟨r', hr', hfilter, hstart⟩ | ⟨pre, post, w', rfl, hpre, hstart⟩
    · rw [← hfilter, ← hstart]
      rcases client_of_serves (serves_of_step hw) hr' with hthere | ⟨rfl, hlength⟩
      · exact .inl hthere
      · exact .inr ⟨[], xs, u, rfl, rfl, hlength⟩
    · exact .inr ⟨x :: pre, post, w', rfl, run_cons_eq_some.2 ⟨w, hw, hpre⟩, hstart⟩

/-- What a client got was sent after it connected, and its filter lets it through. -/
theorem getElem_of_mem_got {sent : List String} {r : Receiver String EventFilter}
    (hr : r.Sound c sent) {event : String} (hevent : event ∈ r.got) :
    c.accepts r.filter event = true ∧ ∃ k, r.start ≤ k ∧ sent[k]? = some event := by
  obtain ⟨hmem, haccepts⟩ := List.mem_filter.1 (hr.got_sublist.subset hevent)
  obtain ⟨k, hk⟩ := List.mem_iff_getElem?.1 hmem
  rw [List.getElem?_drop] at hk
  refine ⟨haccepts, r.start + k, Nat.le_add_right _ _, ?_⟩
  rw [List.getElem?_take] at hk
  split_ifs at hk
  exact hk

/-- **The stream is authentic**: in every run, an event that a client got is one line, the text of a
notification that passed the gate when it was handled, after the client had connected, and it is of the
kind that the client asked for. -/
theorem stream_authentic (env : Env) {fromStr : String → Option Json} (hparse : ReadsBack fromStr)
    (capacity : ℕ) (node : Node) {xs : List (Act ι)} {v : Service ι}
    (h : run (step env (channel capacity fromStr)) (Service.start node) xs = some v) {i : ι}
    {r : Receiver String EventFilter} (hr : v.clients i = some r) {event : String}
    (hevent : event ∈ r.got) :
    OneLine event ∧ ∃ pre mid x post w n, xs = pre ++ .connect i r.filter :: (mid ++ x :: post) ∧
      run (step env (channel capacity fromStr)) (Service.start node)
        (pre ++ .connect i r.filter :: mid) = some w ∧
      Printed env w x event n ∧ r.filter.Selects n := by
  have hsound : Fanout.Sound (channel capacity fromStr) v.hub :=
    inv_run (I := fun w : Service ι => Fanout.Sound (channel capacity fromStr) w.hub)
      (fun _ _ _ hs hstep => sound_serves hs (serves_of_step hstep)) (fun _ _ hr => by cases hr) h
  obtain ⟨haccepts, k, hk, hsent⟩ := getElem_of_mem_got (hsound i r hr) hevent
  rcases client_of_run h hr with ⟨r', hr', -⟩ | ⟨pre, post, u, rfl, hpre, hstart⟩
  · cases hr'
  · -- the client connected in `u`, and the event came onto the channel later
    rw [run_append, hpre] at h
    obtain ⟨u', hu', hpost⟩ := run_cons_eq_some.1 h
    have hlength : u'.hub.sent = u.hub.sent := by
      cases serves_of_step hu' with
      | connected hhub => exact sent_of_step (by rintro a ⟨⟩) hhub
    obtain ⟨mid, x, post, w, n, rfl, hmid, hprinted⟩ :=
      printed_of_run hpost (by rw [hlength, hstart]; exact hk) hsent
    have hrun : run (step env (channel capacity fromStr)) (Service.start node)
        (pre ++ .connect i r.filter :: mid) = some w := by
      rw [run_append, hpre]
      exact run_cons_eq_some.2 ⟨u', hu', hmid⟩
    obtain ⟨m, a, display, hx, hn, hadm, rfl⟩ := hprinted
    exact ⟨oneLine_printNotification env n display, pre, mid, x, post, w, n, rfl, hrun,
      ⟨m, a, display, hx, hn, hadm, rfl⟩,
      (matchesFilter_printNotification hparse env n display r.filter).1 haccepts⟩

/-- A trusted notification, and a client that was there before it. -/
theorem stream_authentic_one :
    let n : GossipNotification := ⟨"1.0", "aa", 7, "podcast", "update", [], some 3, none⟩
    let node : Node := .start 7 (some "aa") none none none true false
    let acts : List (Act Unit) :=
      [.connect () ⟨none, none, none⟩, .input (.fine 7) (.live (.received [1] "peer")), .read ()]
    ∃ v r event, run (step (plainEnv n) (channel 1 Json.fromText)) (Service.start node) acts = some v ∧
      v.clients () = some r ∧ r.got = [event] ∧ OneLine event := by
  intro n node acts
  have hone : ((run (step (plainEnv n) (channel 1 Json.fromText)) (Service.start node) acts).bind
      fun v => (v.clients ()).map fun r => r.got.length) = some 1 := by decide
  obtain ⟨v, hv, hclient⟩ := Option.bind_eq_some_iff.1 hone
  obtain ⟨r, hr, hlength⟩ := Option.map_eq_some_iff.1 hclient
  obtain ⟨event, hgot⟩ := List.length_eq_one_iff.1 hlength
  refine ⟨v, r, event, hv, hr, hgot, ?_⟩
  exact (stream_authentic (plainEnv n) readsBack_fromText 1 node hv hr
    (hgot ▸ List.mem_singleton_self event)).1

/-! ### Everything that was sent -/

/-- When the client's stream reads, nothing that matches its filter is gone. -/
def InTime (c : Channel String EventFilter) (i : ι) (u : Service ι) (x : Act ι) : Prop :=
  x = .read i → ∀ r, u.clients i = some r → r.lost c u.hub.sent = []

theorem complete_serves (hu : Fanout.Sound c u.hub) (hc : Fanout.Complete c i u.hub)
    (h : Serves env c u x v) : Fanout.Complete c i v.hub ↔ InTime c i u x := by
  cases h with
  | quiet hhub => exact iff_of_true (by rwa [hhub]) nofun
  | @sent m a _ n display hn hadm hhub =>
    have hiff := Fanout.complete_step (a := .send (printNotification env n display)) hu hc
      (congrArg some hhub.symm)
    exact iff_of_true (hiff.2 nofun) nofun
  | connected hhub => exact iff_of_true ((Fanout.complete_step hu hc hhub).2 nofun) nofun
  | @read j _ hhub =>
    rw [Fanout.complete_step hu hc hhub]
    refine ⟨fun hin hx => hin ?_, fun hin hx => hin ?_⟩
    · cases hx
      rfl
    · cases hx
      rfl
  | disconnected hhub => exact iff_of_true ((Fanout.complete_step hu hc hhub).2 nofun) nofun

/-- **The stream is complete**: all along a run, what a client got is what came onto the channel between
its connection and its place in it and matches its filter, in order, exactly when nothing that matches
it is gone when it reads. -/
theorem stream_complete_iff (env : Env) (c : Channel String EventFilter) (node : Node) (i : ι)
    {xs : List (Act ι)} {v : Service ι} (h : run (step env c) (Service.start node) xs = some v) :
    (∀ pre u, pre <+: xs → run (step env c) (Service.start node) pre = some u →
        ∀ r, u.clients i = some r → r.got = r.due c u.hub.sent) ↔
      Along (step env c) (InTime c i) (Service.start node) xs :=
  always_iff_along (I := fun w : Service ι => Fanout.Sound c w.hub)
    (C := fun w : Service ι => Fanout.Complete c i w.hub) (A := fun _ => True)
    (fun _ _ _ hs _ hstep => sound_serves hs (serves_of_step hstep))
    (fun _ _ _ hs hc _ hstep => complete_serves hs hc (serves_of_step hstep))
    (fun _ _ hr => by cases hr) (fun _ hr => by cases hr) (fun _ _ => trivial) h

/-- A client that reads before the next notification. -/
theorem stream_complete_one :
    let n : GossipNotification := ⟨"1.0", "aa", 7, "podcast", "update", [], some 3, none⟩
    let node : Node := .start 7 (some "aa") none none none true false
    ∀ pre u, pre <+: [Act.connect () ⟨none, none, none⟩,
        .input (.fine 7) (.live (.received [1] "peer")), .read (),
        .input (.fine 8) (.live (.received [1] "peer"))] →
      run (step (plainEnv n) (channel 1 Json.fromText)) (Service.start node) pre = some u →
      ∀ r, u.clients () = some r → r.got = r.due (channel 1 Json.fromText) u.hub.sent := by
  intro n node
  obtain ⟨v, hv⟩ := Option.isSome_iff_exists.1 (by decide :
    (run (step (plainEnv n) (channel 1 Json.fromText)) (Service.start node)
      [Act.connect () ⟨none, none, none⟩, .input (.fine 7) (.live (.received [1] "peer")), .read (),
        .input (.fine 8) (.live (.received [1] "peer"))]).isSome)
  refine (stream_complete_iff (plainEnv n) (channel 1 Json.fromText) node () hv).2 ?_
  refine ⟨fun hx => (by cases hx), fun t ht => ?_⟩
  cases ht
  refine ⟨fun hx => (by cases hx), fun t ht => ?_⟩
  cases ht
  refine ⟨fun _ r hr => ?_, fun t ht => ?_⟩
  · cases hr
    decide
  · exact ⟨fun hx => (by cases hx), fun _ _ => trivial⟩

/-- A client that does not: of two notifications it gets one. -/
example :
    let n : GossipNotification := ⟨"1.0", "aa", 7, "podcast", "update", [], some 3, none⟩
    let received : Act Unit := .input (.fine 7) (.live (.received [1] "peer"))
    ((run (step (plainEnv n) (channel 1 Json.fromText))
        (Service.start (.start 7 (some "aa") none none none true false))
        [.connect () ⟨none, none, none⟩, received, received, .read (), .read ()]).bind fun v =>
      (v.clients ()).map fun r => (r.got.length, v.hub.sent.length)) = some (1, 2) := by
  decide

/-! ### One client at a time -/

/-- A client that reads while nothing else happens. -/
theorem run_reads (n : ℕ) {r : Receiver String EventFilter} (hsse : u.node.sseTx.isSome)
    (hr : u.clients i = some r) :
    ∃ v, run (step env c) u (List.replicate n (.read i)) = some v ∧ v.node = u.node ∧
      v.clients i = some ((Receiver.poll c u.hub.sent)^[n] r) := by
  induction n generalizing u r with
  | zero => exact ⟨u, rfl, rfl, hr⟩
  | succ n ih =>
    have hstep : step env c u (.read i) =
        some { u with clients := (u.hub.set i (some (r.poll c u.hub.sent))).receivers } := by
      show u.client c (.poll i) = _
      rw [Service.client, if_pos hsse]
      show Option.map _ ((u.clients i).map _) = _
      rw [hr]
      rfl
    obtain ⟨v, hv, hnode, hi⟩ := ih (u := { u with clients := (u.hub.set i _).receivers }) hsse
      (Fanout.receivers_set_self u.hub i (some (r.poll c u.hub.sent)))
    exact ⟨v, run_cons_eq_some.2 ⟨_, hstep, hv⟩, hnode, hi⟩

/-- Where there is a client, the stream is enabled. -/
theorem enabled_step (hu : ∀ i r, u.clients i = some r → u.node.sseTx.isSome)
    (h : step env c u x = some v) : ∀ i r, v.clients i = some r → v.node.sseTx.isSome := by
  have hclient : ∀ act, u.client c act = some v → v.node.sseTx.isSome := fun act hact => by
    unfold Service.client at hact
    split_ifs at hact with hsse
    obtain ⟨hub, -, rfl⟩ := Option.map_eq_some_iff.1 hact
    exact hsse
  cases x with
  | input m a =>
    cases h
    intro i r hr
    rw [sseEnabled_handle]
    exact hu i r hr
  | connect i filter => exact fun _ _ _ => hclient _ h
  | read i => exact fun _ _ _ => hclient _ h
  | disconnect i => exact fun _ _ _ => hclient _ h

/-- **What is sent is delivered**: a client that was in time all along a run, is no more than the
capacity behind and reads on, has got all that was sent since it connected and matches its filter. -/
theorem stream_delivers (env : Env) (c : Channel String EventFilter) (node : Node) {i : ι}
    {xs : List (Act ι)} {v : Service ι} (h : run (step env c) (Service.start node) xs = some v)
    (hin : Along (step env c) (InTime c i) (Service.start node) xs)
    {r : Receiver String EventFilter} (hr : v.clients i = some r)
    (hcapacity : v.hub.sent.length ≤ r.next + c.capacity) {n : ℕ}
    (hn : v.hub.sent.length ≤ r.next + n) :
    ∃ v' r', run (step env c) (Service.start node) (xs ++ List.replicate n (.read i)) = some v' ∧
      v'.clients i = some r' ∧ r'.got = (v.hub.sent.drop r.start).filter (c.accepts r.filter) := by
  have hsound : Fanout.Sound c v.hub :=
    inv_run (I := fun w : Service ι => Fanout.Sound c w.hub)
      (fun _ _ _ hs hstep => sound_serves hs (serves_of_step hstep)) (fun _ _ hr => by cases hr) h
  have hcomplete : Fanout.Complete c i v.hub := by
    refine (inv_run_along (I := fun w : Service ι => Fanout.Sound c w.hub ∧ Fanout.Complete c i w.hub)
      (fun _ _ _ hs hG hstep => ⟨sound_serves hs.1 (serves_of_step hstep),
        (complete_serves hs.1 hs.2 (serves_of_step hstep)).2 hG⟩) ⟨?_, ?_⟩ hin h).2
    · exact fun _ _ hr => by cases hr
    · exact fun _ hr => by cases hr
  have hsse : v.node.sseTx.isSome :=
    inv_run (I := fun w : Service ι => ∀ i r, w.clients i = some r → w.node.sseTx.isSome)
      (fun _ _ _ => enabled_step) (fun _ _ hr => by cases hr) h i r hr
  obtain ⟨v', hv', -, hi⟩ := run_reads n hsse hr
  have hr' : r.Sound c v.hub.sent := hsound i r hr
  have holdest : c.oldest v.hub.sent ≤ r.next := by
    unfold Channel.oldest
    omega
  refine ⟨v', _, ?_, hi, ?_⟩
  · rw [run_append, h]
    exact hv'
  · rw [(Fanout.polls_spec n hr' hn).2, max_eq_left holdest, hcomplete r hr, Receiver.due,
      ← Fanout.between_append hr'.start_le hr'.next_le, Receiver.between,
      List.take_of_length_le le_rfl]

/-- A client that connects, waits for a notification and reads. -/
theorem stream_delivers_one :
    let n : GossipNotification := ⟨"1.0", "aa", 7, "podcast", "update", [], some 3, none⟩
    let node : Node := .start 7 (some "aa") none none none true false
    ∃ v v' r r', run (step (plainEnv n) (channel 1 Json.fromText)) (Service.start node)
        [Act.connect () ⟨none, none, none⟩, .input (.fine 7) (.live (.received [1] "peer"))] = some v ∧
      run (step (plainEnv n) (channel 1 Json.fromText)) (Service.start node)
        [Act.connect () ⟨none, none, none⟩, .input (.fine 7) (.live (.received [1] "peer")), .read ()] =
          some v' ∧
      v.clients () = some r ∧ v'.clients () = some r' ∧
      r'.got = (v.hub.sent.drop r.start).filter ((channel 1 Json.fromText).accepts r.filter) := by
  intro n node
  have hone : ((run (step (plainEnv n) (channel 1 Json.fromText)) (Service.start node)
      [Act.connect () ⟨none, none, none⟩, .input (.fine 7) (.live (.received [1] "peer"))]).bind
        fun v => (v.clients ()).map fun r => (v.hub.sent.length, r.next)) = some (1, 0) := by decide
  obtain ⟨v, hv, hclient⟩ := Option.bind_eq_some_iff.1 hone
  obtain ⟨r, hr, hlength⟩ := Option.map_eq_some_iff.1 hclient
  obtain ⟨hsent, hnext⟩ := Prod.mk.inj hlength
  have hin : Along (step (plainEnv n) (channel 1 Json.fromText)) (InTime (channel 1 Json.fromText) ())
      (Service.start node)
      [.connect () ⟨none, none, none⟩, .input (.fine 7) (.live (.received [1] "peer"))] :=
    ⟨fun hx => (by cases hx), fun _ _ => ⟨fun hx => (by cases hx), fun _ _ => trivial⟩⟩
  obtain ⟨v', r', hv', hr', hgot⟩ := stream_delivers (plainEnv n) (channel 1 Json.fromText) node hv hin hr
    (by rw [hsent, hnext]; decide) (n := 1) (by rw [hsent, hnext])
  exact ⟨v, v', r, r', hv, hv', hr, hr', hgot⟩

/-- The step is by the listener or by this client. -/
def concerns (i : ι) : Act ι → Bool
  | .input .. => true
  | .connect j _ | .read j | .disconnect j => j = i

theorem agree_client {u' w : Service ι} {act : Fanout.Action String EventFilter ι}
    (hnode : u'.node = u.node) (hagree : Fanout.Agree i u.hub u'.hub)
    (hact : ∀ a, act ≠ .send a) (hconcerns : Fanout.concerns i act = true)
    (h : u.client c act = some w) :
    ∃ w', u'.client c act = some w' ∧ w'.node = w.node ∧ Fanout.Agree i w.hub w'.hub := by
  obtain ⟨hstep, hw⟩ := hub_of_client hact h
  obtain ⟨hub, hhub, hagree'⟩ := Fanout.agree_step hagree hconcerns hstep
  have hsse : u'.node.sseTx.isSome := by
    unfold Service.client at h
    split_ifs at h with hsse
    rwa [hnode]
  have hclient : u'.client c act = some { u' with clients := hub.receivers } := by
    rw [Service.client, if_pos hsse, hhub]
    rfl
  refine ⟨_, hclient, hnode.trans hw.symm, ?_, hagree'.2⟩
  show u'.hub.sent = w.hub.sent
  rw [hagree.1, sent_of_step hact hstep]

/-- **The clients do not disturb each other**: without the others, a client gets the same. -/
theorem stream_isolated (env : Env) (c : Channel String EventFilter) (node : Node) (i : ι)
    {xs : List (Act ι)} {v : Service ι} (h : run (step env c) (Service.start node) xs = some v) :
    ∃ v', run (step env c) (Service.start node) (xs.filter (concerns i)) = some v' ∧
      v'.node = v.node ∧ v'.clients i = v.clients i := by
  suffices hsuff : ∀ (u u' : Service ι) (xs : List (Act ι)), u'.node = u.node →
      Fanout.Agree i u.hub u'.hub → run (step env c) u xs = some v →
      ∃ v', run (step env c) u' (xs.filter (concerns i)) = some v' ∧ v'.node = v.node ∧
        Fanout.Agree i v.hub v'.hub by
    obtain ⟨v', hv', hnode, hagree⟩ := hsuff _ _ xs rfl ⟨rfl, rfl⟩ h
    exact ⟨v', hv', hnode, hagree.2⟩
  intro u u' xs hnode hagree hrun
  induction xs generalizing u u' with
  | nil =>
    cases hrun
    exact ⟨u', rfl, hnode, hagree⟩
  | cons x xs ih =>
    obtain ⟨w, hw, hr⟩ := run_cons_eq_some.1 hrun
    by_cases hx : concerns i x
    · have hstep : ∃ w', step env c u' x = some w' ∧ w'.node = w.node ∧
          Fanout.Agree i w.hub w'.hub := by
        cases x with
        | input m a =>
          cases hw
          refine ⟨_, rfl, by rw [hnode], ?_, hagree.2⟩
          show ((after (handle env m a) u'.node).sseTx).getD [] = _
          rw [hnode]
          rfl
        | connect j filter => exact agree_client hnode hagree (by rintro a ⟨⟩) hx hw
        | read j => exact agree_client hnode hagree (by rintro a ⟨⟩) hx hw
        | disconnect j => exact agree_client hnode hagree (by rintro a ⟨⟩) hx hw
      obtain ⟨w', hw', hnode', hagree'⟩ := hstep
      obtain ⟨v', hv', hfinal⟩ := ih w w' hnode' hagree' hr
      rw [List.filter_cons_of_pos hx]
      exact ⟨v', run_cons_eq_some.2 ⟨w', hw', hv'⟩, hfinal⟩
    · rw [List.filter_cons_of_neg hx]
      have hother : w.node = u.node ∧ Fanout.Agree i w.hub u.hub := by
        cases x with
        | input m a => exact absurd rfl hx
        | connect j filter =>
          obtain ⟨hhub, hw⟩ := hub_of_client (by rintro a ⟨⟩) hw
          exact ⟨hw, Fanout.agree_of_not_concerns (a := .subscribe j filter) (by exact hx) hhub⟩
        | read j =>
          obtain ⟨hhub, hw⟩ := hub_of_client (by rintro a ⟨⟩) hw
          exact ⟨hw, Fanout.agree_of_not_concerns (a := .poll j) (by exact hx) hhub⟩
        | disconnect j =>
          obtain ⟨hhub, hw⟩ := hub_of_client (by rintro a ⟨⟩) hw
          exact ⟨hw, Fanout.agree_of_not_concerns (a := .unsubscribe j) (by exact hx) hhub⟩
      exact ih w u' (hnode.trans hother.1.symm)
        ⟨hagree.1.trans hother.2.1, hagree.2.trans hother.2.2⟩ hr

/-- Two clients, one of which reads too late. -/
theorem stream_isolated_two :
    let n : GossipNotification := ⟨"1.0", "aa", 7, "podcast", "update", [], some 3, none⟩
    let node : Node := .start 7 (some "aa") none none none true false
    let received : Act Bool := .input (.fine 7) (.live (.received [1] "peer"))
    let acts : List (Act Bool) := [.connect true ⟨none, none, none⟩, .connect false ⟨none, none, none⟩,
      received, .read true, received, .read false, .read true]
    ∃ v v', run (step (plainEnv n) (channel 1 Json.fromText)) (Service.start node) acts = some v ∧
      run (step (plainEnv n) (channel 1 Json.fromText)) (Service.start node)
        (acts.filter (concerns true)) = some v' ∧ v'.clients true = v.clients true := by
  intro n node received acts
  obtain ⟨v, hv⟩ := Option.isSome_iff_exists.1 (by decide :
    (run (step (plainEnv n) (channel 1 Json.fromText)) (Service.start node) acts).isSome)
  obtain ⟨v', hv', -, hi⟩ := stream_isolated (plainEnv n) (channel 1 Json.fromText) node true hv
  exact ⟨v, v', hv, hv', hi⟩

end PodpingAlpha.Listener.Sse
