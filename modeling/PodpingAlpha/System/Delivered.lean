import PodpingAlpha.Listener.Panics
import PodpingAlpha.Listener.Sse
import PodpingAlpha.System.Submitted
import PodpingAlpha.Wire.Agreement
import PodpingAlpha.Wire.Signing

/-!
# From a request to an event

The front-end, the gossip-writer, a listener and the clients of its event stream: the whole way of a feed,
from the request of `podping/src/handler.rs` to the text that `gossip-listener/src/sse.rs` streams.

## The model

A step is a step of the two processes of `System.Submitted`, or of the service of `Listener.Sse`. The
network between them belongs to an adversary: what the listener handles, live or in a catch-up, may be any
bytes, at any time and as often as it likes. What it cannot do is to sign (`Unforged`): under the key of
the gossip-writer no notification verifies but one that was handed to the channel.

## What is proved

* `valid_requested` — in every run, a feed that a client reads of under the name of the gossip-writer, in
  an event whose signature is called valid, was asked for, with this reason and this medium.
* `handed_shown` — a notification that was handed to the channel, wherever and whenever it arrives, is
  shown as valid, with all its feeds, to every client that waits for it.
-/

namespace PodpingAlpha.System.Delivered

open Dtt.Crypto (Bytes32)
open FrontEnd (Config Queue)
open Listener (Admitted Env Genuine GossipNotification Input Moment Node Overflows Returns Unpoisoned
  notification? printNotification sigStatus)
open Listener.Sse (Act EventFilter ReadsBack Service channel getStr shownFields)
open Outcome Text Transition Wire
open Writer (Send SigningKey)

/-! ### What an event tells -/

/-- An event, as a client of the stream reads it, tells of a feed under the name of a sender whose
signature is valid. -/
structure Tells (fromStr : String → Option Json) (event sender iri medium reason : String) : Prop where
  /-- It is an object with these fields, -/
  fields : ∃ parsed, fromStr event = some parsed ∧ getStr parsed "sender" = some sender ∧
    getStr parsed "sig_status" = some "VALID" ∧ getStr parsed "medium" = some medium ∧
    getStr parsed "reason" = some reason
  /-- and one with the feed. -/
  feed : ∃ fields iris, fromStr event = some (.obj fields) ∧ fields.lookup "iris" = some (.arr iris) ∧
    .str iri ∈ iris

variable {env : Env} {fromStr : String → Option Json} {n : GossipNotification}

theorem sigStatus_eq_valid : sigStatus env n = "VALID" ↔ n.verifySignature env.ed25519 = .ok true := by
  unfold sigStatus
  split
  · rename_i h
    exact iff_of_true rfl h
  · rename_i h
    rw [h]
    exact iff_of_false (by decide) (by rintro ⟨⟩)
  · rename_i h
    rw [h]
    exact iff_of_false (by decide) (by rintro ⟨⟩)

/-- **What a printed notification tells.** -/
theorem tells_printNotification (h : ReadsBack fromStr) (env : Env) (n : GossipNotification)
    (display sender iri medium reason : String) :
    Tells fromStr (printNotification env n display) sender iri medium reason ↔
      n.sender = sender ∧ n.verifySignature env.ed25519 = .ok true ∧ n.medium = medium ∧
        n.reason = reason ∧ iri ∈ n.iris := by
  have hread := Listener.Sse.fromStr_printNotification h env n display
  have hsender : getStr (.obj (shownFields env n display)) "sender" = some n.sender := rfl
  have hstatus : getStr (.obj (shownFields env n display)) "sig_status" = some (sigStatus env n) := rfl
  have hmedium : getStr (.obj (shownFields env n display)) "medium" = some n.medium := rfl
  have hreason : getStr (.obj (shownFields env n display)) "reason" = some n.reason := rfl
  have hiris : (shownFields env n display).lookup "iris" = some (.arr (n.iris.map .str)) := rfl
  constructor
  · rintro ⟨⟨parsed, hparsed, h1, h2, h3, h4⟩, fields, iris, hfields, hlookup, hmem⟩
    rw [hread] at hparsed hfields
    cases hparsed
    cases hfields
    rw [hiris] at hlookup
    cases hlookup
    obtain ⟨iri', hiri', heq⟩ := List.mem_map.1 hmem
    cases heq
    exact ⟨Option.some.inj (hsender.symm.trans h1),
      sigStatus_eq_valid.1 (Option.some.inj (hstatus.symm.trans h2)),
      Option.some.inj (hmedium.symm.trans h3), Option.some.inj (hreason.symm.trans h4), hiri'⟩
  · rintro ⟨rfl, hverified, rfl, rfl, hiri⟩
    refine ⟨⟨_, hread, hsender, ?_, hmedium, hreason⟩, _, _, hread, hiris, List.mem_map_of_mem hiri⟩
    rw [hstatus, sigStatus_eq_valid.2 hverified]

/-! ### What a listener shows -/

variable {m : Moment} {a : Input} {s : Node}

/-- A notification that passes the gate is printed, unless the step panics. -/
theorem printed_handle (hn : notification? env a = some n) (hadm : Admitted s.trustedPublishers.value n)
    (hsse : s.sseTx.isSome) (hreturns : Returns env s (m, a)) :
    ∃ display, (after (Listener.handle env m a) s).sseTx =
      s.sseTx.map (· ++ [printNotification env n display]) := by
  obtain ⟨json, hjson⟩ := after_of_completes hreturns (Listener.sent_handle hn hadm)
  obtain ⟨sent, hsent⟩ := Option.isSome_iff_exists.1 hsse
  rcases Listener.Sse.appended_handle env m s a with hsame | ⟨n', display, hn', -, hprinted⟩
  · rw [hsame, hsent] at hjson
    simp at hjson
  · cases hn.symm.trans hn'
    exact ⟨display, hprinted⟩

/-- A notification with a sender that can be cut does not make the listener panic, where the locks are free
and the number does not overflow. -/
theorem returns_of_notification (hs : Unpoisoned s) (hn : notification? env a = some n)
    (hcuts : Cuts 8 n.sender) (hnumber : ¬Overflows env s.lastSeqPerSender.value n.sender) :
    Returns env s (m, a) := by
  cases a with
  | catchup payload =>
    change env.parseGossipNotification payload = some n at hn
    show Completes (Listener.catchupPayload env m payload) (fun _ => True) s
    obtain ⟨display, hdisplay⟩ := Option.isSome_iff_exists.1 hcuts
    rw [Completes, Listener.catchupPayload, hn]
    dsimp only
    rw [Listener.wp_gated, hs.1, if_neg Bool.false_ne_true, wp_bind, wp_cut, hdisplay]
    split_ifs
    exact trivial
  | live ev =>
    refine (Listener.completes_receive (P := fun _ => True) hs ev).2 ⟨?_, trivial⟩
    cases ev with
    | received content deliveredFrom =>
      change (Listener.classify env content).notification? = some n at hn
      show Listener.HarmlessMessage env s (Listener.classify env content)
      cases hclass : Listener.classify env content with
      | notification n' =>
        rw [hclass] at hn
        cases hn
        exact fun _ => ⟨hcuts, fun _ => hnumber⟩
      | _ =>
        rw [hclass] at hn
        cases hn
    | _ => cases hn

/-- The input carries these bytes. -/
def Carries (payload : Bytes) : Input → Prop
  | .live (.received content _) => content = payload
  | .live _ => False
  | .catchup content => content = payload

/-- The payload of the writer is taken for the notification that it signed. -/
theorem notification?_of_carries {fromSlice : Bytes → Option Json} {ed : Listener.Ed25519}
    {signingKey : SigningKey} (hserde : Json.RoundTrips fromSlice) (henv : env.Reads fromSlice ed)
    (n : Writer.GossipNotification) (h : Carries (n.signedPayload signingKey) a) :
    notification? env a = some (toListener (n.sign signingKey)) := by
  have hread : fromSlice (n.signedPayload signingKey) = some (.obj (n.sign signingKey).fields) :=
    hserde _ (n.sign signingKey).flat_fields
  have hsuggest : env.parsePeerSuggest (n.signedPayload signingKey) = none := by
    rw [henv.suggest, hread]
    exact suggest_fromJson_notification _
  have hannounce : env.parsePeerAnnounce (n.signedPayload signingKey) = none := by
    rw [henv.announce, hread]
    exact announce_fromJson_notification _
  have hnotification : env.parseGossipNotification (n.signedPayload signingKey) =
      some (toListener (n.sign signingKey)) := by
    rw [henv.notification, hread]
    exact notification_fromJson_notification _
  cases a with
  | catchup content =>
    obtain rfl : content = _ := h
    exact hnotification
  | live ev =>
    cases ev with
    | received content deliveredFrom =>
      obtain rfl : content = _ := h
      show (Listener.classify env _).notification? = _
      rw [Listener.classify, hsuggest, Listener.classifyEvent, hannounce, hnotification]
      rfl
    | _ => exact h.elim

/-! ### The whole way -/

/-- The two processes, and the service of a listener. -/
structure World (ι : Type) where
  /-- The front-end and the gossip-writer. -/
  processes : Processes
  /-- The listener and the clients of its stream. -/
  service : Service ι

/-- What happens next. -/
inductive Label (ι : Type) where
  /-- A step of the processes. -/
  | processes (a : System.Label)
  /-- A step of the service. -/
  | service (x : Act ι)

/-- What the key of the gossip-writer has signed and is known outside: the notifications that were handed to
the channel, and any endorsements and records. -/
def Signed (signingKey : SigningKey) (handed : List Send) : Signable → Prop
  | .message (.notification c) => ∃ n ∈ handed, ∃ seq timestamp,
    c = (toListener (.new signingKey.pubkeyHex n.mediumStr n.reasonStr n.iris (some seq) timestamp)).canonical
  | .message (.endorse _) => True
  | .message (.suggest _) => False
  | .record .. => True

variable {ι : Type}

/-- Nobody else signs under the key of the gossip-writer. -/
def Unforged (env : Env) (signingKey : SigningKey) (topic : Bytes32) (x : World ι) : Label ι → Prop
  | .service (.input _ a) => ∀ n, notification? env a = some n → n.sender = signingKey.pubkeyHex →
    n.verifySignature env.ed25519 = .ok true →
      ∃ signed, Signed signingKey x.processes.handed signed ∧ signed.bytes topic = n.canonicalBytes
  | _ => True

/-- A notification of the channel has the feed, with this reason and this medium. -/
def Handed (handed : List Send) (iri medium reason : String) : Prop :=
  ∃ n ∈ handed, n.mediumStr = medium ∧ n.reasonStr = reason ∧ iri ∈ n.iris

variable {cfg : Config} {codes : Codes} {signingKey : SigningKey} {topic : Bytes32}
  {c : Fanout.Channel String EventFilter} {x y : World ι} {label : Label ι}

/-- One step. -/
def step [DecidableEq ι] (cfg : Config) (codes : Codes) (signingKey : SigningKey) (env : Env)
    (c : Fanout.Channel String EventFilter) (x : World ι) : Label ι → Option (World ι)
  | .processes a => (System.step cfg codes signingKey x.processes a).map fun processes =>
    { x with processes := processes }
  | .service act => (Listener.Sse.step env c x.service act).map fun service => { x with service := service }

/-- The start of the processes, beside a listener without clients. -/
def World.start (cfg : Config) (queue : Queue) (now writerNow : ℕ) (node : Node) : World ι :=
  ⟨System.start cfg queue now writerNow, .start node⟩

/-! ### The invariant -/

/-- What holds in every run. -/
structure Inv (codes : Codes) (signingKey : SigningKey) (fromStr : String → Option Json)
    (c : Fanout.Channel String EventFilter) (x : World ι) : Prop where
  /-- The processes run as they do alone. -/
  processes : System.Inv codes signingKey x.processes
  /-- A client has got nothing but what was sent. -/
  sound : Fanout.Sound c x.service.hub
  /-- What an event tells of was handed to the channel. -/
  told : ∀ event ∈ x.service.hub.sent, ∀ iri medium reason,
    Tells fromStr event signingKey.pubkeyHex iri medium reason →
      Handed x.processes.handed iri medium reason

/-- What the listener prints, and tells of a feed under the name of the writer, was handed to the channel. -/
theorem handed_of_printed (hparse : ReadsBack fromStr) (htopic : topic.head ≠ 123)
    (hunforged : Unforged env signingKey topic x (.service (.input m a)))
    (hn : notification? env a = some n) {display iri medium reason : String}
    (htells : Tells fromStr (printNotification env n display) signingKey.pubkeyHex iri medium reason) :
    Handed x.processes.handed iri medium reason := by
  obtain ⟨hsender, hverified, rfl, rfl, hiri⟩ := (tells_printNotification hparse ..).1 htells
  obtain ⟨signed, hsigned, hbytes⟩ := hunforged n hn hsender hverified
  have hmessage : signed = .message (.notification n.canonical) := Signable.bytes_injective htopic hbytes
  rw [hmessage] at hsigned
  obtain ⟨handed, hmem, seq, timestamp, hcanonical⟩ := hsigned
  obtain ⟨hiris, hmedium, hreason, -⟩ := CanonicalNotification.mk.inj hcanonical
  refine ⟨handed, hmem, hmedium.symm, hreason.symm, ?_⟩
  rw [hiris] at hiri
  exact hiri

theorem inv_start (cfg : Config) (queue : Queue) (now writerNow : ℕ) {node : Node}
    (hnode : node.sseTx.getD [] = []) :
    Inv codes signingKey fromStr c (.start cfg queue now writerNow node : World ι) where
  processes := System.inv_start queue now writerNow
  sound := fun _ _ hr => by cases hr
  told := by
    show ∀ event ∈ node.sseTx.getD [], _
    rw [hnode]
    exact List.forall_mem_nil _

variable [DecidableEq ι]

theorem inv_step (hparse : ReadsBack fromStr) (htopic : topic.head ≠ 123)
    (h : Inv codes signingKey fromStr c x) (hunforged : Unforged env signingKey topic x label)
    (hstep : step cfg codes signingKey env c x label = some y) : Inv codes signingKey fromStr c y := by
  cases label with
  | processes a =>
    obtain ⟨processes, hprocesses, rfl⟩ := Option.map_eq_some_iff.1 hstep
    refine ⟨System.inv_step h.processes hprocesses, h.sound, ?_⟩
    intro event hevent iri medium reason htells
    obtain ⟨n, hn, hrest⟩ := h.told event hevent iri medium reason htells
    exact ⟨n, (handed_step hprocesses).subset hn, hrest⟩
  | service act =>
    obtain ⟨service, hservice, rfl⟩ := Option.map_eq_some_iff.1 hstep
    have hserves := Listener.Sse.serves_of_step hservice
    refine ⟨h.processes, Listener.Sse.sound_serves h.sound hserves, ?_⟩
    have hsame : service.hub.sent = x.service.hub.sent → ∀ event ∈ service.hub.sent,
        ∀ iri medium reason, Tells fromStr event signingKey.pubkeyHex iri medium reason →
          Handed x.processes.handed iri medium reason := fun hsent => hsent ▸ h.told
    cases hserves with
    | quiet hhub => exact hsame (congrArg _ hhub)
    | sent display hn hadm hhub =>
      show ∀ event ∈ service.hub.sent, _
      rw [hhub]
      refine List.forall_mem_append.2 ⟨h.told, List.forall_mem_singleton.2 ?_⟩
      intro iri medium reason htells
      exact handed_of_printed hparse htopic hunforged hn htells
    | connected hhub => exact hsame (Listener.Sse.sent_of_step (by rintro a ⟨⟩) hhub)
    | read hhub => exact hsame (Listener.Sse.sent_of_step (by rintro a ⟨⟩) hhub)
    | disconnected hhub => exact hsame (Listener.Sse.sent_of_step (by rintro a ⟨⟩) hhub)

/-! ### What is handed over is shown -/

/-- The filter asks for the notification of this sender. -/
structure Wants (filter : EventFilter) (sender : String) (n : Send) : Prop where
  medium : ∀ medium ∈ filter.medium, n.mediumStr = medium
  reason : ∀ reason ∈ filter.reason, n.reasonStr = reason
  sender : ∀ senderPrefix ∈ filter.sender, senderPrefix.toList <+: sender.toList

/-- The listener streams what it gets of a sender. -/
structure Listens (env : Env) (s : Node) (sender : String) : Prop where
  /-- No lock is poisoned. -/
  unpoisoned : Unpoisoned s
  /-- The sender passes the gate. -/
  admitted : s.trustedPublishers.value = ∅ ∨ sender ∈ s.trustedPublishers.value
  /-- Its next number does not overflow. -/
  number : ¬Overflows env s.lastSeqPerSender.value sender
  /-- The stream is enabled. -/
  enabled : s.sseTx.isSome

/-- A notification of the channel arrives. -/
theorem shown_of_handed (cfg : Config) (c : Fanout.Channel String EventFilter) (m : Moment)
    {fromSlice : Bytes → Option Json} {ed : Listener.Ed25519} {key : List.Vector UInt8 32}
    (hserde : Json.RoundTrips fromSlice) (hkey : Genuine ed signingKey key)
    (henv : env.Reads fromSlice ed) (hparse : ReadsBack fromStr)
    (hinv : System.Inv codes signingKey x.processes) {n : Send} (hn : n ∈ x.processes.handed)
    (hcarries : Carries n.payload a) (hlistens : Listens env x.service.node signingKey.pubkeyHex) :
    ∃ event y, step cfg codes signingKey env c x (.service (.input m a)) = some y ∧
      y.service.clients = x.service.clients ∧ y.service.node.sseTx.isSome ∧
      y.service.hub.sent = x.service.hub.sent ++ [event] ∧
      (∀ iri ∈ n.iris, Tells fromStr event signingKey.pubkeyHex iri n.mediumStr n.reasonStr) ∧
      ∀ filter, Listener.Sse.matchesFilter fromStr event filter = true ↔
        Wants filter signingKey.pubkeyHex n := by
  obtain ⟨seq, timestamp, hpayload⟩ := hinv.signed n hn
  rw [hpayload] at hcarries
  let built : Writer.GossipNotification :=
    .new signingKey.pubkeyHex n.mediumStr n.reasonStr n.iris (some seq) timestamp
  let shown := toListener (built.sign signingKey)
  have hread : notification? env a = some shown := notification?_of_carries hserde henv built hcarries
  have hverified : shown.verifySignature env.ed25519 = .ok true := by
    rw [henv.ed25519]
    exact Listener.GossipNotification.verifySignature_genuine hkey rfl rfl
  have hcuts : Cuts 8 shown.sender := by
    refine cuts_of_decode (b := key.toList) ?_ 8
    show Hex.decode signingKey.pubkeyHex = _
    rw [hkey.pubkeyHex, Hex.decode_encode]
  obtain ⟨display, hprinted⟩ := printed_handle (m := m) hread hlistens.admitted hlistens.enabled
    (returns_of_notification hlistens.unpoisoned hread hcuts hlistens.number)
  obtain ⟨sent, hsent⟩ := Option.isSome_iff_exists.1 hlistens.enabled
  rw [hsent] at hprinted
  refine ⟨printNotification env shown display, _, rfl, rfl, ?_, ?_, fun iri hiri => ?_, fun filter => ?_⟩
  · show (after (Listener.handle env m a) x.service.node).sseTx.isSome
    rw [hprinted]
    rfl
  · show (after (Listener.handle env m a) x.service.node).sseTx.getD [] = x.service.node.sseTx.getD [] ++ _
    rw [hprinted, hsent]
    rfl
  · exact (tells_printNotification hparse ..).2 ⟨rfl, hverified, rfl, rfl, hiri⟩
  · rw [Listener.Sse.matchesFilter_printNotification hparse]
    exact ⟨fun h => ⟨h.medium, h.reason, h.sender⟩, fun h => ⟨h.medium, h.reason, h.sender⟩⟩

/-- A client that has read all but the last message reads that. -/
theorem read_last (cfg : Config) (codes : Codes) (signingKey : SigningKey) (env : Env) {i : ι}
    {r : Fanout.Receiver String EventFilter} (hr : x.service.clients i = some r)
    (hsse : x.service.node.sseTx.isSome) {sent : List String} {event : String}
    (hsent : x.service.hub.sent = sent ++ [event]) (hnext : r.next = sent.length) (hcapacity : 0 < c.capacity)
    (haccepts : c.accepts r.filter event = true) :
    ∃ y r', step cfg codes signingKey env c x (.service (.read i)) = some y ∧
      y.service.clients i = some r' ∧ r'.got = r.got ++ [event] := by
  have hpoll : (r.poll c x.service.hub.sent).got = r.got ++ [event] := by
    have holdest : c.oldest x.service.hub.sent ≤ r.next := by
      rw [Fanout.Channel.oldest, hsent, hnext, List.length_append, List.length_singleton]
      omega
    have hread : x.service.hub.sent[r.next]? = some event := by
      rw [hsent, hnext, List.getElem?_concat_length]
    rcases Fanout.poll_cases c x.service.hub.sent r with ⟨hlag, -⟩ | ⟨-, e, he, hpoll⟩ | ⟨-, hle, -⟩
    · omega
    · cases hread.symm.trans he
      rw [hpoll, if_pos haccepts]
    · rw [List.getElem?_eq_none hle] at hread
      cases hread
  obtain ⟨service, hrun, -, hclient⟩ := Listener.Sse.run_reads (c := c) 1 hsse hr
  obtain ⟨service', hstep, heq⟩ := run_cons_eq_some.1 hrun
  cases heq
  exact ⟨{ x with service := service }, _, Option.map_eq_some_iff.2 ⟨service, hstep, rfl⟩, hclient, hpoll⟩

/-! ### Runs -/

/-- What the processes see of a step. -/
def see (_ : World ι) : Label ι → List System.Label
  | .processes a => [a]
  | .service _ => []

section Runs

variable {queue : Queue} {now writerNow : ℕ} {node : Node} {as : List (Label ι)}

/-- The run of the processes. -/
theorem run_processes
    (h : run (step cfg codes signingKey env c) (.start cfg queue now writerNow node : World ι) as = some y) :
    run (System.step cfg codes signingKey) (System.start cfg queue now writerNow)
      (seen (step cfg codes signingKey env c) see (.start cfg queue now writerNow node : World ι) as) =
        some y.processes := by
  refine run_seen (I := fun _ : World ι => True) (f := World.processes) (fun _ _ _ _ _ => trivial)
    (fun x label y _ hstep => ?_) trivial h
  cases label with
  | processes a =>
    obtain ⟨processes, hprocesses, rfl⟩ := Option.map_eq_some_iff.1 hstep
    exact run_cons_eq_some.2 ⟨processes, hprocesses, rfl⟩
  | service act =>
    obtain ⟨service, -, rfl⟩ := Option.map_eq_some_iff.1 hstep
    rfl

/-- **What is handed over is shown**: after any run, let a notification that was handed to the channel arrive
at a listener that streams what it gets of the writer, live or in a catch-up. Then there is one event, which
tells of all feeds of the notification and calls its signature valid, and every client that wants it and has
read all before it reads it next. -/
theorem handed_shown {fromSlice : Bytes → Option Json} {ed : Listener.Ed25519} {key : List.Vector UInt8 32}
    (hserde : Json.RoundTrips fromSlice) (hkey : Genuine ed signingKey key) (henv : env.Reads fromSlice ed)
    (hparse : ReadsBack fromStr) {capacity : ℕ} (hcapacity : 0 < capacity)
    (h : run (step cfg codes signingKey env (channel capacity fromStr))
      (.start cfg queue now writerNow node : World ι) as = some x) {n : Send}
    (hn : n ∈ x.processes.handed) (m : Moment) {a : Input} (hcarries : Carries n.payload a)
    (hlistens : Listens env x.service.node signingKey.pubkeyHex) :
    ∃ event, (∀ iri ∈ n.iris, Tells fromStr event signingKey.pubkeyHex iri n.mediumStr n.reasonStr) ∧
      ∀ i r, x.service.clients i = some r → r.next = x.service.hub.sent.length →
        Wants r.filter signingKey.pubkeyHex n → ∃ y r',
          run (step cfg codes signingKey env (channel capacity fromStr)) x
            [.service (.input m a), .service (.read i)] = some y ∧
          y.service.clients i = some r' ∧ r'.got = r.got ++ [event] := by
  have hinv : System.Inv codes signingKey x.processes :=
    inv_run_step (System.inv_start queue now writerNow) (run_processes h)
  obtain ⟨event, y, hy, hclients, hsse, hsent, htells, hmatches⟩ :=
    shown_of_handed cfg (channel capacity fromStr) m hserde hkey henv hparse hinv hn hcarries hlistens
  refine ⟨event, htells, fun i r hr hnext hwants => ?_⟩
  rw [← hclients] at hr
  obtain ⟨z, r', hz, hr', hgot⟩ :=
    read_last cfg codes signingKey env (c := channel capacity fromStr) hr hsse hsent hnext hcapacity
      ((hmatches r.filter).2 hwants)
  exact ⟨z, r', run_cons_eq_some.2 ⟨y, hy, run_cons_eq_some.2 ⟨z, hz, rfl⟩⟩, hr', hgot⟩

end Runs

/-! ### A ping on its way -/

/-- The processes run, and the service waits. -/
theorem run_map_processes (env : Env) (c : Fanout.Channel String EventFilter) (service : Service ι)
    {s t : Processes} {as : List System.Label} (h : run (System.step cfg codes signingKey) s as = some t) :
    run (step cfg codes signingKey env c) (⟨s, service⟩ : World ι) (as.map .processes) =
      some ⟨t, service⟩ := by
  induction as generalizing s with
  | nil =>
    cases h
    rfl
  | cons a as ih =>
    obtain ⟨u, hu, hrun⟩ := run_cons_eq_some.1 h
    refine run_cons_eq_some.2 ⟨⟨u, service⟩, ?_, ih hrun⟩
    rw [step, hu]
    rfl

/-- A listener that trusts the key of the writer. -/
def plainListener : Node := .start 7 (some plainKey.pubkeyHex) none none none true false

theorem listens_plainListener : Listens plainReader plainListener plainKey.pubkeyHex where
  unpoisoned := ⟨rfl, rfl, rfl⟩
  admitted := .inr (by decide)
  number := fun h => Bool.false_ne_true h.1
  enabled := rfl

/-- A client connects, and a ping is relayed. -/
def plainRun : List (Label Unit) :=
  .service (.connect () ⟨none, none, none⟩) :: (relayed Writer.plainEnv).map .processes

/-- What the run leads to. -/
theorem run_plainRun : ∃ x : World Unit,
    run (step ⟨true, false⟩ namedCodes plainKey plainReader (channel 1 Json.fromText))
      (.start ⟨true, false⟩ FrontEnd.backlog 100 0 plainListener) plainRun = some x ∧
    x.service.node = plainListener ∧ x.service.clients () = some (.new ⟨none, none, none⟩ []) ∧
    ∃ n ∈ x.processes.handed, ∃ iri, iri ∈ n.iris := by
  obtain ⟨t, hrun, hreply, -⟩ := run_relayed plainKey Writer.plainEnv
  have hinv := inv_run_step (System.inv_start FrontEnd.backlog 100 0) hrun
  obtain ⟨reply, hreplies⟩ := List.length_eq_one_iff.1 hreply
  obtain ⟨timestampSecs, p, -, n, hn, hholds⟩ :=
    hinv.replies reply (hreplies ▸ List.mem_singleton_self reply)
  let clients : Unit → Option (Fanout.Receiver String EventFilter) :=
    Function.update (fun _ => none) () (some (.new ⟨none, none, none⟩ []))
  have hclient : clients () = some (.new ⟨none, none, none⟩ []) := Function.update_self ..
  exact ⟨⟨t, ⟨plainListener, clients⟩⟩,
    run_cons_eq_some.2 ⟨⟨_, ⟨plainListener, clients⟩⟩, rfl, run_map_processes _ _ _ hrun⟩, rfl, hclient,
    n, hn, p.iri, hholds.2⟩

theorem handed_shown_relayed : ∃ (x y : World Unit) (r : Fanout.Receiver String EventFilter),
    ∃ n ∈ x.processes.handed, ∃ iri ∈ n.iris, ∃ event,
      run (step ⟨true, false⟩ namedCodes plainKey plainReader (channel 1 Json.fromText)) x
        [.service (.input (.fine 7) (.live (.received n.payload "m"))), .service (.read ())] = some y ∧
      y.service.clients () = some r ∧ r.got = [event] ∧
      Tells Json.fromText event plainKey.pubkeyHex iri n.mediumStr n.reasonStr := by
  obtain ⟨x, hrun, hnode, hclient, n, hn, iri, hiri⟩ := run_plainRun
  have hlistens : Listens plainReader x.service.node plainKey.pubkeyHex := hnode ▸ listens_plainListener
  obtain ⟨event, htells, hshown⟩ := handed_shown Json.roundTrips_fromBytes genuine_plainKey
    plainReader_reads Listener.Sse.readsBack_fromText one_pos hrun hn (.fine 7)
    (a := .live (.received n.payload "m")) rfl hlistens
  have hsent : x.service.hub.sent = [] := by
    show x.service.node.sseTx.getD [] = []
    rw [hnode]
    rfl
  obtain ⟨y, r, hy, hr, hgot⟩ := hshown () _ hclient (by rw [hsent]; rfl)
    ⟨fun _ h => (by cases h), fun _ h => (by cases h), fun _ h => (by cases h)⟩
  exact ⟨x, y, r, n, hn, iri, hiri, event, hy, hr, hgot, htells iri hiri⟩

end PodpingAlpha.System.Delivered
