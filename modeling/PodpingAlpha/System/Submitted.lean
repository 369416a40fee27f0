import PodpingAlpha.FrontEnd.Requested
import PodpingAlpha.FrontEnd.Resend
import PodpingAlpha.Writer.Places

/-!
# The front-end and the gossip-writer

The processes of `podping/src/main.rs` and `gossip-writer/src/main.rs` at the two ends of a ZMQ socket: the
queue checker sends pings, and the ZMQ thread of the writer replies to them when it has flushed them.

## The model

A step is a step of one of the two processes, or the loss of a message. Each direction of the socket is a
list, its front first; a message may be lost anywhere in it, and the writer may crash and start anew. The
values of the enumerations are those of a schema that is not part of the sources, and any here.

The pings that were lost and the notifications that were handed to the channel are recorded; no process
reads the record.

## What is proved

* `processes_served` — each process does what it does in its own model, also where it relies on what the
  other one sends.
* `pings_conserved` — a ping that was sent is lost, on the socket, waiting, or in one notification.
* `replies_earned` — a reply is for a ping that was sent and is in a notification.
* `broadcasts_requested` — a notification is signed, and a client asked for each of its feeds.
-/

namespace PodpingAlpha.System

open Transition
open FrontEnd (Ping Queue Event Config Reason Medium Requested)
open Writer (PendingPing Token Send Process ProcessLabel SigningKey)

/-! ### Messages -/

/-- The values of the enumerations in the messages. -/
structure Codes where
  /-- `PodpingReason`. -/
  reason : Reason → Fin 3
  /-- `PodpingMedium`. -/
  medium : Medium → Fin 19

/-- The `PodpingWrite` of a ping, as `parse_zmq_message` reads it. -/
def Codes.podpingWrite (codes : Codes) (ping : Ping) : PendingPing where
  iri := ping.url
  mediumRaw := codes.medium ping.medium
  reasonRaw := codes.reason ping.reason

/-- The `PodpingHiveTransaction` that `send_zmq_reply` builds, as `receive_messages` reads it. -/
def hiveTransaction (timestampSecs : ℕ) (ping : PendingPing) : FrontEnd.Reply :=
  .podpingHiveTransaction timestampSecs (some [[ping.iri]])

/-- What an event put on the socket. -/
def submission (codes : Codes) : Event → Option PendingPing
  | .sent .gossip ping _ => some (codes.podpingWrite ping)
  | _ => none

/-- What was put on the socket. -/
def submissions (codes : Codes) (log : List Event) : List PendingPing := log.filterMap (submission codes)

/-! ### Steps -/

/-- The two processes and the socket. -/
structure Processes where
  /-- The front-end. -/
  frontEnd : FrontEnd.State
  /-- The gossip-writer. -/
  writer : Process
  /-- The pings on their way. -/
  toWriter : List PendingPing
  /-- The replies on their way. -/
  toFrontEnd : List FrontEnd.Reply
  /-- The pings that were lost. -/
  lost : List Token
  /-- The notifications that were handed to the channel. -/
  handed : List Send

/-- A step. -/
inductive Label where
  /-- The front-end does something else than to read what the gossip-writer sent. -/
  | frontEnd (a : FrontEnd.Label)
  /-- It reads a reply of the gossip-writer. -/
  | hear
  /-- The gossip-writer does something that the socket and the record do not see. -/
  | writer (a : ProcessLabel)
  /-- It reads a ping. -/
  | receive
  /-- It hands a notification to the channel. -/
  | send
  /-- It sends a reply, which may fail. -/
  | reply (timestampSecs : ℕ) (ok : Bool)
  /-- A ping is lost. -/
  | lose (i : ℕ)
  /-- A reply is lost. -/
  | loseReply (i : ℕ)
  /-- The gossip-writer starts anew. -/
  | restart (now : ℕ)

/-- What a step of the front-end puts on the socket. -/
def submitted (cfg : Config) (codes : Codes) (s : FrontEnd.State) : FrontEnd.Label → List PendingPing
  | .thread (.sends gossip _) =>
    match s.todo with
    | .send ping _ :: _ => if cfg.gossip && gossip then [codes.podpingWrite ping] else []
    | _ => []
  | _ => []

/-- The front-end would read a message of the gossip-writer. -/
def hears (s : FrontEnd.State) : FrontEnd.Label → Bool
  | .thread (.received (some _)) =>
    match s.todo with
    | .receive .gossip :: _ => true
    | _ => false
  | _ => false

/-- The label with the key of the process. -/
def withKey (signingKey : SigningKey) : ProcessLabel → ProcessLabel
  | .check env => .check { env with signingKey := signingKey }
  | .timed now env => .timed now { env with signingKey := signingKey }
  | a => a

theorem uses_withKey (signingKey : SigningKey) (a : ProcessLabel) :
    (withKey signingKey a).Uses signingKey := by
  cases a <;> first | rfl | trivial

/-- The socket or the record sees the step. -/
def seenOutside : ProcessLabel → Bool
  | .received (some _) | .send | .reply _ => true
  | _ => false

theorem quiet_of_not_seenOutside (signingKey : SigningKey) {a : ProcessLabel} (h : ¬seenOutside a) :
    (∀ p, withKey signingKey a ≠ .received (some p)) ∧ withKey signingKey a ≠ .send ∧
      ∀ ok, withKey signingKey a ≠ .reply ok := by
  cases a with
  | received ping =>
    cases ping with
    | none => simp [withKey]
    | some p => exact absurd rfl h
  | send => exact absurd rfl h
  | reply ok => exact absurd rfl h
  | _ => simp [withKey]

/-- One step; `none` where the label is not enabled. -/
def step (cfg : Config) (codes : Codes) (signingKey : SigningKey) (s : Processes) : Label → Option Processes
  | .frontEnd a =>
    if hears s.frontEnd a then none
    else (FrontEnd.step cfg s.frontEnd a).map fun frontEnd =>
      { s with frontEnd := frontEnd, toWriter := s.toWriter ++ submitted cfg codes s.frontEnd a }
  | .hear =>
    match s.frontEnd.todo, s.toFrontEnd with
    | .receive .gossip :: rest, reply :: replies =>
      let again := if reply.continues then [.receive .gossip] else []
      some { s with
        frontEnd := { s.frontEnd with todo := reply.removals ++ again ++ rest }, toFrontEnd := replies }
    | _, _ => none
  | .writer a =>
    if seenOutside a then none
    else (s.writer.step (withKey signingKey a)).map fun writer => { s with writer := writer }
  | .receive =>
    match s.toWriter with
    | [] => none
    | ping :: pings => (s.writer.step (.received (some ping))).map fun writer =>
      { s with writer := writer, toWriter := pings }
  | .send =>
    match s.writer.zmq with
    | .sending _ (n :: _) _ => (s.writer.step .send).map fun writer =>
      { s with writer := writer, handed := s.handed ++ [n] }
    | _ => none
  | .reply timestampSecs ok =>
    match s.writer.zmq with
    | .replying _ (ping :: _) _ => (s.writer.step (.reply ok)).map fun writer =>
      { s with
        writer := writer
        toFrontEnd := if ok then s.toFrontEnd ++ [hiveTransaction timestampSecs ping] else s.toFrontEnd }
    | _ => none
  | .lose i =>
    match s.toWriter[i]? with
    | some ping => some { s with toWriter := s.toWriter.eraseIdx i, lost := s.lost ++ [ping.token] }
    | none => none
  | .loseReply i => some { s with toFrontEnd := s.toFrontEnd.eraseIdx i }
  | .restart now => some { s with writer := .init now, lost := s.lost ++ s.writer.waiting }

/-- The processes when they start. -/
def start (cfg : Config) (queue : Queue) (now writerNow : ℕ) : Processes where
  frontEnd := .init cfg queue now
  writer := .init writerNow
  toWriter := []
  toFrontEnd := []
  lost := []
  handed := []

variable {cfg : Config} {codes : Codes} {signingKey : SigningKey} {s t : Processes}

/-! ### The log of the front-end -/

/-- A step puts on the socket what it says in the log. -/
theorem submissions_of_step {s t : FrontEnd.State} {a : FrontEnd.Label}
    (h : FrontEnd.step cfg s a = some t) :
    submissions codes t.log = submitted cfg codes s a ++ submissions codes s.log := by
  cases a with
  | tick => cases h; rfl
  | arrive url reason medium => cases h; rfl
  | insert i runs =>
    simp only [FrontEnd.step] at h
    split at h
    · split at h <;> cases h <;> rfl
    · cases h
  | update i runs =>
    simp only [FrontEnd.step] at h
    split at h
    · cases h
      simp only [submitted, List.nil_append]
      split_ifs <;> rfl
    · cases h
  | thread outcome =>
    simp only [FrontEnd.step, FrontEnd.threadStep] at h
    split at h
    · cases h; rfl
    · split at h <;> cases h
      rfl
    · cases h; rfl
    · cases h; rfl
    · rename_i ping v rest gossip hive htodo
      -- the message to the hive-writer is none to this one
      have hlog : submissions codes
          (if cfg.gossip && gossip then .sent .gossip ping v :: s.log else s.log) =
          (if cfg.gossip && gossip then [codes.podpingWrite ping] else []) ++ submissions codes s.log := by
        split_ifs <;> rfl
      simp only [submitted, htodo]
      cases hive <;> cases h <;> exact hlog
    · cases h; rfl
    · cases h; rfl
    · cases h

/-- What was put on the socket was read from the queue. -/
theorem mem_submissions {log : List Event} {p : PendingPing} :
    p ∈ submissions codes log ↔ ∃ ping v, .sent .gossip ping v ∈ log ∧ codes.podpingWrite ping = p := by
  rw [submissions, List.mem_filterMap]
  constructor
  · rintro ⟨e, he, heq⟩
    cases e with
    | wrote ping => cases heq
    | sent writer ping v =>
      cases writer with
      | hive => cases heq
      | gossip => exact ⟨ping, v, he, Option.some.inj heq⟩
  · rintro ⟨ping, v, he, rfl⟩
    exact ⟨_, he, rfl⟩

/-! ### The invariant -/

/-- Where the pings are. -/
def Processes.places (s : Processes) : List Token :=
  s.lost ++ s.toWriter.map PendingPing.token ++ s.writer.waiting ++ s.handed.flatMap Send.tokens

/-- What holds in every run. -/
structure Inv (codes : Codes) (signingKey : SigningKey) (s : Processes) : Prop where
  /-- The gossip-writer keeps what it promises. -/
  promised : s.writer.Promised signingKey s.handed
  /-- The notifications are signed. -/
  signed : ∀ n ∈ s.handed, n.SignedBy signingKey
  /-- Every ping is somewhere. -/
  places : ((submissions codes s.frontEnd.log).map PendingPing.token).Perm s.places
  /-- A reply is for a ping in a notification. -/
  replies : ∀ reply ∈ s.toFrontEnd, ∃ timestampSecs p,
    reply = hiveTransaction timestampSecs p ∧ ∃ n ∈ s.handed, n.Holds p

theorem inv_start (queue : Queue) (now writerNow : ℕ) :
    Inv codes signingKey (start cfg queue now writerNow) where
  promised := Process.promised_init writerNow
  signed n hn := absurd hn List.not_mem_nil
  places := by
    have hnone : submissions codes (FrontEnd.State.init cfg queue now).log = [] := by
      refine List.filterMap_eq_nil_iff.2 fun e he => ?_
      obtain ⟨row, -, rfl⟩ := List.mem_map.1 he
      rfl
    show ((submissions codes (FrontEnd.State.init cfg queue now).log).map PendingPing.token).Perm []
    rw [hnone]
    exact .nil
  replies reply h := absurd h List.not_mem_nil

/-- A ping in a notification was sent. -/
theorem Inv.sent (h : Inv codes signingKey s) {token : Token} {n : Send} (hn : n ∈ s.handed)
    (htoken : token ∈ n.tokens) :
    ∃ ping v, .sent .gossip ping v ∈ s.frontEnd.log ∧ (codes.podpingWrite ping).token = token := by
  have hmem := h.places.mem_iff.2 (List.mem_append_right _ (List.mem_flatMap.2 ⟨n, hn, htoken⟩))
  obtain ⟨p, hp, rfl⟩ := List.mem_map.1 hmem
  obtain ⟨ping, v, hsent, rfl⟩ := mem_submissions.1 hp
  exact ⟨ping, v, hsent, rfl⟩

/-- A reply names a feed that was sent. -/
theorem Inv.expected (h : Inv codes signingKey s) {reply : FrontEnd.Reply} (hreply : reply ∈ s.toFrontEnd) :
    ∀ url ∈ reply.iris, ∃ e ∈ s.frontEnd.log, FrontEnd.sentTo .gossip url e := by
  obtain ⟨timestampSecs, p, rfl, n, hn, hholds⟩ := h.replies reply hreply
  obtain ⟨ping, v, hsent, htoken⟩ := h.sent hn (Writer.holds_iff.1 hholds)
  intro url hurl
  obtain rfl : url = p.iri := List.mem_singleton.1 hurl
  refine ⟨_, hsent, ?_⟩
  rw [FrontEnd.sentTo, ← (Prod.mk.inj htoken).1]
  simp [Codes.podpingWrite]

/-- A step inside the writer, or between it and the socket. -/
theorem Inv.of_writer (h : Inv codes signingKey s) (hlog : t.frontEnd.log = s.frontEnd.log)
    (hpromised : t.writer.Promised signingKey t.handed) (hsigned : ∀ n ∈ t.handed, n.SignedBy signingKey)
    (hplaces : s.places.Perm t.places)
    (hreplies : ∀ reply ∈ t.toFrontEnd, reply ∈ s.toFrontEnd ∨ ∃ timestampSecs p,
      reply = hiveTransaction timestampSecs p ∧ ∃ n ∈ t.handed, n.Holds p)
    (hhanded : s.handed ⊆ t.handed) : Inv codes signingKey t where
  promised := hpromised
  signed := hsigned
  places := hlog ▸ h.places.trans hplaces
  replies reply hreply := by
    rcases hreplies reply hreply with hreply | hreply
    · obtain ⟨timestampSecs, p, heq, n, hn, hholds⟩ := h.replies reply hreply
      exact ⟨timestampSecs, p, heq, n, hhanded hn, hholds⟩
    · exact hreply

/-- One step keeps the invariant. -/
theorem inv_step {a : Label} (h : Inv codes signingKey s) (hstep : step cfg codes signingKey s a = some t) :
    Inv codes signingKey t := by
  cases a with
  | frontEnd a =>
    simp only [step] at hstep
    split_ifs at hstep
    obtain ⟨frontEnd, hfront, rfl⟩ := Option.map_eq_some_iff.1 hstep
    refine ⟨h.promised, h.signed, List.perm_iff_count.2 fun token => ?_, h.replies⟩
    have hcount := h.places.count_eq token
    simp only [Processes.places, submissions_of_step hfront, List.map_append, List.count_append] at hcount ⊢
    omega
  | hear =>
    simp only [step] at hstep
    split at hstep
    · rename_i rest reply replies htodo hreplies
      cases hstep
      refine ⟨h.promised, h.signed, h.places, fun r hr => h.replies r ?_⟩
      rw [hreplies]
      exact List.mem_cons_of_mem _ hr
    · cases hstep
  | writer a =>
    simp only [step] at hstep
    split_ifs at hstep with houtside
    obtain ⟨writer, hwriter, rfl⟩ := Option.map_eq_some_iff.1 hstep
    obtain ⟨hreceived, hsend, hreply⟩ := quiet_of_not_seenOutside signingKey houtside
    obtain ⟨hpromised, hwaiting⟩ :=
      h.promised.step_quiet (uses_withKey signingKey a) hreceived hsend hreply hwriter
    refine h.of_writer rfl hpromised h.signed (List.perm_iff_count.2 fun token => ?_) (fun _ => .inl)
      (List.Subset.refl _)
    have hcount := hwaiting.count_eq token
    simp only [Processes.places, List.count_append] at hcount ⊢
    omega
  | receive =>
    simp only [step] at hstep
    split at hstep
    · cases hstep
    · rename_i ping pings hsocket
      obtain ⟨writer, hwriter, rfl⟩ := Option.map_eq_some_iff.1 hstep
      obtain ⟨hpromised, hwaiting⟩ := h.promised.step_received hwriter
      refine h.of_writer rfl hpromised h.signed (List.perm_iff_count.2 fun token => ?_) (fun _ => .inl)
        (List.Subset.refl _)
      simp only [Processes.places, hsocket, hwaiting, List.count_append, List.map_cons, List.count_cons,
        List.count_nil]
      omega
  | send =>
    simp only [step] at hstep
    split at hstep
    · rename_i last n rest batch hz
      obtain ⟨writer, hwriter, rfl⟩ := Option.map_eq_some_iff.1 hstep
      obtain ⟨hpromised, hwaiting, hsigned⟩ := h.promised.step_send hz hwriter
      refine h.of_writer rfl hpromised ?_ (List.perm_iff_count.2 fun token => ?_) (fun _ => .inl)
        (List.subset_append_left _ _)
      · exact List.forall_mem_append.2 ⟨h.signed, List.forall_mem_singleton.2 hsigned⟩
      · simp only [Processes.places, hwaiting, List.count_append, List.flatMap_append, List.flatMap_cons,
          List.flatMap_nil, List.append_nil]
        omega
    · cases hstep
  | reply timestampSecs ok =>
    simp only [step] at hstep
    split at hstep
    · rename_i last ping rest batch hz
      obtain ⟨writer, hwriter, rfl⟩ := Option.map_eq_some_iff.1 hstep
      obtain ⟨hpromised, hwaiting, hholds⟩ := h.promised.step_reply hz hwriter
      refine h.of_writer rfl hpromised h.signed (.of_eq ?_) (fun r hr => ?_) (List.Subset.refl _)
      · simp only [Processes.places, hwaiting]
      · split_ifs at hr
        · rcases List.mem_append.1 hr with hr | hr
          · exact .inl hr
          · exact .inr ⟨timestampSecs, ping, List.mem_singleton.1 hr, hholds⟩
        · exact .inl hr
    · cases hstep
  | lose i =>
    simp only [step] at hstep
    split at hstep
    · rename_i ping hping
      cases hstep
      refine h.of_writer rfl h.promised h.signed (List.perm_iff_count.2 fun token => ?_) (fun _ => .inl)
        (List.Subset.refl _)
      obtain ⟨hi, rfl⟩ := List.getElem?_eq_some_iff.1 hping
      have hcount := ((List.getElem_cons_eraseIdx_perm hi).map PendingPing.token).count_eq token
      simp only [Processes.places, List.map_cons, List.count_append, List.count_cons,
        List.count_nil] at hcount ⊢
      omega
    · cases hstep
  | loseReply i =>
    cases hstep
    exact ⟨h.promised, h.signed, h.places, fun r hr => h.replies r (List.mem_of_mem_eraseIdx hr)⟩
  | restart now =>
    cases hstep
    refine h.of_writer rfl (Process.promised_init now) h.signed (List.perm_iff_count.2 fun token => ?_)
      (fun _ => .inl) (List.Subset.refl _)
    have hwaiting : (Process.init now).waiting = [] := rfl
    simp only [Processes.places, hwaiting, List.count_append, List.count_nil]
    omega

theorem inv_run_step {s : Processes} {as : List Label} (h : Inv codes signingKey s)
    (hrun : run (step cfg codes signingKey) s as = some t) : Inv codes signingKey t :=
  inv_run (fun _ _ _ hs hstep => inv_step hs hstep) h hrun

/-- What was handed to the channel stays handed. -/
theorem handed_step {a : Label} (hstep : step cfg codes signingKey s a = some t) :
    s.handed <+: t.handed := by
  cases a with
  | frontEnd a =>
    simp only [step] at hstep
    split_ifs at hstep
    obtain ⟨frontEnd, -, rfl⟩ := Option.map_eq_some_iff.1 hstep
    exact List.prefix_refl _
  | hear =>
    simp only [step] at hstep
    split at hstep <;> cases hstep
    exact List.prefix_refl _
  | writer a =>
    simp only [step] at hstep
    split_ifs at hstep
    obtain ⟨writer, -, rfl⟩ := Option.map_eq_some_iff.1 hstep
    exact List.prefix_refl _
  | receive =>
    simp only [step] at hstep
    split at hstep
    · cases hstep
    · obtain ⟨writer, -, rfl⟩ := Option.map_eq_some_iff.1 hstep
      exact List.prefix_refl _
  | send =>
    simp only [step] at hstep
    split at hstep
    · obtain ⟨writer, -, rfl⟩ := Option.map_eq_some_iff.1 hstep
      exact List.prefix_append _ _
    · cases hstep
  | reply timestampSecs ok =>
    simp only [step] at hstep
    split at hstep
    · obtain ⟨writer, -, rfl⟩ := Option.map_eq_some_iff.1 hstep
      exact List.prefix_refl _
    · cases hstep
  | lose i =>
    simp only [step] at hstep
    split at hstep <;> cases hstep
    exact List.prefix_refl _
  | loseReply i =>
    cases hstep
    exact List.prefix_refl _
  | restart now =>
    cases hstep
    exact List.prefix_refl _

/-! ### Runs -/

/-- What the front-end sees of a step. -/
def see (s : Processes) : Label → List FrontEnd.Label
  | .frontEnd a => [a]
  | .hear => s.toFrontEnd.head?.toList.map fun reply => .thread (.received (some reply))
  | _ => []

/-- The front-end takes the step in its own model. -/
theorem Inv.run_see (h : Inv codes signingKey s) {a : Label}
    (hstep : step cfg codes signingKey s a = some t) :
    run (FrontEnd.step cfg) s.frontEnd (see s a) = some t.frontEnd := by
  cases a with
  | frontEnd a =>
    simp only [step] at hstep
    split_ifs at hstep
    obtain ⟨frontEnd, hfront, rfl⟩ := Option.map_eq_some_iff.1 hstep
    exact run_cons_eq_some.2 ⟨frontEnd, hfront, rfl⟩
  | hear =>
    simp only [step] at hstep
    split at hstep
    · rename_i rest reply replies htodo hreplies
      cases hstep
      have hexpected := h.expected (show reply ∈ s.toFrontEnd by rw [hreplies]; exact List.mem_cons_self)
      have hsee : see s .hear = [.thread (.received (some reply))] := by rw [see, hreplies]; rfl
      rw [hsee]
      refine run_cons_eq_some.2 ⟨_, ?_, rfl⟩
      simp only [FrontEnd.step, FrontEnd.threadStep, htodo, if_pos hexpected, true_and]
    · cases hstep
  | writer a =>
    simp only [step] at hstep
    split_ifs at hstep
    obtain ⟨writer, -, rfl⟩ := Option.map_eq_some_iff.1 hstep
    rfl
  | receive =>
    simp only [step] at hstep
    split at hstep
    · cases hstep
    · obtain ⟨writer, -, rfl⟩ := Option.map_eq_some_iff.1 hstep
      rfl
  | send =>
    simp only [step] at hstep
    split at hstep
    · obtain ⟨writer, -, rfl⟩ := Option.map_eq_some_iff.1 hstep
      rfl
    · cases hstep
  | reply timestampSecs ok =>
    simp only [step] at hstep
    split at hstep
    · obtain ⟨writer, -, rfl⟩ := Option.map_eq_some_iff.1 hstep
      rfl
    · cases hstep
  | lose i =>
    simp only [step] at hstep
    split at hstep
    · cases hstep
      rfl
    · cases hstep
  | loseReply i =>
    cases hstep
    rfl
  | restart now =>
    cases hstep
    rfl

section Runs

variable {queue : Queue} {now writerNow : ℕ} {as : List Label}

/-- The run of the front-end. -/
theorem run_frontEnd
    (h : run (step cfg codes signingKey) (start cfg queue now writerNow) as = some t) :
    run (FrontEnd.step cfg) (.init cfg queue now)
      (seen (step cfg codes signingKey) see (start cfg queue now writerNow) as) = some t.frontEnd :=
  run_seen (f := Processes.frontEnd) (fun _ _ _ hs hstep => inv_step hs hstep)
    (fun _ _ _ hs hstep => hs.run_see hstep) (inv_start queue now writerNow) h

/-- What the front-end sent was asked for. -/
theorem requested_of_sent
    (h : run (step cfg codes signingKey) (start cfg queue now writerNow) as = some t) {ping : Ping} {v : ℕ}
    (hsent : .sent .gossip ping v ∈ t.frontEnd.log) :
    .frontEnd (.arrive ping.url ping.reason ping.medium) ∈ as ∨
      ∃ row, queue.find? ping.url = some row ∧ row.reason = ping.reason ∧ row.medium = ping.medium := by
  refine (FrontEnd.sent_requested (run_frontEnd h) hsent).imp_left fun harrive => ?_
  obtain ⟨s, a, ha, hsee⟩ := exists_of_mem_seen harrive
  cases a with
  | frontEnd a => exact List.mem_singleton.1 hsee ▸ ha
  | hear =>
    obtain ⟨reply, -, heq⟩ := List.mem_map.1 hsee
    cases heq
  | _ => cases hsee

/-- The gossip-writer takes the step in its own model, or starts anew. -/
theorem writer_of_step {a : Label} (hstep : step cfg codes signingKey s a = some t) :
    t.writer = s.writer ∨ (∃ b, s.writer.step b = some t.writer) ∨ ∃ now, t.writer = .init now := by
  cases a with
  | frontEnd a =>
    simp only [step] at hstep
    split_ifs at hstep
    obtain ⟨frontEnd, -, rfl⟩ := Option.map_eq_some_iff.1 hstep
    exact .inl rfl
  | hear =>
    simp only [step] at hstep
    split at hstep <;> cases hstep
    exact .inl rfl
  | writer a =>
    simp only [step] at hstep
    split_ifs at hstep
    obtain ⟨writer, hwriter, rfl⟩ := Option.map_eq_some_iff.1 hstep
    exact .inr (.inl ⟨_, hwriter⟩)
  | receive =>
    simp only [step] at hstep
    split at hstep
    · cases hstep
    · obtain ⟨writer, hwriter, rfl⟩ := Option.map_eq_some_iff.1 hstep
      exact .inr (.inl ⟨_, hwriter⟩)
  | send =>
    simp only [step] at hstep
    split at hstep
    · obtain ⟨writer, hwriter, rfl⟩ := Option.map_eq_some_iff.1 hstep
      exact .inr (.inl ⟨_, hwriter⟩)
    · cases hstep
  | reply timestampSecs ok =>
    simp only [step] at hstep
    split at hstep
    · obtain ⟨writer, hwriter, rfl⟩ := Option.map_eq_some_iff.1 hstep
      exact .inr (.inl ⟨_, hwriter⟩)
    · cases hstep
  | lose i =>
    simp only [step] at hstep
    split at hstep <;> cases hstep
    exact .inl rfl
  | loseReply i =>
    cases hstep
    exact .inl rfl
  | restart now =>
    cases hstep
    exact .inr (.inr ⟨now, rfl⟩)

/-- **Both processes are served**: whatever the other one does, and whatever is lost, the front-end runs as
it does in its own model, where it takes a reply only for a feed it has sent; and the gossip-writer has run
as it does in its own model since it started. -/
theorem processes_served
    (h : run (step cfg codes signingKey) (start cfg queue now writerNow) as = some t) :
    run (FrontEnd.step cfg) (.init cfg queue now)
      (seen (step cfg codes signingKey) see (start cfg queue now writerNow) as) = some t.frontEnd ∧
    ∃ started bs, run Process.step (.init started) bs = some t.writer := by
  refine ⟨run_frontEnd h, ?_⟩
  refine inv_run (I := fun s => ∃ started bs, run Process.step (.init started) bs = some s.writer)
    (fun s a t hs hstep => ?_) ⟨writerNow, [], rfl⟩ h
  obtain ⟨started, bs, hrun⟩ := hs
  rcases writer_of_step hstep with heq | ⟨b, hb⟩ | ⟨now, heq⟩
  · exact ⟨started, bs, heq ▸ hrun⟩
  · refine ⟨started, bs ++ [b], ?_⟩
    rw [run_append, hrun]
    exact run_cons_eq_some.2 ⟨_, hb, rfl⟩
  · exact ⟨now, [], by rw [heq]; rfl⟩

/-- **What is broadcast was asked for**: in every run, a notification that was passed to
`sender.broadcast` is the signed notification of its feeds, and each of these was asked for by a client, or
was in the queue when the front-end started, with this reason and this medium. -/
theorem broadcasts_requested
    (h : run (step cfg codes signingKey) (start cfg queue now writerNow) as = some t) :
    ∀ n, .notification n ∈ t.writer.passed → n.SignedBy signingKey ∧ ∀ iri ∈ n.iris, ∃ reason medium,
      n.mediumStr = Writer.mediumToString (codes.medium medium) ∧
      n.reasonStr = Writer.reasonToString (codes.reason reason) ∧
      (.frontEnd (.arrive iri reason medium) ∈ as ∨
        ∃ row, queue.find? iri = some row ∧ row.reason = reason ∧ row.medium = medium) := by
  have hinv := inv_run_step (inv_start queue now writerNow) h
  intro n hpassed
  have hn := hinv.promised.passed hpassed
  refine ⟨hinv.signed n hn, fun iri hiri => ?_⟩
  obtain ⟨ping, v, hsent, htoken⟩ := hinv.sent hn (List.mem_map_of_mem hiri)
  obtain ⟨rfl, hgroup⟩ := Prod.mk.inj htoken
  obtain ⟨hmedium, hreason⟩ := Prod.mk.inj hgroup
  exact ⟨ping.reason, ping.medium, hmedium.symm, hreason.symm, requested_of_sent h hsent⟩

end Runs

/-! ### A ping that is relayed -/

/-- The values under which `notification.rs` names the reasons and the mediums. -/
def namedCodes : Codes where
  reason r := ⟨Reason.variants.idxOf r, by cases r <;> decide⟩
  medium m := ⟨Medium.variants.idxOf m + 1, by cases m <;> decide⟩

/-- A ping from the queue is sent to both writers, and the gossip-writer receives it. -/
def relayedBefore (env : Writer.Env) : List Label :=
  [.frontEnd (.thread (.received none)), .frontEnd (.thread (.received none)),
    .frontEnd (.thread (.sql true)), .frontEnd (.thread (.sends true true)),
    .writer (.check env), .receive]

/-- It flushes the ping, the broadcast task takes the notification, and a reply is sent. -/
def relayedAfter : List Label :=
  [.send, .writer .sent, .reply 7 true, .writer .take, .writer .load, .writer .call]

/-- The whole of it. -/
def relayed (env : Writer.Env) : List Label :=
  relayedBefore env ++ .writer (.timed 3000 env) :: relayedAfter

theorem run_relayed (signingKey : SigningKey) (env : Writer.Env) :
    ∃ t, run (step ⟨true, false⟩ namedCodes signingKey) (start ⟨true, false⟩ FrontEnd.backlog 100 0)
        (relayed env) = some t ∧
      t.toFrontEnd.length = 1 ∧ t.writer.passed.length = 1 := by
  let ping : PendingPing := ⟨"u", 1, 0⟩
  let waiting : Process := { Process.init 0 with zmq := .timer, pending := [ping] }
  obtain ⟨frontEnd, hbefore⟩ : ∃ frontEnd, run (step ⟨true, false⟩ namedCodes signingKey)
      (start ⟨true, false⟩ FrontEnd.backlog 100 0) (relayedBefore env) =
        some ⟨frontEnd, waiting, [], [], [], []⟩ := ⟨_, rfl⟩
  obtain ⟨seqCounter, n, hflush⟩ :=
    Process.startFlush_singleton waiting { env with signingKey := signingKey } false rfl
  have htimed : step ⟨true, false⟩ namedCodes signingKey ⟨frontEnd, waiting, [], [], [], []⟩
      (.writer (.timed 3000 env)) = some ⟨frontEnd, waiting.startFlush { env with signingKey := signingKey }
        false, [], [], [], []⟩ := rfl
  rw [relayed, run_append, hbefore, Option.bind_some, run_cons, htimed, hflush]
  exact ⟨_, rfl, rfl, rfl⟩

theorem processes_served_relayed : ∃ t : Processes,
    run (FrontEnd.step ⟨true, false⟩) (.init ⟨true, false⟩ FrontEnd.backlog 100)
      (seen (step ⟨true, false⟩ namedCodes Writer.plainEnv.signingKey) see
        (start ⟨true, false⟩ FrontEnd.backlog 100 0) (relayed Writer.plainEnv)) = some t.frontEnd ∧
    ∃ started bs, run Process.step (.init started) bs = some t.writer := by
  obtain ⟨t, hrun, -⟩ := run_relayed Writer.plainEnv.signingKey Writer.plainEnv
  exact ⟨t, processes_served hrun⟩

theorem broadcasts_requested_relayed : ∃ t : Processes, t.writer.passed.length = 1 ∧
    ∀ n, .notification n ∈ t.writer.passed → n.SignedBy Writer.plainEnv.signingKey ∧
      ∀ iri ∈ n.iris, ∃ reason medium,
        n.mediumStr = Writer.mediumToString (namedCodes.medium medium) ∧
        n.reasonStr = Writer.reasonToString (namedCodes.reason reason) ∧
        (.frontEnd (.arrive iri reason medium) ∈ relayed Writer.plainEnv ∨
          ∃ row, FrontEnd.backlog.find? iri = some row ∧ row.reason = reason ∧ row.medium = medium) := by
  obtain ⟨t, hrun, -, hpassed⟩ := run_relayed Writer.plainEnv.signingKey Writer.plainEnv
  exact ⟨t, hpassed, broadcasts_requested hrun⟩

end PodpingAlpha.System
