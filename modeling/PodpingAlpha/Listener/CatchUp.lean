import PodpingAlpha.Library.Transition
import PodpingAlpha.Listener.Effects

/-!
# Catching up

A listener that starts asks a peer for the messages archived since the newest one in its own archive,
`run_catchup` against `ArchiveSyncHandler::accept`. It asks once, and what it stores, from the answer
or live, is new in its own archive whatever its age.

## The model

A server, a listener whose archive survives its stops, and one clock. A round begins when the server
answers; its frames arrive one by one among the live messages, and it may be cut at any of them. The
server's archive grows by the messages that reach both of them, by those that reach it while the
listener is stopped, and by those the listener does not want. The trusted set is fixed, and the
statements of SQLite run. Where `now - 86400` wraps around, a build that checks for it does not
start.

## What is proved

* `db_catchupPayload`, `db_handleNotification`, `db_handle` — what a payload does to the archive.
* `caughtUp_iff` — after every round that runs to its end, the listener has every message that it
  wants of the server's archive from the first `since` on, if and only if, when the server answered,
  it had those that the answer leaves out, because they are older than `since` or exceed the limit.
* `hole_after_cut` — a cut round.
-/

namespace PodpingAlpha.Listener

open Outcome Text Transition

/-! ### What a payload does to the archive -/

/-- What becomes of a payload. -/
inductive Fate where
  /-- It is stored. -/
  | kept (n : GossipNotification)
  /-- It is dropped. -/
  | ignored
  /-- The task that handles it panics. -/
  | panics

/-- The fate of a payload under a trusted set. -/
def fate (env : Env) (tp : Finset String) (payload : Bytes) : Fate :=
  match env.parseGossipNotification payload with
  | none => .ignored
  | some n => if Admitted tp n then if Cuts 8 n.sender then .kept n else .panics else .ignored

/-- What a payload does to the archive. -/
def Fate.store (env : Env) (m : Moment) (payload : Bytes) (db : Archive) : Fate → Archive
  | .kept n => db.keep env m payload n
  | .ignored | .panics => db

/-- A notification from a trusted sender. -/
def Wanted (env : Env) (tp : Finset String) (payload : Bytes) : Prop :=
  ∃ n ∈ env.parseGossipNotification payload, Admitted tp n

instance (env : Env) (tp : Finset String) (payload : Bytes) : Decidable (Wanted env tp payload) :=
  inferInstanceAs (Decidable (∃ _ ∈ _, _))

variable {env : Env} {tp : Finset String}

/-- On the catch-up path a notification is stored if it passes the gate and its sender can be cut. -/
theorem db_catchupPayload_of_parse {s : Node} {m : Moment} {payload : Bytes} {n : GossipNotification}
    (hn : env.parseGossipNotification payload = some n) :
    (after (catchupPayload env m payload) s).db =
      if s.trustedPublishers.poisoned = false ∧ Admitted s.trustedPublishers.value n ∧ Cuts 8 n.sender
        then s.db.map fun db => db.keep env m payload n else s.db := by
  refine (wp_after (P := fun t : Node => t.db = _)).1 ?_
  rw [catchupPayload, hn]
  dsimp only
  rw [wp_gated]
  by_cases hpoisoned : s.trustedPublishers.poisoned = true
  · rw [if_pos hpoisoned, if_neg fun h => Bool.false_ne_true (h.1.symm.trans hpoisoned)]
  · rw [if_neg hpoisoned]
    by_cases hadm : Admitted s.trustedPublishers.value n
    · rw [if_pos hadm, wp_bind, wp_cut]
      by_cases hcut : Cuts 8 n.sender
      · obtain ⟨display, hdisplay⟩ := Option.isSome_iff_exists.1 hcut
        rw [hdisplay, if_pos ⟨Bool.eq_false_of_not_eq_true hpoisoned, hadm, hcut⟩]
        rfl
      · rw [Option.not_isSome_iff_eq_none.1 hcut, if_neg fun h => hcut h.2.2]
        rfl
    · rw [if_neg hadm, if_neg fun h => hadm h.2.1]

/-- On the catch-up path a payload is stored exactly when it is kept. -/
theorem db_catchupPayload {s : Node} (hs : s.trustedPublishers = .new tp) {m : Moment}
    {payload : Bytes} :
    (after (catchupPayload env m payload) s).db =
      s.db.map fun db => (fate env tp payload).store env m payload db := by
  have hsame : s.db = s.db.map fun db => db := Option.map_id'.symm
  rw [fate]
  cases hparse : env.parseGossipNotification payload with
  | none =>
    rw [catchupPayload, hparse]
    exact hsame
  | some n =>
    have hfree : s.trustedPublishers.poisoned = false := by rw [hs]; rfl
    have hvalue : s.trustedPublishers.value = tp := by rw [hs]; rfl
    rw [db_catchupPayload_of_parse hparse, hvalue]
    dsimp only
    by_cases hadm : Admitted tp n
    · by_cases hcut : Cuts 8 n.sender
      · rw [if_pos ⟨hfree, hadm, hcut⟩, if_pos hadm, if_pos hcut]
        rfl
      · rw [if_neg fun h => hcut h.2.2, if_pos hadm, if_neg hcut]
        exact hsame
    · rw [if_neg fun h => hadm h.2.1, if_neg hadm]
      exact hsame

/-- On the live path a notification that passes the gate is stored, unless the step panics before. -/
theorem wp_db_handleNotification {s : Node} {m : Moment} {raw : Bytes} {n : GossipNotification} :
    wp (handleNotification env m raw n)
      (fun _ t => t.db =
        if Admitted s.trustedPublishers.value n then s.db.map fun db => db.keep env m raw n else s.db)
      (fun _ t => t.db = s.db) s := by
  have hseq : Keeps Node.db (recordSeq env n) := keeps_recordSeq (fun _ _ _ => rfl) env n
  have hshow : ∀ t : Node, t.db = s.db →
      wp (showNotification env m raw n) (fun _ u => u.db = s.db.map fun db => db.keep env m raw n)
        (fun _ u => u.db = s.db) t := by
    intro t ht
    simp only [showNotification, deliver]
    rw [wp_bind]
    refine wp_mono (fun known u hu => ?_) (fun _ _ hu => hu.trans ht)
      (keeps_read (f := Node.db)).wp
    rw [wp_bind, wp_cut]
    cases short 8 n.sender with
    | none => exact hu.trans ht
    | some display => exact congrArg (Option.map _) (hu.trans ht)
  rw [handleNotification]
  rw [wp_bind, wp_modify, wp_gated]
  split_ifs with hpoisoned hadm
  · rfl
  · rw [wp_bind]
    exact wp_mono (fun _ t ht => hshow t ht) (fun _ _ ht => ht) hseq.wp
  · rfl

/-- On the live path a notification is stored exactly when it passes the gate, if the step does not
panic. -/
theorem db_handleNotification {s : Node} (hs : s.trustedPublishers = .new tp) {m : Moment}
    {raw : Bytes} {n : GossipNotification}
    (hreturns : Completes (handleNotification env m raw n) (fun _ => True) s) :
    (after (handleNotification env m raw n) s).db =
      if Admitted tp n then s.db.map fun db => db.keep env m raw n else s.db := by
  refine after_of_completes (P := fun t : Node => t.db = _) (E := fun _ _ => True) hreturns ?_
  refine wp_mono (fun _ t ht => ?_) (fun _ _ _ => trivial) wp_db_handleNotification
  rw [ht, hs]
  rfl

/-- The payload that an input carries. -/
def Input.payload? : Input → Option Bytes
  | .live (.received content _) => some content
  | .live _ => none
  | .catchup payload => some payload

/-- What is taken for a notification parses as one. -/
theorem parse_of_classify {raw : Bytes} {n : GossipNotification}
    (h : classify env raw = .notification n) : env.parseGossipNotification raw = some n := by
  have hevent : classifyEvent env raw = .notification n := by
    unfold classify at h
    split at h
    · split_ifs at h
      exact h
    · exact h
  unfold classifyEvent at hevent
  split at hevent
  · split_ifs at hevent
  · split at hevent
    · cases hevent
      assumption
    · cases hevent

/-- A message is a notification and is kept, or the archive stays as it is. -/
theorem db_handleMessage (m : Moment) (raw : Bytes) (s : Node) :
    let t := after (handleMessage env m raw (classify env raw)) s
    t.db = s.db ∨
      ∃ n ∈ env.parseGossipNotification raw, t.db = s.db.map fun db => db.keep env m raw n := by
  intro t
  unfold t
  cases hclass : classify env raw with
  | suggest g => exact .inl (keeps_suggest (fun _ _ => rfl) env m g s)
  | announce a => exact .inl (keeps_announce (fun _ _ => rfl) (fun _ _ => rfl) env m a s)
  | endorse a =>
    exact .inl (keeps_endorse (fun _ _ => rfl) (fun _ _ => rfl) (fun _ _ => rfl) env m a s)
  | ignored => exact .inl rfl
  | notification n =>
    refine (wp_after (P := fun t : Node => t.db = s.db ∨ ∃ n ∈ env.parseGossipNotification raw,
      t.db = s.db.map fun db => db.keep env m raw n)).1 ?_
    refine wp_mono (fun _ t ht => ?_) (fun _ _ ht => .inl ht) wp_db_handleNotification
    split_ifs at ht
    · exact .inr ⟨n, parse_of_classify hclass, ht⟩
    · exact .inl ht

/-- And so it is with a payload from the archive of a peer. -/
theorem db_catchupPayload_cases (m : Moment) (payload : Bytes) (s : Node) :
    let t := after (catchupPayload env m payload) s
    t.db = s.db ∨ ∃ n ∈ env.parseGossipNotification payload,
      t.db = s.db.map fun db => db.keep env m payload n := by
  intro t
  unfold t
  cases hparse : env.parseGossipNotification payload with
  | none =>
    rw [catchupPayload, hparse]
    exact .inl rfl
  | some n =>
    rw [db_catchupPayload_of_parse hparse]
    split_ifs
    · exact .inr ⟨n, rfl, rfl⟩
    · exact .inl rfl

/-- **What an input does to the archive**: nothing, or it is a notification and is kept. -/
theorem db_handle (m : Moment) (a : Input) (s : Node) :
    (after (handle env m a) s).db = s.db ∨ ∃ raw ∈ a.payload?, ∃ n ∈ env.parseGossipNotification raw,
      (after (handle env m a) s).db = s.db.map fun db => db.keep env m raw n := by
  cases a with
  | live ev =>
    cases ev with
    | neighborUp nodeId =>
      exact .inl (keeps_neighborUp (fun _ _ _ => rfl) (fun _ _ _ _ => rfl) env m nodeId s)
    | neighborDown nodeId => exact .inl (keeps_neighborDown (fun _ _ _ => rfl) env m nodeId s)
    | lagged => exact .inl rfl
    | received content deliveredFrom =>
      refine Or.imp_right (fun h => ⟨content, rfl, h⟩) ?_
      exact db_handleMessage m content
        { s with uniqueSources := insert deliveredFrom s.uniqueSources }
  | catchup payload => exact (db_catchupPayload_cases m payload s).imp id fun h => ⟨payload, rfl, h⟩

/-- A row that has been kept is an old one or the new one. -/
theorem mem_rows_keep {db : Archive} {m : Moment} {payload : Bytes} {n : GossipNotification}
    {row : Message} : row ∈ (db.keep env m payload n).messages.rows ↔
      row ∈ db.messages.rows ∨ row = ⟨env.blake3 payload, payload, asI64 m.now⟩ ∧
        m.sql.messages = true ∧ ¬db.Holds (env.blake3 payload) := by
  cases hsql : m.sql.messages with
  | false =>
    rw [Archive.keep, Archive.store, if_neg (by rw [hsql]; exact Bool.false_ne_true)]
    exact (or_iff_left fun h => Bool.false_ne_true h.2.1).symm
  | true =>
    rw [Archive.keep, Archive.mem_rows_store hsql, and_iff_right rfl]

/-! ### The system -/

/-- The two archives. -/
structure Archives where
  /-- The server's. -/
  server : Archive
  /-- The listener's. -/
  listener : Archive
  deriving DecidableEq

/-- The round of a listener that is running. -/
inductive Round where
  /-- It has not asked yet. -/
  | waiting
  /-- The server answered when the archives were `asked`, and these frames are still to come. -/
  | streaming (asked : Archives) (frames : List Bytes)
  /-- It is over. -/
  | over

/-- A listener that is running. -/
structure Session where
  /-- `since`. -/
  since : UInt64
  /-- Its round. -/
  round : Round

/-- The state of the two nodes. -/
structure Sync where
  /-- The clock. -/
  now : UInt64
  /-- The archives. -/
  archives : Archives
  /-- The listener, if it is running. -/
  session : Option Session
  /-- The `since` of the first round. -/
  firstSince : Option UInt64

/-- What happens. -/
inductive SyncLabel where
  /-- The clock advances. -/
  | tick (now : UInt64)
  /-- A message reaches the server only. -/
  | serverStore (payload : Bytes)
  /-- The listener starts. -/
  | start
  /-- The server answers. -/
  | connect
  /-- The next frame arrives. -/
  | frame
  /-- The stream is cut. -/
  | cut
  /-- The stream ends. -/
  | finish
  /-- A message that is new to the server reaches both. -/
  | live (payload : Bytes)
  /-- The listener stops. -/
  | stop
  deriving DecidableEq

/-- `since`, computed by `main`. -/
def resumeFrom (now : UInt64) (db : Archive) : UInt64 := db.latestTimestamp.getD (now - 86400)

/-- The messages that `accept` sends, oldest first. -/
def answer (server : Archive) (since : UInt64) : List Message := (server.rowsSince since).take 50000

/-- Both have empty archives. -/
def Sync.init (now : UInt64) : Sync := ⟨now, ⟨.empty, .empty⟩, none, none⟩

/-- One step. -/
def syncStep (env : Env) (tp : Finset String) (s : Sync) : SyncLabel → Option Sync
  | .tick now => if s.now ≤ now then some { s with now } else none
  | .serverStore payload =>
    match env.parseGossipNotification payload with
    | some n =>
      if s.session.isNone ∨ ¬Wanted env tp payload then
        some { s with archives.server := s.archives.server.keep env (.fine s.now) payload n }
      else none
    | none => none
  | .start =>
    if s.session.isNone then
      some { s with session := some ⟨resumeFrom s.now s.archives.listener, .waiting⟩ }
    else none
  | .connect =>
    match s.session with
    | some ⟨since, .waiting⟩ =>
      let frames := (answer s.archives.server since).map Message.payload
      some { s with
        session := some ⟨since, .streaming s.archives frames⟩
        firstSince := some (s.firstSince.getD since) }
    | _ => none
  | .frame =>
    match s.session with
    | some ⟨since, .streaming asked (payload :: frames)⟩ =>
      -- at such a length `run_catchup` stops to read
      if payload.length = 0 ∨ 10000000 < payload.length then
        some { s with session := some ⟨since, .over⟩ }
      else
        let fate := fate env tp payload
        let round :=
          match fate with
          | .panics => .over
          | _ => .streaming asked frames
        some { s with
          archives.listener := fate.store env (.fine s.now) payload s.archives.listener
          session := some ⟨since, round⟩ }
    | _ => none
  | .cut =>
    match s.session with
    | some ⟨since, .streaming _ _⟩ => some { s with session := some ⟨since, .over⟩ }
    | _ => none
  | .finish =>
    match s.session with
    | some ⟨since, .streaming _ []⟩ => some { s with session := some ⟨since, .over⟩ }
    | _ => none
  | .live payload =>
    match classify env payload, fate env tp payload with
    | .notification _, .kept n =>
      if s.session.isSome ∧ ¬s.archives.server.Holds (env.blake3 payload) then
        some { s with
          archives :=
            { server := s.archives.server.keep env (.fine s.now) payload n
              listener := s.archives.listener.keep env (.fine s.now) payload n } }
      else none
    | _, _ => none
  | .stop => if s.session.isSome then some { s with session := none } else none

/-! ### The property and the condition -/

/-- A round of which every frame has arrived: its `since`, and the archives when the server
answered. -/
def Sync.arrived (s : Sync) : Option (UInt64 × Archives) :=
  match s.session with
  | some ⟨since, .streaming asked []⟩ => some (since, asked)
  | _ => none

/-- The listener has every message that it wants of the server's archive from a moment on. -/
def Archives.Complete (env : Env) (tp : Finset String) (archives : Archives) (first : UInt64) : Prop :=
  ∀ m ∈ archives.server.messages.rows, Wanted env tp m.payload → asI64 first ≤ m.createdAt →
    archives.listener.Holds m.hash

instance (archives : Archives) (first : UInt64) : Decidable (archives.Complete env tp first) :=
  inferInstanceAs (Decidable (∀ m ∈ _, _ → _ → _))

/-- When a round ends, the listener has every message that it wants of the server's archive from the
first `since` on. -/
def CaughtUp (env : Env) (tp : Finset String) (s : Sync) (a : SyncLabel) : Prop :=
  a = .finish → ∀ _r ∈ s.arrived, ∀ first ∈ s.firstSince, s.archives.Complete env tp first

instance (s : Sync) (a : SyncLabel) : Decidable (CaughtUp env tp s a) :=
  have : Decidable (∀ first ∈ s.firstSince, s.archives.Complete env tp first) :=
    Option.decidableForallMem _
  inferInstanceAs (Decidable (_ → ∀ _ ∈ s.arrived, ∀ first ∈ s.firstSince, _))

/-- When a round ends that the server answered when the archives were `asked`, the listener had, of
the messages that it wants from the first `since` on, those that the answer leaves out. -/
def Covered (env : Env) (tp : Finset String) (s : Sync) (a : SyncLabel) : Prop :=
  a = .finish → ∀ r ∈ s.arrived, ∀ first ∈ s.firstSince, ∀ m ∈ r.2.server.messages.rows,
    Wanted env tp m.payload → asI64 first ≤ m.createdAt → m ∉ answer r.2.server r.1 →
      r.2.listener.Holds m.hash

/-! ### What a step does -/

/-- What a step can do. -/
inductive SyncMove (env : Env) (tp : Finset String) (s : Sync) : SyncLabel → Sync → Prop where
  | tick {now : UInt64} : SyncMove env tp s (.tick now) { s with now }
  | serverStore {payload : Bytes} {n : GossipNotification}
      (h : s.session = none ∨ ¬Wanted env tp payload) :
      SyncMove env tp s (.serverStore payload)
        { s with archives.server := s.archives.server.keep env (.fine s.now) payload n }
  | start {since : UInt64} : SyncMove env tp s .start { s with session := some ⟨since, .waiting⟩ }
  | connect {since : UInt64} {firstSince : Option UInt64} :
      SyncMove env tp s .connect
        { s with
          session :=
            some ⟨since, .streaming s.archives ((answer s.archives.server since).map Message.payload)⟩
          firstSince }
  | frameKept {since : UInt64} {asked : Archives} {payload : Bytes} {frames : List Bytes}
      {n : GossipNotification} (h : s.session = some ⟨since, .streaming asked (payload :: frames)⟩) :
      SyncMove env tp s .frame
        { s with
          archives.listener := s.archives.listener.keep env (.fine s.now) payload n
          session := some ⟨since, .streaming asked frames⟩ }
  | frameIgnored {since : UInt64} {asked : Archives} {payload : Bytes} {frames : List Bytes}
      (h : s.session = some ⟨since, .streaming asked (payload :: frames)⟩)
      (hf : ¬Wanted env tp payload) :
      SyncMove env tp s .frame { s with session := some ⟨since, .streaming asked frames⟩ }
  | ended {a : SyncLabel} {since : UInt64} :
      SyncMove env tp s a { s with session := some ⟨since, .over⟩ }
  | live {payload : Bytes} {n : GossipNotification}
      (h : ¬s.archives.server.Holds (env.blake3 payload)) :
      SyncMove env tp s (.live payload)
        { s with
          archives :=
            { server := s.archives.server.keep env (.fine s.now) payload n
              listener := s.archives.listener.keep env (.fine s.now) payload n } }
  | stop : SyncMove env tp s .stop { s with session := none }

theorem not_wanted_of_ignored {payload : Bytes} (h : fate env tp payload = .ignored) :
    ¬Wanted env tp payload := by
  rintro ⟨n, hn, hadm⟩
  unfold fate at h
  rw [hn] at h
  dsimp only at h
  rw [if_pos hadm] at h
  split_ifs at h

theorem move_of_syncStep {s t : Sync} {a : SyncLabel} (h : syncStep env tp s a = some t) :
    SyncMove env tp s a t := by
  cases a with
  | tick now =>
    simp only [syncStep] at h
    split_ifs at h
    cases h
    exact .tick
  | serverStore payload =>
    simp only [syncStep] at h
    split at h
    · split_ifs at h with hfree
      cases h
      exact .serverStore (hfree.imp_left Option.isNone_iff_eq_none.1)
    · cases h
  | start =>
    simp only [syncStep] at h
    split_ifs at h
    cases h
    exact .start
  | connect =>
    simp only [syncStep] at h
    split at h
    · cases h
      exact .connect
    · cases h
  | frame =>
    simp only [syncStep] at h
    split at h
    · rename_i hsession
      split_ifs at h
      · cases h
        exact .ended
      · cases hfate : fate env tp _ with
        | kept n =>
          rw [hfate] at h
          cases h
          exact .frameKept hsession
        | ignored =>
          rw [hfate] at h
          cases h
          exact .frameIgnored hsession (not_wanted_of_ignored hfate)
        | panics =>
          rw [hfate] at h
          cases h
          exact .ended
    · cases h
  | cut =>
    simp only [syncStep] at h
    split at h
    · cases h
      exact .ended
    · cases h
  | finish =>
    simp only [syncStep] at h
    split at h
    · cases h
      exact .ended
    · cases h
  | live payload =>
    simp only [syncStep] at h
    split at h
    · split_ifs at h with hnew
      cases h
      exact .live hnew.2
    · cases h
  | stop =>
    simp only [syncStep] at h
    split_ifs at h
    cases h
    exact .stop

/-! ### During a round -/

theorem holds_keep {db : Archive} {now : UInt64} {payload : Bytes} {n : GossipNotification}
    {hash : String} :
    (db.keep env (.fine now) payload n).Holds hash ↔ db.Holds hash ∨ hash = env.blake3 payload :=
  Archive.holds_store rfl

/-- The messages have the hashes of their payloads. -/
def Hashed (env : Env) (db : Archive) : Prop := ∀ m ∈ db.messages.rows, m.hash = env.blake3 m.payload

theorem Hashed.keep {db : Archive} (h : Hashed env db) (m : Moment) (payload : Bytes)
    (n : GossipNotification) : Hashed env (db.keep env m payload n) := by
  intro row hrow
  obtain hrow | ⟨rfl, -⟩ := mem_rows_keep.1 hrow
  · exact h row hrow
  · rfl

/-- What has come of a round since the server answered. -/
structure Streamed (env : Env) (tp : Finset String) (now : Archives) (since : UInt64)
    (asked : Archives) (frames : List Bytes) : Prop where
  /-- The server has lost nothing. -/
  old : ∀ m ∈ asked.server.messages.rows, m ∈ now.server.messages.rows
  /-- What the server got and the listener wants, the listener got. -/
  new : ∀ m ∈ now.server.messages.rows, Wanted env tp m.payload →
    m ∈ asked.server.messages.rows ∨ now.listener.Holds m.hash
  /-- The listener has lost nothing. -/
  kept : ∀ hash, asked.listener.Holds hash → now.listener.Holds hash
  /-- What the server had and the listener got, was in the answer. -/
  got : ∀ hash, now.listener.Holds hash → asked.server.Holds hash →
    asked.listener.Holds hash ∨ ∃ m ∈ answer asked.server since, m.hash = hash
  /-- The frames that have arrived are stored, if they are wanted. -/
  arrived : ∃ done, (answer asked.server since).map Message.payload = done ++ frames ∧
    ∀ payload ∈ done, Wanted env tp payload → now.listener.Holds (env.blake3 payload)

variable {now : Archives} {since : UInt64} {asked : Archives} {frames : List Bytes}

theorem mem_of_mem_answer {db : Archive} {m : Message} (h : m ∈ answer db since) :
    m ∈ db.messages.rows := (Archive.mem_rowsSince.1 (List.mem_of_mem_take h)).1

theorem Streamed.connect :
    Streamed env tp now since now ((answer now.server since).map Message.payload) where
  old := fun _ h => h
  new := fun _ h _ => .inl h
  kept := fun _ h => h
  got := fun _ h _ => .inl h
  arrived := ⟨[], rfl, nofun⟩

theorem Streamed.serverStore (h : Streamed env tp now since asked frames) {payload : Bytes}
    (hpayload : ¬Wanted env tp payload) (clock : UInt64) (n : GossipNotification) :
    Streamed env tp { now with server := now.server.keep env (.fine clock) payload n } since asked
      frames where
  old := fun m hm => mem_rows_keep.2 (.inl (h.old m hm))
  new := by
    intro m hm hwanted
    rcases mem_rows_keep.1 hm with hm | ⟨rfl, -⟩
    · exact h.new m hm hwanted
    · exact absurd hwanted hpayload
  kept := h.kept
  got := h.got
  arrived := h.arrived

theorem Streamed.frameKept {payload : Bytes} (h : Streamed env tp now since asked (payload :: frames))
    (hashed : Hashed env now.server) (clock : UInt64) (n : GossipNotification) :
    Streamed env tp { now with listener := now.listener.keep env (.fine clock) payload n } since asked
      frames where
  old := h.old
  new := fun m hm hwanted => (h.new m hm hwanted).imp_right fun hmem => holds_keep.2 (.inl hmem)
  kept := fun hash hmem => holds_keep.2 (.inl (h.kept hash hmem))
  got := by
    intro hash hmem hserver
    rcases holds_keep.1 hmem with hmem | rfl
    · exact h.got hash hmem hserver
    · obtain ⟨done, hdone, -⟩ := h.arrived
      have hframe : payload ∈ (answer asked.server since).map Message.payload := by
        rw [hdone]
        exact List.mem_append_right _ List.mem_cons_self
      obtain ⟨m, hm, rfl⟩ := List.mem_map.1 hframe
      exact .inr ⟨m, hm, hashed m (h.old m (mem_of_mem_answer hm))⟩
  arrived := by
    obtain ⟨done, hdone, hstored⟩ := h.arrived
    refine ⟨done ++ [payload], by rw [hdone, List.append_assoc, List.singleton_append], ?_⟩
    rw [List.forall_mem_append, List.forall_mem_singleton]
    exact ⟨fun p hp hwanted => holds_keep.2 (.inl (hstored p hp hwanted)),
      fun _ => holds_keep.2 (.inr rfl)⟩

theorem Streamed.frameIgnored {payload : Bytes}
    (h : Streamed env tp now since asked (payload :: frames)) (hpayload : ¬Wanted env tp payload) :
    Streamed env tp now since asked frames where
  old := h.old
  new := h.new
  kept := h.kept
  got := h.got
  arrived := by
    obtain ⟨done, hdone, hstored⟩ := h.arrived
    refine ⟨done ++ [payload], by rw [hdone, List.append_assoc, List.singleton_append], ?_⟩
    rw [List.forall_mem_append, List.forall_mem_singleton]
    exact ⟨hstored, fun hwanted => absurd hwanted hpayload⟩

theorem Streamed.live (h : Streamed env tp now since asked frames) {payload : Bytes}
    (hnew : ¬now.server.Holds (env.blake3 payload)) (clock : UInt64) (n : GossipNotification) :
    Streamed env tp
      { server := now.server.keep env (.fine clock) payload n
        listener := now.listener.keep env (.fine clock) payload n } since asked frames where
  old := fun m hm => mem_rows_keep.2 (.inl (h.old m hm))
  new := by
    intro m hm hwanted
    rcases mem_rows_keep.1 hm with hm | ⟨rfl, -⟩
    · exact (h.new m hm hwanted).imp_right fun hmem => holds_keep.2 (.inl hmem)
    · exact .inr (holds_keep.2 (.inr rfl))
  kept := fun hash hmem => holds_keep.2 (.inl (h.kept hash hmem))
  got := by
    intro hash hmem hserver
    rcases holds_keep.1 hmem with hmem | rfl
    · exact h.got hash hmem hserver
    · obtain ⟨m, hm, hhash⟩ := hserver
      exact absurd ⟨m, h.old m hm, hhash⟩ hnew
  arrived := by
    obtain ⟨done, hdone, hstored⟩ := h.arrived
    exact ⟨done, hdone, fun p hp hwanted => holds_keep.2 (.inl (hstored p hp hwanted))⟩

/-- **A round that has arrived**: the listener has what it wants from a moment on, exactly when it
had, when the server answered, what the answer leaves out. -/
theorem Streamed.holds_iff (h : Streamed env tp now since asked []) (hashed : Hashed env now.server)
    (first : UInt64) :
    now.Complete env tp first ↔
      ∀ m ∈ asked.server.messages.rows, Wanted env tp m.payload → asI64 first ≤ m.createdAt →
        m ∉ answer asked.server since → asked.listener.Holds m.hash := by
  constructor
  · intro hall m hm hwanted hfirst hout
    have hserver : asked.server.Holds m.hash := ⟨m, hm, rfl⟩
    rcases h.got m.hash (hall m (h.old m hm) hwanted hfirst) hserver with hmem | ⟨m', hm', hhash⟩
    · exact hmem
    · exact absurd (Archive.eq_of_hash (mem_of_mem_answer hm') hm hhash ▸ hm') hout
  · intro hout m hm hwanted hfirst
    rcases h.new m hm hwanted with hm' | hmem
    · by_cases hanswer : m ∈ answer asked.server since
      · obtain ⟨done, hdone, hstored⟩ := h.arrived
        rw [List.append_nil] at hdone
        rw [hashed m hm]
        exact hstored m.payload (hdone ▸ List.mem_map_of_mem hanswer) hwanted
      · exact h.kept m.hash (hout m hm' hwanted hfirst hanswer)
    · exact hmem

/-! ### Runs -/

/-- The invariant. -/
structure SyncInv (env : Env) (tp : Finset String) (s : Sync) : Prop where
  /-- The server's messages have the hashes of their payloads. -/
  hashed : Hashed env s.archives.server
  /-- The round is as it should be. -/
  streamed : ∀ since asked frames, s.session = some ⟨since, .streaming asked frames⟩ →
    Streamed env tp s.archives since asked frames

theorem SyncInv.step {s t : Sync} {a : SyncLabel} (hs : SyncInv env tp s)
    (h : syncStep env tp s a = some t) : SyncInv env tp t := by
  cases move_of_syncStep h with
  | tick => exact ⟨hs.hashed, hs.streamed⟩
  | serverStore hfree =>
    refine ⟨hs.hashed.keep _ _ _, fun since asked frames hsession => ?_⟩
    rcases hfree with hnone | hunwanted
    · cases hnone.symm.trans hsession
    · exact (hs.streamed since asked frames hsession).serverStore hunwanted _ _
  | start => exact ⟨hs.hashed, nofun⟩
  | connect =>
    refine ⟨hs.hashed, fun since asked frames hsession => ?_⟩
    cases hsession
    exact .connect
  | frameKept hsession =>
    refine ⟨hs.hashed, fun since asked frames hsession' => ?_⟩
    cases hsession'
    exact (hs.streamed _ _ _ hsession).frameKept hs.hashed _ _
  | frameIgnored hsession hunwanted =>
    refine ⟨hs.hashed, fun since asked frames hsession' => ?_⟩
    cases hsession'
    exact (hs.streamed _ _ _ hsession).frameIgnored hunwanted
  | ended => exact ⟨hs.hashed, nofun⟩
  | live hnew =>
    exact ⟨hs.hashed.keep _ _ _, fun since asked frames hsession =>
      (hs.streamed since asked frames hsession).live hnew _ _⟩
  | stop => exact ⟨hs.hashed, nofun⟩

theorem session_of_arrived {s : Sync} {r : UInt64 × Archives} (h : r ∈ s.arrived) :
    s.session = some ⟨r.1, .streaming r.2 []⟩ := by
  unfold Sync.arrived at h
  split at h
  · rename_i hsession
    cases h
    exact hsession
  · cases h

theorem caughtUp_iff_covered {s : Sync} {a : SyncLabel} (hs : SyncInv env tp s) :
    CaughtUp env tp s a ↔ Covered env tp s a :=
  forall_congr' fun _ => forall₂_congr fun _ hr => forall₂_congr fun first _ =>
    (hs.streamed _ _ _ (session_of_arrived hr)).holds_iff hs.hashed first

/-- **Catching up**: in every run, after each round that runs to the end of the server's stream the
listener has every message of the server's archive that was created not before the first round's
`since` and comes from a trusted sender, if and only if for each of these rounds it had, when the
server answered, those of these messages that are older than the round's own `since` or beyond the
50000 oldest ones. -/
theorem caughtUp_iff (env : Env) (tp : Finset String) (now : UInt64) (as : List SyncLabel) :
    Along (syncStep env tp) (CaughtUp env tp) (.init now) as ↔
      Along (syncStep env tp) (Covered env tp) (.init now) as := by
  have hinit : SyncInv env tp (.init now) := ⟨nofun, nofun⟩
  exact along_congr (I := SyncInv env tp) (fun _ _ _ hs h => hs.step h)
    (fun _ _ hs => caughtUp_iff_covered hs) hinit

/-- What a cut round leaves out is not asked for again. -/
theorem hole_after_cut :
    let n : GossipNotification := ⟨"1.0", "aa", 7, "podcast", "update", [], none, none⟩
    let env := { plainEnv n with parseGossipNotification := fun _ => some n }
    let as : List SyncLabel := [.serverStore [1], .tick 100010, .serverStore [2], .tick 100020,
      .start, .connect, .frame, .cut, .stop, .start, .connect, .finish]
    (run (syncStep env {"aa"}) (.init 100000) as).isSome ∧
      ¬Along (syncStep env {"aa"}) (CaughtUp env {"aa"}) (.init 100000) as := by
  intro n env as
  exact ⟨by decide, by decide⟩

end PodpingAlpha.Listener
