import PodpingAlpha.Listener.Codec
import PodpingAlpha.Listener.Framing

/-!
# Two routes into the archive

A notification comes into the archive as a gossip message, through `spawn_receive_task` and
`handle_event`, or as a frame of a catch-up, through `run_catchup`. On the first route the payload is
tried as the other messages before, and more locks are taken; on the second its length has limits.

## The model

A payload is handled on one route or the other at the same moment. In a run, live events and frames
come in any order, and the trusted set stays the same. `blake3` is a parameter; what is said about it
is that no two payloads of the run collide.

## What is proved

* `stored_arrive` — the payloads in the archive after an input.
* `Steady.stored_run` — a run adds the payloads of its inputs that are accepted.
* `routes_agree_iff` — the two routes do the same to the archive exactly when a payload that is new
  and welcome reaches it on both or on none; and in runs where that holds at every step, the order
  and the route make no difference.
* `other_type_ignored` — a `PeerAnnounce` of another type that is a notification, too.
-/

namespace PodpingAlpha.Listener

open Outcome Text Transition

/-! ### The routes -/

/-- The loop of `run_catchup` at one frame. -/
def catchupFrame (env : Env) (m : Moment) (payload : Bytes) : Program Node Unit :=
  if syncFormat.Stops payload.length then pure () else catchupPayload env m payload

/-- The handling of an input, where a payload from the archive of a peer is a frame. -/
def arrive (env : Env) (m : Moment) : Input → Program Node Unit
  | .live ev => receive env m ev
  | .catchup payload => catchupFrame env m payload

/-- One step. -/
def arriveStep (env : Env) (s : Node) (a : Moment × Input) : Option Node :=
  some (after (arrive env a.1 a.2) s)

/-- The payloads in the archive. -/
def Node.stored (s : Node) : Set Bytes := {payload | ∃ db ∈ s.db, db.Contains payload}

/-- The archive has no payload twice. -/
def Node.StoresOnce (s : Node) : Prop :=
  ∀ db ∈ s.db, (db.messages.rows.map Message.payload).Nodup

/-- The archive takes the payload, if it is asked to, and does not have it. -/
def Fresh (env : Env) (m : Moment) (s : Node) (raw : Bytes) : Prop :=
  m.sql.messages = true ∧ (∃ db ∈ s.db, ¬db.Holds (env.blake3 raw)) ∧ raw ∉ s.stored

/-- The payload is a notification that passes the gate, and its sender can be cut. -/
def Welcome (env : Env) (s : Node) (raw : Bytes) : Prop :=
  s.trustedPublishers.poisoned = false ∧
    ∃ n ∈ env.parseGossipNotification raw, Admitted s.trustedPublishers.value n ∧ Cuts 8 n.sender

/-- On the live route nothing comes between the payload and the archive. -/
structure Undisturbed (env : Env) (s : Node) (raw : Bytes) : Prop where
  /-- It is not a `PeerSuggest` of that type. -/
  not_suggest : ∀ g ∈ env.parsePeerSuggest raw, g.msgType ≠ "peer_suggest"
  /-- It is not a `PeerAnnounce`, whatever its type. -/
  not_announce : env.parsePeerAnnounce raw = none
  /-- It can be shown. -/
  shown : ∀ n ∈ env.parseGossipNotification raw, Shown env s n

/-- Nothing comes between a payload and the archive. -/
def Input.Open (env : Env) (s : Node) (raw : Bytes) : Input → Prop
  | .live _ => Undisturbed env s raw
  | .catchup _ => ¬syncFormat.Stops raw.length

/-- **The condition**: the routes are both open to a fresh and welcome payload, or both closed. -/
def Alike (env : Env) (m : Moment) (s : Node) (raw : Bytes) : Prop :=
  Fresh env m s raw → Welcome env s raw → (Undisturbed env s raw ↔ ¬syncFormat.Stops raw.length)

variable {env : Env} {m : Moment} {s : Node} {raw : Bytes} {n : GossipNotification}

/-! ### One payload -/

theorem welcome_iff (hparse : env.parseGossipNotification raw = some n) :
    Welcome env s raw ↔ s.trustedPublishers.poisoned = false ∧
      Admitted s.trustedPublishers.value n ∧ Cuts 8 n.sender := by
  simp [Welcome, hparse]

/-- What `keep` adds. -/
theorem mem_stored_keep {t : Node} (ht : t.db = s.db.map fun db => db.keep env m raw n) {p : Bytes} :
    p ∈ t.stored ↔ p ∈ s.stored ∨ p = raw ∧ Fresh env m s raw := by
  have hrow : ∀ db ∈ s.db, ((db.keep env m raw n).Contains p ↔
      db.Contains p ∨ p = raw ∧ m.sql.messages = true ∧ ¬db.Holds (env.blake3 raw)) := by
    intro db _
    simp only [Archive.Contains, mem_rows_keep, or_and_right, exists_or]
    refine or_congr_right ⟨?_, ?_⟩
    · rintro ⟨_, ⟨rfl, hfresh⟩, rfl⟩
      exact ⟨rfl, hfresh⟩
    · rintro ⟨rfl, hfresh⟩
      exact ⟨_, ⟨rfl, hfresh⟩, rfl⟩
  have hmem : p ∈ t.stored ↔ ∃ db ∈ s.db, (db.keep env m raw n).Contains p := by
    show (∃ db ∈ t.db, db.Contains p) ↔ _
    rw [ht]
    cases s.db <;> simp
  rw [hmem]
  constructor
  · rintro ⟨db, hdb, hp⟩
    by_cases hstored : p ∈ s.stored
    · exact .inl hstored
    · obtain hp | ⟨rfl, hsql, hnew⟩ := (hrow db hdb).1 hp
      · exact .inl ⟨db, hdb, hp⟩
      · exact .inr ⟨rfl, hsql, ⟨db, hdb, hnew⟩, hstored⟩
  · rintro (⟨db, hdb, hp⟩ | ⟨rfl, hsql, ⟨db, hdb, hnew⟩, -⟩)
    · exact ⟨db, hdb, (hrow db hdb).2 (.inl hp)⟩
    · exact ⟨db, hdb, (hrow db hdb).2 (.inr ⟨rfl, hsql, hnew⟩)⟩

/-- What a program does that keeps a payload or leaves the archive alone. -/
theorem mem_stored_of_db {t : Node} {C : Prop} [Decidable C]
    (ht : t.db = if C then s.db.map fun db => db.keep env m raw n else s.db) {p : Bytes} :
    p ∈ t.stored ↔ p ∈ s.stored ∨ p = raw ∧ Fresh env m s raw ∧ C := by
  split_ifs at ht with hC
  · rw [mem_stored_keep ht]
    simp [hC]
  · have hsame : t.stored = s.stored := by rw [Node.stored, ht]; rfl
    simp [hC, hsame]

/-- What the live route does to the archive with a notification. -/
theorem mem_stored_handleNotification (hparse : env.parseGossipNotification raw = some n)
    {p : Bytes} : p ∈ (after (handleNotification env m raw n) s).stored ↔
      p ∈ s.stored ∨ p = raw ∧ Fresh env m s raw ∧ Welcome env s raw ∧ Shown env s n := by
  have hdb : wp (handleNotification env m raw n)
      (fun _ t => t.db =
        if Admitted s.trustedPublishers.value n then s.db.map fun db => db.keep env m raw n else s.db)
      (fun _ t => t.db = s.db) s := wp_db_handleNotification
  by_cases hreturns : Completes (handleNotification env m raw n) (fun _ => True) s
  · rw [mem_stored_of_db (after_of_completes hreturns hdb)]
    obtain ⟨hfree, hshown, -⟩ := (completes_handleNotification (P := fun _ => True)).1 hreturns
    rw [welcome_iff hparse]
    refine or_congr_right (and_congr_right fun _ => and_congr_right fun _ => ?_)
    exact ⟨fun hadm => ⟨⟨hfree, hadm, (hshown hadm).1⟩, (hshown hadm).2⟩, fun h => h.1.2.1⟩
  · have hsame : (after (handleNotification env m raw n) s).db = s.db :=
      (wp_after (P := fun t : Node => t.db = s.db)).1 (wp_of_not_completes hreturns hdb)
    have hkept : (after (handleNotification env m raw n) s).stored = s.stored := by
      rw [Node.stored, hsame]
      rfl
    rw [hkept]
    refine (or_iff_left ?_).symm
    rintro ⟨-, -, hwel, hshown⟩
    rw [welcome_iff hparse] at hwel
    exact hreturns ((completes_handleNotification (P := fun _ => True)).2
      ⟨hwel.1, fun _ => ⟨hwel.2.2, hshown⟩, trivial⟩)

/-- What is taken for a notification. -/
theorem classify_eq_notification : classify env raw = .notification n ↔
    (∀ g ∈ env.parsePeerSuggest raw, g.msgType ≠ "peer_suggest") ∧ env.parsePeerAnnounce raw = none ∧
      env.parseGossipNotification raw = some n := by
  have hevent : classifyEvent env raw = .notification n ↔
      env.parsePeerAnnounce raw = none ∧ env.parseGossipNotification raw = some n := by
    rw [classifyEvent]
    cases env.parsePeerAnnounce raw with
    | some a =>
      refine iff_of_false ?_ fun h => Option.some_ne_none a h.1
      dsimp only
      split_ifs <;> exact fun h => by cases h
    | none => cases env.parseGossipNotification raw <;> simp
  rw [classify]
  cases env.parsePeerSuggest raw with
  | none => simp [hevent]
  | some g => by_cases htype : g.msgType = "peer_suggest" <;> simp [htype, hevent]

/-- What is not a notification leaves the archive alone. -/
theorem db_handleMessage_other (hother : ∀ n, classify env raw ≠ .notification n) :
    (after (handleMessage env m raw (classify env raw)) s).db = s.db := by
  cases hclass : classify env raw with
  | suggest g => exact keeps_suggest (fun _ _ => rfl) env m g s
  | announce a => exact keeps_announce (fun _ _ => rfl) (fun _ _ => rfl) env m a s
  | endorse a => exact keeps_endorse (fun _ _ => rfl) (fun _ _ => rfl) (fun _ _ => rfl) env m a s
  | ignored => rfl
  | notification n => exact absurd hclass (hother n)

/-- A message and the archive. -/
theorem mem_stored_handleMessage {p : Bytes} :
    p ∈ (after (handleMessage env m raw (classify env raw)) s).stored ↔
      p ∈ s.stored ∨ p = raw ∧ Fresh env m s raw ∧ Welcome env s raw ∧ Undisturbed env s raw := by
  by_cases hclass : ∃ n, classify env raw = .notification n
  · obtain ⟨n, hn⟩ := hclass
    obtain ⟨hsuggest, hannounce, hparse⟩ := classify_eq_notification.1 hn
    have hshown : Undisturbed env s raw ↔ Shown env s n := by
      refine ⟨fun h => h.shown n hparse, fun h => ⟨hsuggest, hannounce, fun n' hn' => ?_⟩⟩
      cases hparse.symm.trans hn'
      exact h
    rw [hn, hshown]
    exact mem_stored_handleNotification hparse
  · have hsame := db_handleMessage_other (m := m) (s := s) (not_exists.1 hclass)
    rw [Node.stored, hsame]
    refine (or_iff_left ?_).symm
    rintro ⟨-, -, ⟨-, n, hn, -⟩, hopen⟩
    exact hclass ⟨n, classify_eq_notification.2 ⟨hopen.not_suggest, hopen.not_announce, hn⟩⟩

/-- A frame and the archive. -/
theorem mem_stored_catchupFrame {p : Bytes} :
    p ∈ (after (catchupFrame env m raw) s).stored ↔ p ∈ s.stored ∨
      p = raw ∧ Fresh env m s raw ∧ Welcome env s raw ∧ ¬syncFormat.Stops raw.length := by
  rw [catchupFrame]
  split_ifs with hstops
  · exact (or_iff_left fun h => h.2.2.2 hstops).symm
  · rw [and_iff_left hstops]
    cases hparse : env.parseGossipNotification raw with
    | none =>
      have hnot : ¬Welcome env s raw := by simp [Welcome, hparse]
      rw [catchupPayload, hparse]
      exact (or_iff_left fun h => hnot h.2.2).symm
    | some n =>
      rw [mem_stored_of_db (db_catchupPayload_of_parse hparse), welcome_iff hparse]

/-- **The payloads in the archive after an input**: a payload is added that is fresh and welcome, if
its route is open. -/
theorem stored_arrive {a : Input} {p : Bytes} :
    p ∈ (after (arrive env m a) s).stored ↔ p ∈ s.stored ∨
      a.payload? = some p ∧ Fresh env m s p ∧ Welcome env s p ∧ a.Open env s p := by
  have hsame : ∀ {t : Node}, t.db = s.db → a.payload? = none → (p ∈ t.stored ↔ p ∈ s.stored ∨
      a.payload? = some p ∧ Fresh env m s p ∧ Welcome env s p ∧ a.Open env s p) := by
    intro t ht hnone
    rw [Node.stored, ht, hnone]
    exact (or_iff_left fun h => by cases h.1).symm
  have hpayload : ∀ {raw : Bytes} {C : Bytes → Prop}, a.payload? = some raw →
      (p = raw ∧ C raw ↔ a.payload? = some p ∧ C p) := by
    intro raw C hraw
    rw [hraw]
    constructor
    · rintro ⟨rfl, h⟩
      exact ⟨rfl, h⟩
    · rintro ⟨hp, h⟩
      cases hp
      exact ⟨rfl, h⟩
  cases a with
  | live ev =>
    cases ev with
    | neighborUp nodeId =>
      exact hsame (keeps_neighborUp (fun _ _ _ => rfl) (fun _ _ _ _ => rfl) env m nodeId s) rfl
    | neighborDown nodeId => exact hsame (keeps_neighborDown (fun _ _ _ => rfl) env m nodeId s) rfl
    | lagged => exact hsame rfl rfl
    | received content deliveredFrom =>
      refine Iff.trans ?_ (or_congr_right (hpayload (C := fun p => Fresh env m s p ∧
        Welcome env s p ∧ Undisturbed env s p) rfl))
      let heard : Node := { s with uniqueSources := insert deliveredFrom s.uniqueSources }
      have hreceived : p ∈ (after (handleMessage env m content (classify env content)) heard).stored ↔
          p ∈ s.stored ∨ p = content ∧ Fresh env m s content ∧ Welcome env s content ∧
            Undisturbed env heard content := mem_stored_handleMessage
      refine hreceived.trans (or_congr_right (and_congr_right fun _ => and_congr_right fun _ =>
        and_congr_right fun _ => ?_))
      exact ⟨fun h => ⟨h.not_suggest, h.not_announce, h.shown⟩,
        fun h => ⟨h.not_suggest, h.not_announce, h.shown⟩⟩
  | catchup payload =>
    exact mem_stored_catchupFrame.trans (or_congr_right (hpayload (C := fun p => Fresh env m s p ∧
      Welcome env s p ∧ ¬syncFormat.Stops p.length) rfl))

/-- The two routes, from one state. -/
theorem stored_eq_iff_alike (env : Env) (m : Moment) (s : Node) (raw : Bytes)
    (deliveredFrom : String) :
    (after (arrive env m (.live (.received raw deliveredFrom))) s).stored =
      (after (arrive env m (.catchup raw)) s).stored ↔ Alike env m s raw := by
  rw [Set.ext_iff]
  simp only [stored_arrive, Input.payload?, Option.some.injEq, Input.Open]
  constructor
  · intro h hfresh hwelcome
    have hraw := h raw
    simpa only [hfresh.2.2, hfresh, hwelcome, true_and, false_or] using hraw
  · intro halike p
    refine or_congr_right (and_congr_right ?_)
    rintro rfl
    exact and_congr_right fun hfresh => and_congr_right fun hwelcome => halike hfresh hwelcome

/-! ### Runs -/

/-- The payloads of the inputs. -/
def payloads (as : List (Moment × Input)) : Set Bytes := {raw | ∃ a ∈ as, a.2.payload? = some raw}

/-- A trusted set accepts the payload, which can be a frame. -/
def Accepted (env : Env) (tp : Finset String) (raw : Bytes) : Prop :=
  ¬syncFormat.Stops raw.length ∧ ∃ n ∈ env.parseGossipNotification raw, Admitted tp n ∧ Cuts 8 n.sender

/-- The trusted set is this one, the statement runs, and the routes are alike for the payload. -/
structure Steady (env : Env) (tp : Finset String) (s : Node) (a : Moment × Input) : Prop where
  /-- The trusted set. -/
  trusted : s.trustedPublishers = .new tp
  /-- The insertion into `messages`. -/
  runs : a.1.sql.messages = true
  /-- The condition. -/
  alike : ∀ raw ∈ a.2.payload?, Alike env a.1 s raw

/-- The messages of the archive have the hashes of their payloads. -/
def Node.Keyed (env : Env) (s : Node) : Prop := ∀ db ∈ s.db, Hashed env db

variable {tp : Finset String} {a : Moment × Input} {seen : Set Bytes}

/-- What an input does to the archive. -/
theorem db_arrive (env : Env) (m : Moment) (a : Input) (s : Node) :
    (after (arrive env m a) s).db = s.db ∨ ∃ raw ∈ a.payload?, ∃ n ∈ env.parseGossipNotification raw,
      (after (arrive env m a) s).db = s.db.map fun db => db.keep env m raw n := by
  cases a with
  | live ev => exact db_handle m (.live ev) s
  | catchup payload =>
    show (after (catchupFrame env m payload) s).db = s.db ∨ _
    rw [arrive, catchupFrame]
    split_ifs
    · exact .inl rfl
    · exact db_handle m (.catchup payload) s

/-- An input does not enable or disable the archive. -/
theorem isSome_arrive (env : Env) (m : Moment) (a : Input) (s : Node) :
    (after (arrive env m a) s).db.isSome = s.db.isSome := by
  obtain h | ⟨raw, -, n, -, h⟩ := db_arrive env m a s
  · rw [h]
  · rw [h, Option.isSome_map]

theorem Node.Keyed.arrive (hs : s.Keyed env) (m : Moment) (a : Input) :
    (after (arrive env m a) s).Keyed env := by
  obtain h | ⟨raw, -, n, -, h⟩ := db_arrive env m a s
  · rw [Keyed, h]
    exact hs
  · rw [Keyed, h]
    intro db' hdb'
    obtain ⟨db, hdb, rfl⟩ := Option.map_eq_some_iff.1 hdb'
    exact (hs db hdb).keep m raw n

theorem Node.Keyed.storesOnce (hs : s.Keyed env) : s.StoresOnce := by
  intro db hdb
  have hrows : db.messages.rows.Nodup := .of_map _ db.messages.nodup
  refine hrows.map_on fun msg hmsg msg' hmsg' hpayload => ?_
  have hhash : msg.hash = msg'.hash := by rw [hs db hdb msg hmsg, hs db hdb msg' hmsg', hpayload]
  exact Archive.eq_of_hash hmsg hmsg' hhash

/-- Where no two payloads collide, a payload that is not in the archive is fresh. -/
theorem Node.Keyed.fresh (hs : s.Keyed env) (hinj : Set.InjOn env.blake3 seen)
    (hseen : s.stored ⊆ seen) {p : Bytes} (hp : p ∈ seen) (hsql : m.sql.messages = true)
    (hdb : s.db.isSome) (hnew : p ∉ s.stored) : Fresh env m s p := by
  obtain ⟨db, hdb⟩ := Option.isSome_iff_exists.1 hdb
  refine ⟨hsql, ⟨db, hdb, ?_⟩, hnew⟩
  rintro ⟨msg, hmsg, hhash⟩
  have hstored : msg.payload ∈ s.stored := ⟨db, hdb, msg, hmsg, rfl⟩
  have hsame : msg.payload = p :=
    hinj (hseen hstored) hp ((hs db hdb msg hmsg).symm.trans hhash)
  exact hnew (hsame ▸ hstored)

/-- **The step**: the payload of the input is added, if it is accepted. -/
theorem Steady.stored_step (h : Steady env tp s a) (hs : s.Keyed env)
    (hinj : Set.InjOn env.blake3 seen) (hseen : s.stored ⊆ seen)
    (ha : ∀ raw ∈ a.2.payload?, raw ∈ seen) {p : Bytes} :
    p ∈ (after (arrive env a.1 a.2) s).stored ↔
      p ∈ s.stored ∨ s.db.isSome ∧ a.2.payload? = some p ∧ Accepted env tp p := by
  have hwelcome : Welcome env s p ↔
      ∃ n ∈ env.parseGossipNotification p, Admitted tp n ∧ Cuts 8 n.sender := by
    rw [Welcome, h.trusted]
    exact and_iff_right rfl
  have hopen : a.2.payload? = some p → Fresh env a.1 s p → Welcome env s p →
      (a.2.Open env s p ↔ ¬syncFormat.Stops p.length) := by
    intro hp hfresh hwel
    have halike := h.alike p hp hfresh hwel
    cases a.2 with
    | live ev => exact halike
    | catchup payload => exact Iff.rfl
  rw [stored_arrive]
  constructor
  · rintro (hp | ⟨hp, hfresh, hwel, hop⟩)
    · exact .inl hp
    · obtain ⟨db, hdb, -⟩ := hfresh.2.1
      exact .inr ⟨Option.isSome_of_mem hdb, hp, (hopen hp hfresh hwel).1 hop, hwelcome.1 hwel⟩
  · rintro (hp | ⟨hdb, hp, hreads, hadm⟩)
    · exact .inl hp
    · by_cases hstored : p ∈ s.stored
      · exact .inl hstored
      · have hfresh : Fresh env a.1 s p := hs.fresh hinj hseen (ha p hp) h.runs hdb hstored
        have hwel : Welcome env s p := hwelcome.2 hadm
        exact .inr ⟨hp, hfresh, hwel, (hopen hp hfresh hwel).2 hreads⟩

/-- **The run**: the payloads of the inputs are added that are accepted. -/
theorem Steady.stored_run {as : List (Moment × Input)} {t : Node} (hs : s.Keyed env)
    (hinj : Set.InjOn env.blake3 seen) (hseen : s.stored ⊆ seen) (has : payloads as ⊆ seen)
    (hsteady : Along (arriveStep env) (Steady env tp) s as)
    (ht : run (arriveStep env) s as = some t) :
    t.Keyed env ∧ ∀ p, p ∈ t.stored ↔
      p ∈ s.stored ∨ s.db.isSome ∧ p ∈ payloads as ∧ Accepted env tp p := by
  induction as generalizing s with
  | nil =>
    cases ht
    refine ⟨hs, fun p => (or_iff_left ?_).symm⟩
    rintro ⟨-, ⟨a, ha, -⟩, -⟩
    exact absurd ha List.not_mem_nil
  | cons a as ih =>
    obtain ⟨u, hu, hr⟩ := run_cons_eq_some.1 ht
    cases hu
    have hstep : ∀ p, p ∈ (after (arrive env a.1 a.2) s).stored ↔
        p ∈ s.stored ∨ s.db.isSome ∧ a.2.payload? = some p ∧ Accepted env tp p := fun p =>
      hsteady.1.stored_step hs hinj hseen fun raw hraw => has ⟨a, List.mem_cons_self, hraw⟩
    have hseen' : (after (arrive env a.1 a.2) s).stored ⊆ seen := by
      intro p hp
      obtain hp | ⟨-, hp, -⟩ := (hstep p).1 hp
      · exact hseen hp
      · exact has ⟨a, List.mem_cons_self, hp⟩
    have hrest : payloads as ⊆ seen := by
      rintro p ⟨b, hb, hp⟩
      exact has ⟨b, List.mem_cons_of_mem a hb, hp⟩
    obtain ⟨hkeyed, hstored⟩ := ih (hs.arrive a.1 a.2) hseen' hrest (hsteady.2 _ rfl) hr
    refine ⟨hkeyed, fun p => ?_⟩
    have hcons : p ∈ payloads (a :: as) ↔ a.2.payload? = some p ∨ p ∈ payloads as := by
      simp only [payloads, Set.mem_ofPred_eq, List.exists_mem_cons_iff]
    rw [hstored, hstep, isSome_arrive, hcons]
    tauto

/-- **The two routes**: from every state, a payload on one route or the other leaves the same payloads
in the archive, if and only if it is not fresh and welcome, or reaches the archive on both routes or
on none. And two runs from one archive with the same payloads, in whatever order and on whatever
routes, end with the same payloads in the archive, none of them twice, if at each step of both the
trusted set is the given one, the statement runs and the routes are alike for the payload. -/
theorem routes_agree_iff (env : Env) :
    (∀ (m : Moment) (s : Node) (raw : Bytes) (deliveredFrom : String),
      (after (arrive env m (.live (.received raw deliveredFrom))) s).stored =
        (after (arrive env m (.catchup raw)) s).stored ↔ Alike env m s raw) ∧
      ∀ (tp : Finset String) (s s' t t' : Node) (as as' : List (Moment × Input)),
        s.db = s'.db → s.Keyed env → Set.InjOn env.blake3 (s.stored ∪ payloads as) →
          payloads as = payloads as' →
            Along (arriveStep env) (Steady env tp) s as → run (arriveStep env) s as = some t →
              Along (arriveStep env) (Steady env tp) s' as' → run (arriveStep env) s' as' = some t' →
                t.stored = t'.stored ∧ t.StoresOnce ∧ t'.StoresOnce := by
  refine ⟨fun m s raw deliveredFrom => stored_eq_iff_alike env m s raw deliveredFrom, ?_⟩
  intro tp s s' t t' as as' hdb hs hinj hpayloads hsteady ht hsteady' ht'
  have hs' : s'.Keyed env := by
    rw [Node.Keyed, ← hdb]
    exact hs
  have hstored : s.stored = s'.stored := by rw [Node.stored, Node.stored, hdb]
  have hseen' : s'.stored ⊆ s.stored ∪ payloads as := hstored ▸ Set.subset_union_left
  have has' : payloads as' ⊆ s.stored ∪ payloads as := hpayloads ▸ Set.subset_union_right
  obtain ⟨hkeyed, hmem⟩ :=
    Steady.stored_run hs hinj Set.subset_union_left Set.subset_union_right hsteady ht
  obtain ⟨hkeyed', hmem'⟩ := Steady.stored_run hs' hinj hseen' has' hsteady' ht'
  refine ⟨Set.ext fun p => ?_, hkeyed.storesOnce, hkeyed'.storesOnce⟩
  rw [hmem, hmem', hstored, hdb, hpayloads]

/-- A state of a listener with an empty archive that trusts `aa`. -/
def trusting : Node := Node.start 7 (some "aa\n") none none (some .empty) false true

theorem stored_trusting : trusting.stored = ∅ := by
  ext p
  simp [trusting, Node.start, Node.stored, Archive.Contains, Archive.empty, Table.empty]

/-- The payload of a feed comes in, on one route or the other. -/
def FeedInput (iri : String) (a : Moment × Input) : Prop :=
  a = (.fine 7, .live (.received (feedPayload iri) "neighbor")) ∨
    a = (.fine 7, .catchup (feedPayload iri))

theorem classify_feedPayload (iri : String) :
    classify feedEnv (feedPayload iri) = .notification (feedNotification iri) := by
  have hsuggest : feedEnv.parsePeerSuggest (feedPayload iri) = none := rfl
  have hannounce : feedEnv.parsePeerAnnounce (feedPayload iri) = none := rfl
  rw [classify, hsuggest]
  show classifyEvent feedEnv (feedPayload iri) = _
  rw [classifyEvent, hannounce, parse_feedPayload]

theorem standing_feedInput {iri : String} {a : Moment × Input} (ha : FeedInput iri a) :
    (after (arrive feedEnv a.1 a.2) s).standing = s.standing := by
  obtain rfl | rfl := ha
  · have hafter : after (arrive feedEnv (.fine 7) (.live (.received (feedPayload iri) "neighbor"))) s =
        after (handleMessage feedEnv (.fine 7) (feedPayload iri) (classify feedEnv (feedPayload iri)))
          { s with uniqueSources := insert "neighbor" s.uniqueSources } := after_modify_bind
    rw [hafter, classify_feedPayload]
    exact keeps_notification (fun _ _ _ => rfl) (fun _ _ _ => rfl) (fun _ _ _ => rfl) feedEnv _ _ _ _
  · show (after (catchupFrame feedEnv (.fine 7) (feedPayload iri)) s).standing = _
    rw [catchupFrame]
    split_ifs
    · rfl
    · exact keeps_catchup (fun _ _ _ => rfl) feedEnv _ _ s

theorem steady_feedInput {iri : String} {a : Moment × Input} (ha : FeedInput iri a)
    (hlength : ¬syncFormat.Stops (feedPayload iri).length) (hs : s.standing = trusting.standing) :
    Steady feedEnv {"aa"} s a := by
  obtain ⟨htrusted, hnames⟩ := Prod.mk.inj hs
  have halike : ∀ m, Alike feedEnv m s (feedPayload iri) := by
    refine fun m _ _ => iff_of_true ⟨nofun, rfl, fun n hn => ?_⟩ hlength
    rw [parse_feedPayload] at hn
    cases hn
    exact ⟨by rw [hnames]; rfl, fun hseq => absurd hseq Bool.false_ne_true⟩
  have hloaded : trusting.trustedPublishers = .new {"aa"} := by decide
  obtain rfl | rfl := ha
  · exact ⟨htrusted.trans hloaded, rfl, fun raw hraw => Option.some.inj hraw ▸ halike _⟩
  · exact ⟨htrusted.trans hloaded, rfl, fun raw hraw => Option.some.inj hraw ▸ halike _⟩

theorem accepted_feedPayload {iri : String} (hlength : ¬syncFormat.Stops (feedPayload iri).length) :
    Accepted feedEnv {"aa"} (feedPayload iri) := by
  have hcut : Cuts 8 "aa" := by decide
  exact ⟨hlength, feedNotification iri, parse_feedPayload iri, .inr (Finset.mem_singleton_self _), hcut⟩

/-- Such runs are steady. -/
theorem along_steady_feeds {as : List (Moment × Input)}
    (h : ∀ a ∈ as, ∃ iri, FeedInput iri a ∧ ¬syncFormat.Stops (feedPayload iri).length) :
    Along (arriveStep feedEnv) (Steady feedEnv {"aa"}) trusting as := by
  have hmem : Along (arriveStep feedEnv) (fun _ a => a ∈ as) trusting as :=
    (along_label_iff fun _ _ => ⟨_, rfl⟩).2 fun _ ha => ha
  refine along_of_inv (I := fun s => s.standing = trusting.standing) ?_ ?_ rfl hmem
  · intro s a t hs ha ht
    obtain ⟨iri, hfeed, -⟩ := h a ha
    cases ht
    exact (standing_feedInput hfeed).trans hs
  · intro s a hs ha
    obtain ⟨iri, hfeed, hlength⟩ := h a ha
    exact steady_feedInput hfeed hlength hs

theorem payloads_reordered (raw raw' : Bytes) :
    payloads [(.fine 7, .live (.received raw "neighbor")), (.fine 7, .catchup raw')] =
      payloads [(.fine 7, .live (.received raw' "neighbor")), (.fine 7, .catchup raw),
        (.fine 7, .catchup raw')] := by
  ext p
  simp [payloads, Input.payload?]
  tauto

/-- Two payloads, each on another route in the other run, where they come in another order and the second
comes twice. -/
theorem routes_agree_iff_two :
    let live := fun iri => (Moment.fine 7, Input.live (.received (feedPayload iri) "neighbor"))
    let caught := fun iri => (Moment.fine 7, Input.catchup (feedPayload iri))
    ∃ t t', run (arriveStep feedEnv) trusting [live "http://a", caught "http://b"] = some t ∧
      run (arriveStep feedEnv) trusting [live "http://b", caught "http://a", caught "http://b"] = some t' ∧
      t.stored = t'.stored ∧ t.StoresOnce ∧ t'.StoresOnce ∧ feedPayload "http://a" ∈ t.stored ∧
      feedPayload "http://b" ∈ t.stored := by
  intro live caught
  have hstep : ∀ s a, ∃ t, arriveStep feedEnv s a = some t := fun _ _ => ⟨_, rfl⟩
  obtain ⟨t, ht⟩ := exists_run hstep trusting [live "http://a", caught "http://b"]
  obtain ⟨t', ht'⟩ := exists_run hstep trusting [live "http://b", caught "http://a", caught "http://b"]
  have ha : ¬syncFormat.Stops (feedPayload "http://a").length := by decide +kernel
  have hb : ¬syncFormat.Stops (feedPayload "http://b").length := by decide +kernel
  have hsteady : Along (arriveStep feedEnv) (Steady feedEnv {"aa"}) trusting
      [live "http://a", caught "http://b"] :=
    along_steady_feeds (List.forall_mem_cons.2 ⟨⟨_, .inl rfl, ha⟩,
      List.forall_mem_singleton.2 ⟨_, .inr rfl, hb⟩⟩)
  have hsteady' : Along (arriveStep feedEnv) (Steady feedEnv {"aa"}) trusting
      [live "http://b", caught "http://a", caught "http://b"] :=
    along_steady_feeds (List.forall_mem_cons.2 ⟨⟨_, .inl rfl, hb⟩, List.forall_mem_cons.2
      ⟨⟨_, .inr rfl, ha⟩, List.forall_mem_singleton.2 ⟨_, .inr rfl, hb⟩⟩⟩)
  have hkeyed : trusting.Keyed feedEnv := by
    intro db hdb
    cases hdb
    exact nofun
  have hinj : Set.InjOn feedEnv.blake3 (trusting.stored ∪ payloads [live "http://a", caught "http://b"]) :=
    Hex.encode_injective.injOn
  have hpayloads : payloads [live "http://a", caught "http://b"] =
      payloads [live "http://b", caught "http://a", caught "http://b"] := payloads_reordered _ _
  obtain ⟨hstored, honce, honce'⟩ := (routes_agree_iff feedEnv).2 {"aa"} trusting trusting t t' _ _ rfl hkeyed
    hinj hpayloads hsteady ht hsteady' ht'
  have hmem := (Steady.stored_run hkeyed hinj Set.subset_union_left Set.subset_union_right hsteady ht).2
  refine ⟨t, t', ht, ht', hstored, honce, honce', (hmem _).2 (.inr ⟨rfl, ?_, accepted_feedPayload ha⟩),
    (hmem _).2 (.inr ⟨rfl, ?_, accepted_feedPayload hb⟩)⟩
  · exact ⟨live "http://a", List.mem_cons_self, rfl⟩
  · exact ⟨caught "http://b", List.mem_cons_of_mem _ List.mem_cons_self, rfl⟩

/-- A notification that has the fields of a `PeerAnnounce`, with a type of its own, is ignored live
and stored by a catch-up. -/
theorem other_type_ignored :
    let fields : List (String × Json) := [("type", .str "podping"), ("node_id", .str "n"),
      ("version", .str "1.0"), ("timestamp", .u64 7), ("sender", .str "aa"),
      ("medium", .str "podcast"), ("reason", .str "update"), ("iris", .arr [])]
    let env : Env := { plainEnv ⟨"", "", 0, "", "", [], none, none⟩ with
      parsePeerSuggest := fun raw => Json.fromBytes raw >>= PeerSuggest.fromJson
      parsePeerAnnounce := fun raw => Json.fromBytes raw >>= PeerAnnounce.fromJson
      parseGossipNotification := fun raw => Json.fromBytes raw >>= GossipNotification.fromJson }
    let raw := (Json.obj fields).toBytes
    (after (arrive env (.fine 7) (.live (.received raw "neighbor"))) trusting).stored ≠
      (after (arrive env (.fine 7) (.catchup raw)) trusting).stored := by
  intro fields env raw hsame
  have hread : Json.fromBytes raw = some (.obj fields) := Json.fromBytes_toBytes _
  have hannounce : (env.parsePeerAnnounce raw).isSome := by
    show (Json.fromBytes raw >>= PeerAnnounce.fromJson).isSome
    rw [hread]
    rfl
  have hparse : env.parseGossipNotification raw =
      some ⟨"1.0", "aa", 7, "podcast", "update", [], none, none⟩ := by
    show (Json.fromBytes raw >>= GossipNotification.fromJson) = _
    rw [hread]
    rfl
  have hlive : ¬Undisturbed env trusting raw := by
    intro h
    rw [h.not_announce] at hannounce
    cases hannounce
  have hcaught : Fresh env (.fine 7) trusting raw ∧ Welcome env trusting raw ∧
      ¬syncFormat.Stops raw.length := by
    refine ⟨⟨rfl, ⟨.empty, rfl, ?_⟩, ?_⟩, ⟨rfl, _, hparse, .inr (by decide), by decide⟩, by decide +kernel⟩
    · simp [Archive.Holds, Archive.empty, Table.empty]
    · rw [stored_trusting]
      exact Set.notMem_empty raw
  have hmem : raw ∈ (after (arrive env (.fine 7) (.catchup raw)) trusting).stored :=
    stored_arrive.2 (.inr ⟨rfl, hcaught⟩)
  rw [← hsame, stored_arrive, stored_trusting] at hmem
  obtain hmem | ⟨-, -, -, hopen⟩ := hmem
  · exact Set.notMem_empty raw hmem
  · exact hlive hopen

end PodpingAlpha.Listener
