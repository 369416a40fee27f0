import PodpingAlpha.Library.Frames
import PodpingAlpha.Listener.CatchUp
import PodpingAlpha.Listener.Codec
import PodpingAlpha.Listener.Store

/-!
# The stream of a catch-up

`ArchiveSyncHandler::accept` sends each payload behind its length, and the loop of `run_catchup` reads
them back. The sender has no limit; the reader gives up at the length 0 and above 10000000.

## The model

Both are a `Frames.Format` of bytes. What an archive can hold comes from sessions of a listener: a
live message is at most as long as gossip allows, and a payload from the archive of a peer was read
by the same loop, from whatever the peer sent. An archive begins empty and survives the sessions.

## What is proved

* `readPayloads_isSome` — the reader ends on every stream.
* `Archived.readable` — every payload of an archive has a length at which it goes on.
* `catchup_framing` — so the reader reads what was sent, and of a stream that is cut what is complete.
* `readPayloads_accept` — it is the answer of `accept`.
-/

namespace PodpingAlpha.Listener

open Frames (Format)
open Outcome Transition

/-! ### The two loops -/

/-- A payload behind `(payload.len() as u32).to_be_bytes()`, and where `run_catchup` breaks. -/
def syncFormat : Format UInt8 where
  width := 4
  encode := Bytes.toBe 4
  decode := Bytes.ofBe
  Stops len := len = 0 ∨ 10000000 < len
  decStops := fun _ => inferInstance
  width_pos := by decide
  length_encode := Bytes.length_toBe 4
  decode_encode := fun n hn => Bytes.ofBe_toBe (by omega)

/-- The loop of `accept`. -/
def sendPayloads (payloads : List Bytes) : Bytes := syncFormat.put payloads

/-- What `accept` writes to the stream. -/
def accept (db : Archive) (since : UInt64) : Bytes :=
  sendPayloads ((answer db since).map Message.payload)

/-- The payloads that the loop of `run_catchup` handles. -/
def readPayloads (fuel : ℕ) (stream : Bytes) : Option (List Bytes) := syncFormat.readAll fuel stream

/-! ### What an archive can hold -/

/-- `max_message_size`. -/
def maxMessageSize : ℕ := 65536

/-- A gossip message is not too long, and a payload of the archive of a peer has been read. -/
def Deliverable : Input → Prop
  | .live (.received content _) => content.length ≤ maxMessageSize
  | .live _ => True
  | .catchup payload => ∃ stream rest, syncFormat.next stream = some (payload, rest)

/-- The archives of a listener, session after session. -/
inductive Archived (env : Env) : Archive → Prop where
  /-- A new one. -/
  | empty : Archived env .empty
  /-- One that a session has left. -/
  | session {db db' : Archive} {s t : Node} {as : List (Moment × Input)} (h : Archived env db)
      (hs : s.db = some db) (has : Along (handleStep env) (fun _ a => Deliverable a.2) s as)
      (ht : run (handleStep env) s as = some t) (hdb : t.db = some db') : Archived env db'

variable {env : Env}

/-- The reader goes on at the length of each payload. -/
def Readable (db : Archive) : Prop := ∀ m ∈ db.messages.rows, ¬syncFormat.Stops m.payload.length

/-- A payload that is delivered and parses has such a length. -/
theorem not_stops_of_deliverable (hempty : env.parseGossipNotification [] = none) {a : Input}
    (ha : Deliverable a) {raw : Bytes} (hraw : a.payload? = some raw) {n : GossipNotification}
    (hn : env.parseGossipNotification raw = some n) : ¬syncFormat.Stops raw.length := by
  cases a with
  | live ev =>
    cases ev with
    | received content deliveredFrom =>
      cases hraw
      have hle : raw.length ≤ maxMessageSize := ha
      have hne : raw ≠ [] := by
        rintro rfl
        rw [hempty] at hn
        cases hn
      have hpos := List.length_pos_iff.2 hne
      rw [maxMessageSize] at hle
      show ¬(raw.length = 0 ∨ 10000000 < raw.length)
      omega
    | neighborUp nodeId => cases hraw
    | neighborDown nodeId => cases hraw
    | lagged => cases hraw
  | catchup payload =>
    cases hraw
    obtain ⟨stream, rest, hnext⟩ := ha
    obtain ⟨header, -, -, -, hgoes⟩ := Frames.next_eq_some.1 hnext
    exact hgoes

/-- A session keeps the archive readable. -/
theorem readable_step (hempty : env.parseGossipNotification [] = none) {s t : Node}
    {a : Moment × Input} (hs : ∀ db ∈ s.db, Readable db) (ha : Deliverable a.2)
    (h : handleStep env s a = some t) : ∀ db ∈ t.db, Readable db := by
  cases h
  have hdb : (after (handle env a.1 a.2) s).db = s.db ∨ _ := db_handle a.1 a.2 s
  obtain hsame | ⟨raw, hraw, n, hn, hkept⟩ := hdb
  · rw [hsame]
    exact hs
  · rw [hkept]
    intro db' hdb'
    obtain ⟨db, hdb, rfl⟩ := Option.map_eq_some_iff.1 hdb'
    intro m hm
    obtain hm | ⟨rfl, -⟩ := mem_rows_keep.1 hm
    · exact hs db hdb m hm
    · exact not_stops_of_deliverable hempty ha hraw hn

/-- **What an archive can hold**: the reader goes on at the length of each payload. -/
theorem Archived.readable (hempty : env.parseGossipNotification [] = none) {db : Archive}
    (h : Archived env db) : Readable db := by
  induction h with
  | empty => exact fun m hm => absurd hm List.not_mem_nil
  | session _ hs has ht hdb ih =>
    refine inv_run_along (I := fun s : Node => ∀ db ∈ s.db, Readable db)
      (fun s a t hs ha h => readable_step hempty hs ha h) ?_ has ht _ hdb
    intro db hmem
    obtain rfl := Option.some.inj (hs.symm.trans hmem)
    exact ih

/-! ### The stream -/

/-- The loop of `run_catchup` ends, whatever the peer sends. -/
theorem readPayloads_isSome (stream : Bytes) {fuel : ℕ} (hfuel : stream.length < fuel) :
    (readPayloads fuel stream).isSome := Frames.readAll_isSome hfuel

/-- **Catch-up framing**: of any payloads that archives can hold, the loop of `run_catchup` reads from
the stream of `accept` just these, and it ends; from the stream cut at any place it reads those whose
frames are complete, and ends. -/
theorem catchup_framing (env : Env) (hempty : env.parseGossipNotification [] = none)
    (payloads : List Bytes)
    (hheld : ∀ payload ∈ payloads, ∃ db, Archived env db ∧ db.Contains payload) :
    (∀ fuel, (sendPayloads payloads).length < fuel →
      readPayloads fuel (sendPayloads payloads) = some payloads) ∧
    ∀ n fuel, ((sendPayloads payloads).take n).length < fuel → ∃ k ≤ payloads.length,
      readPayloads fuel ((sendPayloads payloads).take n) = some (payloads.take k) ∧
      ∀ j ≤ payloads.length, (sendPayloads (payloads.take j)).length ≤ n ↔ j ≤ k := by
  have hgoes : ∀ payload ∈ payloads, ¬syncFormat.Stops payload.length := by
    intro payload hpayload
    obtain ⟨db, hdb, m, hm, rfl⟩ := hheld payload hpayload
    exact hdb.readable hempty m hm
  exact ⟨fun fuel hfuel => Frames.readAll_put hgoes hfuel,
    fun n fuel hfuel => Frames.readAll_take hgoes hfuel⟩

/-- An unsigned notification for one feed. -/
def feedNotification (iri : String) : GossipNotification :=
  ⟨"1.0", "aa", 7, "podcast", "update", [iri], none, none⟩

/-- Its payload. -/
def feedPayload (iri : String) : Bytes := (feedNotification iri).canonicalBytes

/-- A listener that reads notifications. -/
def feedEnv : Env :=
  { plainEnv (feedNotification "") with
    parseGossipNotification := fun raw => Json.fromBytes raw >>= GossipNotification.fromJson }

theorem parse_feedPayload (iri : String) :
    feedEnv.parseGossipNotification (feedPayload iri) = some (feedNotification iri) := by
  show Json.fromBytes (feedPayload iri) >>= GossipNotification.fromJson = _
  rw [feedPayload, GossipNotification.canonicalBytes, Json.fromBytes_toBytes]
  rfl

theorem fate_feedPayload (iri : String) :
    fate feedEnv ∅ (feedPayload iri) = .kept (feedNotification iri) := by
  have hcut : Text.Cuts 8 (feedNotification iri).sender := by
    show Text.Cuts 8 "aa"
    decide
  rw [fate, parse_feedPayload]
  exact (if_pos (.inl rfl)).trans (if_pos hcut)

/-- An archive holds it after a catch-up. -/
theorem archived_feedPayload {iri : String} (h : ¬syncFormat.Stops (feedPayload iri).length) :
    ∃ db, Archived feedEnv db ∧ db.Contains (feedPayload iri) := by
  have hread : Deliverable (.catchup (feedPayload iri)) :=
    ⟨syncFormat.frame (feedPayload iri) ++ [], [], Frames.next_frame h []⟩
  let s : Node := .start 0 none none none (some .empty) false false
  have hstored : (after (catchupPayload feedEnv (.fine 7) (feedPayload iri)) s).db =
      some (Archive.empty.keep feedEnv (.fine 7) (feedPayload iri) (feedNotification iri)) := by
    have hs : s.trustedPublishers = .new (∅ : Finset String) := rfl
    rw [db_catchupPayload hs, fate_feedPayload]
    rfl
  have has : Along (handleStep feedEnv) (fun _ a => Deliverable a.2) s
      [(.fine 7, .catchup (feedPayload iri))] :=
    ⟨hread, fun _ _ => trivial⟩
  refine ⟨_, .session .empty rfl has rfl hstored, ?_⟩
  have hnew : ¬Archive.empty.Holds (feedEnv.blake3 (feedPayload iri)) := by
    rintro ⟨m, hm, -⟩
    exact absurd hm List.not_mem_nil
  exact ⟨_, (Archive.mem_rows_store rfl).2 (.inr ⟨rfl, hnew⟩), rfl⟩

/-- Two payloads, read back from the whole stream, and from one that is cut inside the second frame. -/
theorem catchup_framing_cut :
    let payloads := [feedPayload "http://a", feedPayload "http://b"]
    readPayloads 300 (sendPayloads payloads) = some payloads ∧
      readPayloads 300 ((sendPayloads payloads).take 150) = some [feedPayload "http://a"] := by
  intro payloads
  have ha : (feedPayload "http://a").length = 102 := by decide +kernel
  have hb : (feedPayload "http://b").length = 102 := by decide +kernel
  have hheld : ∀ payload ∈ payloads, ∃ db, Archived feedEnv db ∧ db.Contains payload := by
    intro payload hpayload
    rcases List.mem_pair.1 hpayload with rfl | rfl
    · exact archived_feedPayload (by rw [ha]; decide)
    · exact archived_feedPayload (by rw [hb]; decide)
  obtain ⟨hwhole, hcut⟩ := catchup_framing feedEnv rfl payloads hheld
  have hfirst : (sendPayloads (payloads.take 1)).length = 4 + 102 := by
    show (syncFormat.put [feedPayload "http://a"]).length = _
    rw [Frames.put_cons, List.length_append, Frames.length_frame, ha]
    rfl
  have hlength : (sendPayloads (payloads.take 2)).length = 4 + 102 + (4 + 102) := by
    show (syncFormat.put [feedPayload "http://a", feedPayload "http://b"]).length = _
    rw [Frames.put_cons, Frames.put_cons, List.length_append, List.length_append, Frames.length_frame,
      Frames.length_frame, ha, hb]
    rfl
  refine ⟨hwhole 300 (hlength.trans_lt (by decide)), ?_⟩
  obtain ⟨k, hk, hread, hcomplete⟩ := hcut 150 300 (by rw [List.length_take]; omega)
  have hone : 1 ≤ k := (hcomplete 1 (by decide)).1 (by omega)
  have htwo : ¬2 ≤ k := fun h => absurd ((hcomplete 2 (by decide)).2 h) (by omega)
  obtain rfl : k = 1 := by omega
  exact hread

/-- The client of an archive reads the answer. -/
theorem readPayloads_accept (hempty : env.parseGossipNotification [] = none) {db : Archive}
    (h : Archived env db) (since : UInt64) {fuel : ℕ} (hfuel : (accept db since).length < fuel) :
    readPayloads fuel (accept db since) = some ((answer db since).map Message.payload) := by
  refine Frames.readAll_put (fun payload hpayload => ?_) hfuel
  obtain ⟨m, hm, rfl⟩ := List.mem_map.1 hpayload
  exact h.readable hempty m (Archive.mem_rowsSince.1 (List.mem_of_mem_take hm)).1

end PodpingAlpha.Listener
