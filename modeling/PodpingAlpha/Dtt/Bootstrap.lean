import PodpingAlpha.Dtt.Dht
import PodpingAlpha.Dtt.Discovery
import PodpingAlpha.Library.Transition
import Mathlib.Data.List.Destutter

/-!
# The bootstrap loop and the publisher

The two tasks of `dtt-fork/src/gossip/topic` that publish a node's record: the loop of `start_bootstrap`,
which fetches the records of two minutes, joins the nodes that it finds there one by one, and publishes the
node's own record for the minute when that did not help; and `PublisherActor::publish`, which publishes the
neighbors of a node that has joined. `RecordPublisher::publish_record` is what both call.

## The model

A step of the loop is one answer that it waits for: of the gossip receiver, of the clock, of the DHT, of
`join_peers`, and the order in which the ids of a `HashSet` come. What the DHT returns is anything, so the
other nodes of the topic, and whoever else writes to the slot, are in the labels. Publications are spawned:
the loop records them and goes on.

## What is proved

* `publish_found` — what the publisher puts into the DHT is read by every other node of the topic as the
  record with the node's first five neighbors and last five hashes.
* `published_rounds` — in every run, the loop publishes one verified record for each minute in which an
  iteration did not help, and none twice as long as the clock does not go back.
* `calls_fetched` — in every run, the loop joins ids of records that were fetched, one in a call, and stops
  only when the node counts as joined.
* `published_joined` — in every run, an iteration whose DHT has the record of another node for either minute
  tells the topic to join that node and its neighbors, unless it counts as joined.
-/

namespace PodpingAlpha.Dtt.Bootstrap

open Crypto Discovery Outcome Transition

deriving instance DecidableEq for GossipRecordContent

/-! ### Publishing -/

/-- `MAX_BOOTSTRAP_RECORDS`. -/
def maxBootstrapRecords : ℕ := 100

/-- `keys::signing_keypair`, of a topic and a minute. -/
def signingKeypair (P : Primitives) (topic : Bytes32) (unixMinute : UInt64) : Bytes32 :=
  P.sha512 (topic.toList ++ Bytes.toLe 8 unixMinute.toNat)

/-- `keys::salt`. -/
def salt (P : Primitives) (topic : Bytes32) (unixMinute : UInt64) : Bytes32 :=
  P.sha512 (topic.toList ++ Bytes.toLe 8 unixMinute.toNat)

/-- A node, and what it uses. -/
structure Node where
  /-- What it verifies and decrypts with. -/
  primitives : Primitives
  /-- What it signs and encrypts with. -/
  keyring : Keyring
  /-- How postcard reads a content. -/
  content : Bytes → Option GossipRecordContent
  /-- How postcard writes it. -/
  toAllocvec : GossipRecordContent → Except String Bytes
  /-- Its keys and its topic. -/
  recordPublisher : SigningPublisher
  /-- The build checks its arithmetic. -/
  overflowChecks : Bool

/-- `RecordPublisher::publish_record`, given what the DHT returns and does, with the puts. -/
def Node.publishRecord (n : Node) (record : Record) (dht : Except String (List Bytes)) (rng : Rng)
    (net : Dht.Network) : Dht.Answer :=
  let p := n.recordPublisher
  match p.getRecords n.primitives record.unixMinute dht with
  | .error panic => (.error panic, [])
  | .ok records =>
    if maxBootstrapRecords ≤ records.card then (.ok (.ok ()), [])
    else
      let signKey := signingKeypair n.primitives p.recordTopic record.unixMinute
      let salt := salt n.primitives p.recordTopic record.unixMinute
      match record.encrypt n.keyring rng (p.slotKey n.primitives record.unixMinute) with
      | .error panic => (.error panic, [])
      | .ok encryptedRecord =>
        Dht.putMutable n.overflowChecks ⟨signKey, some salt.toList, encryptedRecord.toBytes⟩ (some 3) net

/-- The first five, with zeros where there are fewer. -/
def padded (ids : List Bytes32) : List.Vector Bytes32 5 :=
  ⟨(ids ++ List.replicate 5 zeros).take 5, by simp⟩

/-- The content of `PublisherActor::publish`, of the neighbors as they come and the hashes. -/
def recordContent (neighbors hashes : List Bytes32) : GossipRecordContent :=
  ⟨padded neighbors, padded hashes⟩

/-- A content that lists nobody. -/
def noPeers : GossipRecordContent := ⟨.replicate 5 zeros, .replicate 5 zeros⟩

/-- `PublisherActor::publish`. -/
def Node.publish (n : Node) (unixMinute : UInt64) (neighbors hashes : List Bytes32)
    (dht : Except String (List Bytes)) (rng : Rng) (net : Dht.Network) : Dht.Answer :=
  match n.recordPublisher.newRecord n.keyring n.toAllocvec unixMinute (recordContent neighbors hashes) with
  | .error e => (.ok (.error e), [])
  | .ok record => n.publishRecord record dht rng net

/-- A node whose keys match each other and what the other nodes use. -/
structure Node.Sound (n : Node) : Prop where
  /-- The primitives match. -/
  matching : Matching n.primitives n.keyring
  /-- The node's public key belongs to its signing key. -/
  own : n.recordPublisher.pubKey = n.keyring.verifyingKey n.recordPublisher.signingKey

/-- A record as `new_record` builds it. -/
structure Built (n : Node) (m : UInt64) (c : GossipRecordContent) (r : Record) : Prop where
  /-- It is for the minute. -/
  unixMinute : r.unixMinute = m
  /-- It is the node's. -/
  pubKey : r.pubKey = n.recordPublisher.pubKey
  /-- It has the content. -/
  content : n.toAllocvec c = .ok r.content
  /-- It is verified, if the node is sound. -/
  verified : n.Sound → r.Verified n.primitives n.recordPublisher.recordTopic m

theorem built_of_newRecord {n : Node} {m : UInt64} {c : GossipRecordContent} {r : Record}
    (h : n.recordPublisher.newRecord n.keyring n.toAllocvec m c = .ok r) : Built n m c r := by
  rw [SigningPublisher.newRecord, Record.sign] at h
  cases hc : n.toAllocvec c with
  | error msg =>
    rw [hc] at h
    cases h
  | ok bytes =>
    rw [hc] at h
    cases h
    refine ⟨rfl, rfl, hc, fun hsound => ⟨rfl, rfl, ?_, ?_⟩⟩
    · show n.primitives.verifyingKey n.recordPublisher.pubKey
      rw [hsound.own]
      exact hsound.matching.verifyingKey _
    · simp only [Record.signatureData]
      rw [hsound.own]
      exact hsound.matching.verifyStrict _ _

/-- What postcard writes it reads. -/
def Node.Reads (n : Node) : Prop := ∀ c bytes, n.toAllocvec c = .ok bytes → n.content bytes = some c

/-- What `publish_record` puts, and what its `Ok` means. -/
structure Publishes (n : Node) (record : Record) (dht : Except String (List Bytes)) (rng : Rng)
    (answer : Dht.Answer) : Prop where
  /-- It puts the record into its slot, encrypted for it. -/
  puts : ∀ put ∈ answer.2, ∃ e,
    record.encrypt n.keyring rng (n.recordPublisher.slotKey n.primitives record.unixMinute) = .ok e ∧
      put.item.value = e.toBytes ∧
      put.item.signer = signingKeypair n.primitives n.recordPublisher.recordTopic record.unixMinute ∧
      put.item.salt = some (salt n.primitives n.recordPublisher.recordTopic record.unixMinute).toList
  /-- It puts nothing into a slot that is full. -/
  room : answer.2 ≠ [] → ∃ records, records.card < maxBootstrapRecords ∧
    n.recordPublisher.getRecords n.primitives record.unixMinute dht = .ok records
  /-- `Ok` means that the record was stored, or that the slot is full. -/
  stored : answer.1 = .ok (.ok ()) → (∃ put ∈ answer.2, put.result = .stored) ∨
    ∃ records, maxBootstrapRecords ≤ records.card ∧
      n.recordPublisher.getRecords n.primitives record.unixMinute dht = .ok records

theorem publishes_of_error {n : Node} {record : Record} {dht : Except String (List Bytes)} {rng : Rng}
    (panic : Panic) : Publishes n record dht rng (.error panic, []) :=
  ⟨List.forall_mem_nil _, fun h => absurd rfl h, fun h => by cases h⟩

theorem publishRecord_publishes (n : Node) (record : Record) (dht : Except String (List Bytes)) (rng : Rng)
    (net : Dht.Network) : Publishes n record dht rng (n.publishRecord record dht rng net) := by
  unfold Node.publishRecord
  dsimp only
  split
  · next panic hget => exact publishes_of_error panic
  · next records hget =>
    split_ifs with hfull
    · exact ⟨List.forall_mem_nil _, fun h => absurd rfl h, fun _ => .inr ⟨records, hfull, hget⟩⟩
    · split
      · next panic henc => exact publishes_of_error panic
      · next e henc =>
        refine ⟨fun put hput => ?_, fun _ => ⟨records, not_le.1 hfull, hget⟩, fun hok => .inl ?_⟩
        · obtain ⟨hsigner, hsalt, hvalue⟩ := (Dht.putMutable_puts (Nat.succ_pos 2) net).asks put hput
          exact ⟨e, henc, hvalue, hsigner, hsalt⟩
        · exact (Dht.putMutable_puts (Nat.succ_pos 2) net).stored hok

/-- **What is published is found**: whatever is in the slot, and whatever the DHT does, each value that the
publisher puts is signed and salted as everybody on the topic expects of the minute, and if it is shorter
than 2³² bytes every other node with the same secret and rotation reads it as a record of the publisher
whose content is its neighbors and hashes; nothing is put into a slot with a hundred records of others; and
`Ok` means that the value was stored, or that the slot was full. -/
theorem publish_found (n : Node) (hsound : n.Sound) (hreads : n.Reads) (m : UInt64)
    (neighbors hashes : List Bytes32) (dht : Except String (List Bytes)) (rng : Rng) (net : Dht.Network) :
    let p := n.recordPublisher
    let answer := n.publish m neighbors hashes dht rng net
    (∀ put ∈ answer.2, put.item.signer = signingKeypair n.primitives p.recordTopic m ∧
        put.item.salt = some (salt n.primitives p.recordTopic m).toList ∧
        (put.item.value.length < 2 ^ 32 →
          ∀ q : RecordPublisher, SameSlots n.primitives q p.toRecordPublisher → q.pubKey ≠ p.pubKey →
            ∃ r, q.openValue n.primitives m put.item.value = .ok (some r) ∧ r.pubKey = p.pubKey ∧
              n.content r.content = some (recordContent neighbors hashes))) ∧
      (answer.2 ≠ [] → ∃ records, records.card < maxBootstrapRecords ∧
        p.getRecords n.primitives m dht = .ok records) ∧
      (answer.1 = .ok (.ok ()) → (∃ put ∈ answer.2, put.result = .stored) ∨
        ∃ records, maxBootstrapRecords ≤ records.card ∧ p.getRecords n.primitives m dht = .ok records) := by
  intro p answer
  cases hrecord : p.newRecord n.keyring n.toAllocvec m (recordContent neighbors hashes) with
  | error e =>
    have hanswer : answer = (.ok (.error e), []) := by
      simp only [answer, Node.publish]
      rw [hrecord]
    rw [hanswer]
    exact ⟨List.forall_mem_nil _, fun h => absurd rfl h, fun h => by cases h⟩
  | ok record =>
    have hanswer : answer = n.publishRecord record dht rng net := by
      simp only [answer, Node.publish]
      rw [hrecord]
    have hbuilt := built_of_newRecord hrecord
    have hpublishes := publishRecord_publishes n record dht rng net
    rw [← hanswer] at hpublishes
    obtain rfl := hbuilt.unixMinute
    refine ⟨fun put hput => ?_, hpublishes.room, hpublishes.stored⟩
    obtain ⟨e, henc, hvalue, hsigner, hsalt⟩ := hpublishes.puts put hput
    refine ⟨hsigner, hsalt, fun hlen q hq hne => ⟨record, ?_, hbuilt.pubKey, hreads _ _ hbuilt.content⟩⟩
    have hshort : e.encryptedRecord.length < 2 ^ 32 := by
      rw [hvalue, EncryptedRecord.toBytes] at hlen
      simp only [List.length_append] at hlen
      omega
    have hpublished : Crypto.Published n.primitives n.keyring n.toAllocvec p record.unixMinute
        (recordContent neighbors hashes) record e := ⟨hsound.own, hrecord, rng, henc⟩
    rw [hvalue]
    exact hpublished.openValue hsound.matching hq hne hshort

/-- As postcard writes it. -/
def noPeersBytes : Bytes := List.replicate 320 0

/-- A node with the given key on the plain slot. Its postcard knows no other content. -/
def startingNode (key : Bytes32) : Node where
  primitives := plainPrimitives
  keyring := plainKeyring
  content bytes := if bytes = noPeersBytes then some noPeers else none
  toAllocvec c := if c = noPeers then .ok noPeersBytes else .error "not written"
  recordPublisher := { plainPublisher with pubKey := key, signingKey := key }
  overflowChecks := true

theorem startingNode_sound (key : Bytes32) : (startingNode key).Sound := ⟨matching_plain, rfl⟩

theorem startingNode_reads (key : Bytes32) : (startingNode key).Reads := by
  intro c bytes h
  simp only [startingNode] at h
  split_ifs at h with hc
  rw [hc, ← Except.ok.inj h]
  simp only [startingNode, if_true]

/-- A DHT that stores what it is given. -/
def storingNetwork : Dht.Network := ⟨true, true, fun _ => ⟨.nothing, .stored, true⟩⟩

/-- The node without neighbors puts one value into an empty slot, and another node reads it. -/
theorem publish_found_empty :
    ∃ put, ((startingNode (.replicate 32 2)).publish 7 [] [] (.ok []) ⟨.replicate 32 4, [], []⟩
        storingNetwork).2 = [put] ∧
      ∃ r, (startingNode (.replicate 32 5)).recordPublisher.openValue plainPrimitives 7 put.item.value =
          .ok (some r) ∧ r.pubKey = .replicate 32 2 := by
  have hfound := publish_found (startingNode (.replicate 32 2)) (startingNode_sound _)
    (startingNode_reads _) 7 [] [] (.ok []) ⟨.replicate 32 4, [], []⟩ storingNetwork
  refine ⟨_, rfl, ?_⟩
  obtain ⟨-, -, hopen⟩ := hfound.1 _ (List.mem_singleton_self _)
  obtain ⟨r, hr, hpubKey, -⟩ := hopen (by decide +kernel)
    (startingNode (.replicate 32 5)).recordPublisher.toRecordPublisher ⟨rfl, rfl, rfl⟩ (by decide)
  exact ⟨r, hr, hpubKey⟩

/-! ### The bootstrap loop -/

/-- `unix_minute`, of a clock in seconds. -/
def unixMinute (timestamp : Int64) (minuteOffset : ℤ) : UInt64 :=
  UInt64.ofInt (timestamp.toInt / 60 + minuteOffset)

/-- Where the loop is. -/
inductive Phase where
  /-- At its head, about to ask whether the node counts as joined. -/
  | head
  /-- About to read the clock. -/
  | clock
  /-- About to fetch the records of the minute before. -/
  | fetchPrevious (unixMinute : UInt64)
  /-- About to fetch the records of the minute. -/
  | fetch (unixMinute : UInt64) (records : Finset Record)
  /-- It has found records. -/
  | found (unixMinute : UInt64) (records : Finset Record)
  /-- About to ask again, with ids to join. -/
  | again (unixMinute : UInt64) (nodes : List Bytes32)
  /-- About to join the first of these, or with none left to ask again. -/
  | join (unixMinute : UInt64) (nodes : List Bytes32)
  /-- About to ask after a join. -/
  | joined (unixMinute : UInt64) (nodes : List Bytes32)
  /-- About to ask for the last time. -/
  | final (unixMinute : UInt64)
  /-- It has sent its signal. -/
  | completed
  /-- It has panicked. -/
  | panicked
  deriving DecidableEq

/-- The loop, and what it has done. -/
structure World where
  /-- Where it is. -/
  phase : Phase
  /-- `last_published_unix_minute`. -/
  lastPublishedUnixMinute : UInt64
  /-- What the clock said, oldest first. -/
  clock : List Int64
  /-- The minutes of the iterations that were followed by another. -/
  rounds : List UInt64
  /-- The records that were handed to `publish_record`. -/
  published : List Record
  /-- The calls of `join_peers`. -/
  calls : List (List Bytes32)

/-- An answer that the loop waits for. -/
inductive Label where
  /-- Of `is_joined`, if its actor is there. -/
  | isJoined (joined : Option Bool)
  /-- Of the clock. -/
  | now (timestamp : Int64)
  /-- Of the DHT. -/
  | get (dht : Except String (List Bytes))
  /-- The ids that were found, as they come. -/
  | visit (nodes : List Bytes32)
  /-- Of `join_peers`: it is `Ok`. -/
  | joinPeers (ok : Bool)

/-- `start_bootstrap`. -/
def World.init : World := ⟨.head, 0, [], [], [], []⟩

/-- The record of a node that knows nobody. -/
def Node.ownRecord (n : Node) (unixMinute : UInt64) : Except String Record :=
  n.recordPublisher.newRecord n.keyring n.toAllocvec unixMinute noPeers

/-- The end of an iteration that did not help: the node's record is published, once for a minute. -/
def World.goOn (n : Node) (w : World) (unixMinute : UInt64) : World :=
  let w := { w with phase := .head, rounds := w.rounds ++ [unixMinute] }
  if unixMinute ≠ w.lastPublishedUnixMinute then
    { w with lastPublishedUnixMinute := unixMinute,
             published := w.published ++ (n.ownRecord unixMinute).toOption.toList }
  else w

/-- What `is_joined` leads to. -/
def World.onJoined (n : Node) (w : World) (joined : Bool) : Option World :=
  match w.phase with
  | .head => some { w with phase := if joined then .completed else .clock }
  | .again unixMinute nodes =>
    some { w with phase := if joined then .completed else .join unixMinute nodes }
  | .joined unixMinute nodes => some { w with phase := .join unixMinute (if joined then [] else nodes) }
  | .join unixMinute [] => some { w with phase := .final unixMinute }
  | .final unixMinute => some (if joined then { w with phase := .completed } else w.goOn n unixMinute)
  | _ => none

/-- `unix_minute`, of the iteration; the subtraction after it may overflow. -/
def World.onNow (n : Node) (w : World) (timestamp : Int64) : World :=
  let unixMinute := unixMinute timestamp (if w.lastPublishedUnixMinute = 0 then -1 else 0)
  { w with phase := if n.overflowChecks ∧ unixMinute = 0 then .panicked else .fetchPrevious unixMinute,
           clock := w.clock ++ [timestamp] }

/-- `get_records`, for the two minutes. -/
def World.onGet (n : Node) (w : World) (dht : Except String (List Bytes)) : Option World :=
  match w.phase with
  | .fetchPrevious unixMinute =>
    match n.recordPublisher.getRecords n.primitives (unixMinute - 1) dht with
    | .error _ => some { w with phase := .panicked }
    | .ok records => some { w with phase := .fetch unixMinute records }
  | .fetch unixMinute records =>
    match n.recordPublisher.getRecords n.primitives unixMinute dht with
    | .error _ => some { w with phase := .panicked }
    | .ok more =>
      let records := records ∪ more
      some (if records = ∅ then w.goOn n unixMinute else { w with phase := .found unixMinute records })
  | _ => none

/-- One step of the loop; `is_joined` panics without its actor, wherever it is asked. -/
def step (n : Node) (w : World) : Label → Option World
  | .isJoined none => (w.onJoined n true).map fun w => { w with phase := .panicked }
  | .isJoined (some joined) => w.onJoined n joined
  | .now timestamp =>
    match w.phase with
    | .clock => some (w.onNow n timestamp)
    | _ => none
  | .get dht => w.onGet n dht
  | .visit nodes =>
    match w.phase with
    | .found unixMinute records =>
      if nodes.Nodup ∧ nodes.toFinset = bootstrapNodes n.primitives n.content records then
        some { w with phase := .again unixMinute nodes }
      else none
    | _ => none
  | .joinPeers ok =>
    match w.phase with
    | .join unixMinute (id :: nodes) =>
      some { w with phase := if ok then .joined unixMinute nodes else .join unixMinute nodes,
                    calls := w.calls ++ [[id]] }
    | _ => none

/-! ### What a step does -/

variable {n : Node} {w t : World} {a : Label}

/-- The label stops the loop: the actor is gone, the subtraction overflows, or a value is unreadable. -/
inductive Panics (n : Node) : Label → Prop where
  | isJoined : Panics n (.isJoined none)
  | now (timestamp : Int64) (minuteOffset : ℤ) (hchecks : n.overflowChecks)
    (hzero : unixMinute timestamp minuteOffset = 0) : Panics n (.now timestamp)
  | get (dht : Except String (List Bytes)) (minute : UInt64) (value : Bytes) (hvalue : value ∈ slotValues dht)
    (hread : ¬Readable n.primitives (n.recordPublisher.slotKey n.primitives minute) value) :
    Panics n (.get dht)

theorem panics_of_getRecords {minute : UInt64} {dht : Except String (List Bytes)} {panic : Panic}
    (h : n.recordPublisher.getRecords n.primitives minute dht = .error panic) : Panics n (.get dht) := by
  have hreturns : ¬∃ rs, n.recordPublisher.getRecords n.primitives minute dht = .ok rs := by
    rintro ⟨rs, hrs⟩
    rw [h] at hrs
    cases hrs
  rw [getRecords_returns] at hreturns
  push Not at hreturns
  obtain ⟨value, hvalue, hread⟩ := hreturns
  exact .get dht minute value hvalue hread

/-- What a step does, by where the loop is. -/
inductive Moves (n : Node) (w : World) : Label → World → Prop where
  | complete : Moves n w (.isJoined (some true)) { w with phase := .completed }
  | panic (a : Label) (h : Panics n a) : Moves n w a { w with phase := .panicked }
  | overflow (timestamp : Int64) (h : Panics n (.now timestamp)) : Moves n w (.now timestamp)
    { w with phase := .panicked, clock := w.clock ++ [timestamp] }
  | begin (h : w.phase = .head) : Moves n w (.isJoined (some false)) { w with phase := .clock }
  | now (timestamp : Int64) (h : w.phase = .clock) : Moves n w (.now timestamp)
    { w with phase := .fetchPrevious (unixMinute timestamp (if w.lastPublishedUnixMinute = 0 then -1 else 0)),
             clock := w.clock ++ [timestamp] }
  | fetchPrevious (m : UInt64) (dht : Except String (List Bytes)) (records : Finset Record)
    (h : w.phase = .fetchPrevious m)
    (hget : n.recordPublisher.getRecords n.primitives (m - 1) dht = .ok records) :
    Moves n w (.get dht) { w with phase := .fetch m records }
  | fetch (m : UInt64) (dht : Except String (List Bytes)) (records more : Finset Record)
    (h : w.phase = .fetch m records)
    (hget : n.recordPublisher.getRecords n.primitives m dht = .ok more) :
    Moves n w (.get dht) { w with phase := .found m (records ∪ more) }
  | nothing (m : UInt64) (dht : Except String (List Bytes)) (h : w.phase = .fetch m ∅)
    (hget : n.recordPublisher.getRecords n.primitives m dht = .ok ∅) : Moves n w (.get dht) (w.goOn n m)
  | visit (m : UInt64) (records : Finset Record) (nodes : List Bytes32) (h : w.phase = .found m records)
    (hnodes : ∀ id, id ∈ nodes ↔ id ∈ bootstrapNodes n.primitives n.content records) :
    Moves n w (.visit nodes) { w with phase := .again m nodes }
  | again (m : UInt64) (nodes : List Bytes32) (h : w.phase = .again m nodes) :
    Moves n w (.isJoined (some false)) { w with phase := .join m nodes }
  | join (m : UInt64) (id : Bytes32) (nodes : List Bytes32) (ok : Bool)
    (h : w.phase = .join m (id :: nodes)) :
    Moves n w (.joinPeers ok)
      { w with phase := if ok then .joined m nodes else .join m nodes, calls := w.calls ++ [[id]] }
  | joined (m : UInt64) (nodes : List Bytes32) (joined : Bool) (h : w.phase = .joined m nodes) :
    Moves n w (.isJoined (some joined)) { w with phase := .join m (if joined then [] else nodes) }
  | tried (m : UInt64) (joined : Bool) (h : w.phase = .join m []) :
    Moves n w (.isJoined (some joined)) { w with phase := .final m }
  | final (m : UInt64) (h : w.phase = .final m) : Moves n w (.isJoined (some false)) (w.goOn n m)

theorem moves_of_onJoined {joined : Bool} (h : w.onJoined n joined = some t) :
    Moves n w (.isJoined (some joined)) t := by
  unfold World.onJoined at h
  split at h
  · next hphase =>
    cases h
    cases joined
    · exact .begin hphase
    · exact .complete
  · next m nodes hphase =>
    cases h
    cases joined
    · exact .again m nodes hphase
    · exact .complete
  · next m nodes hphase =>
    cases h
    exact .joined m nodes joined hphase
  · next m hphase =>
    cases h
    exact .tried m joined hphase
  · next m hphase =>
    cases h
    cases joined
    · exact .final m hphase
    · exact .complete
  · cases h

/-- Asked by a node that counts as joined, the loop changes nothing but its place. -/
theorem onJoined_true (h : w.onJoined n true = some t) (phase : Phase) :
    { t with phase := phase } = { w with phase := phase } := by
  unfold World.onJoined at h
  split at h
  all_goals
    cases h
    try rfl

theorem moves_of_onGet {dht : Except String (List Bytes)} (h : w.onGet n dht = some t) :
    Moves n w (.get dht) t := by
  unfold World.onGet at h
  split at h
  · next m hphase =>
    split at h
    · next panic hget =>
      cases h
      exact .panic _ (panics_of_getRecords hget)
    · next records hget =>
      cases h
      exact .fetchPrevious m dht records hphase hget
  · next m records hphase =>
    split at h
    · next panic hget =>
      cases h
      exact .panic _ (panics_of_getRecords hget)
    · next more hget =>
      cases h
      split_ifs with hnone
      · obtain ⟨rfl, rfl⟩ := Finset.union_eq_empty.1 hnone
        exact .nothing m dht hphase hget
      · exact .fetch m dht records more hphase hget
  · cases h

theorem moves_onNow (h : w.phase = .clock) (timestamp : Int64) :
    Moves n w (.now timestamp) (w.onNow n timestamp) := by
  unfold World.onNow
  set minuteOffset : ℤ := if w.lastPublishedUnixMinute = 0 then -1 else 0 with hoffset
  dsimp only
  split_ifs with hpanic
  · exact .overflow timestamp (.now timestamp minuteOffset hpanic.1 hpanic.2)
  · rw [hoffset]
    exact .now timestamp h

theorem moves_of_step (h : step n w a = some t) : Moves n w a t := by
  cases a with
  | isJoined joined =>
    cases joined with
    | none =>
      obtain ⟨u, hu, rfl⟩ := Option.map_eq_some_iff.1 h
      rw [onJoined_true hu]
      exact .panic _ .isJoined
    | some joined => exact moves_of_onJoined h
  | now timestamp =>
    simp only [step] at h
    split at h
    · next hphase =>
      cases h
      exact moves_onNow hphase timestamp
    · cases h
  | get dht => exact moves_of_onGet h
  | visit nodes =>
    simp only [step] at h
    split at h
    · next m records hphase =>
      split_ifs at h with hnodes
      cases h
      exact .visit m records nodes hphase fun id => by rw [← hnodes.2, List.mem_toFinset]
    · cases h
  | joinPeers ok =>
    simp only [step] at h
    split at h
    · next m id nodes hphase =>
      cases h
      exact .join m id nodes ok hphase
    · cases h

/-! ### What is published -/

/-- The minute of the iteration. -/
def Phase.minute : Phase → Option UInt64
  | .fetchPrevious m | .fetch m _ | .found m _ | .again m _ | .join m _ | .joined m _ | .final m => some m
  | .head | .clock | .completed | .panicked => none

/-- The minutes of the iterations that were followed by another, and of the one that is not over. -/
def World.minutes (w : World) : List UInt64 := w.rounds ++ w.phase.minute.toList

/-- Nothing was published in between. -/
structure Keeps (w t : World) : Prop where
  last : t.lastPublishedUnixMinute = w.lastPublishedUnixMinute
  rounds : t.rounds = w.rounds
  published : t.published = w.published

/-- The step reads the clock, or ends an iteration, or does neither. -/
theorem moves_books (h : Moves n w a t) :
    (∃ timestamp, t.clock = w.clock ++ [timestamp] ∧ Keeps w t ∧
      t.minutes.Sublist (w.rounds ++
        [unixMinute timestamp (if w.lastPublishedUnixMinute = 0 then -1 else 0)])) ∨
    (∃ m, w.phase.minute = some m ∧ t = w.goOn n m) ∨
    (t.clock = w.clock ∧ Keeps w t ∧ t.minutes.Sublist w.minutes) := by
  have hnone : ∀ {phase : Phase}, phase.minute = none →
      ({ w with phase := phase } : World).minutes.Sublist w.minutes := by
    intro phase hphase
    rw [World.minutes]
    rw [hphase]
    exact (List.Sublist.refl _).append (List.nil_sublist _)
  have hsame : ∀ {phase : Phase} {calls : List (List Bytes32)}, phase.minute = w.phase.minute →
      ({ w with phase := phase, calls := calls } : World).minutes.Sublist w.minutes := by
    intro phase calls hphase
    rw [World.minutes]
    rw [hphase]
    exact List.Sublist.refl _
  cases h with
  | complete => exact .inr (.inr ⟨rfl, ⟨rfl, rfl, rfl⟩, hnone rfl⟩)
  | panic => exact .inr (.inr ⟨rfl, ⟨rfl, rfl, rfl⟩, hnone rfl⟩)
  | overflow timestamp =>
    exact .inl ⟨timestamp, rfl, ⟨rfl, rfl, rfl⟩, (List.Sublist.refl _).append (List.nil_sublist _)⟩
  | begin => exact .inr (.inr ⟨rfl, ⟨rfl, rfl, rfl⟩, hnone rfl⟩)
  | now timestamp => exact .inl ⟨timestamp, rfl, ⟨rfl, rfl, rfl⟩, List.Sublist.refl _⟩
  | fetchPrevious m dht records h => exact .inr (.inr ⟨rfl, ⟨rfl, rfl, rfl⟩, hsame (by rw [h]; rfl)⟩)
  | fetch m dht records more h => exact .inr (.inr ⟨rfl, ⟨rfl, rfl, rfl⟩, hsame (by rw [h]; rfl)⟩)
  | nothing m dht h => exact .inr (.inl ⟨m, by rw [h]; rfl, rfl⟩)
  | visit m records nodes h => exact .inr (.inr ⟨rfl, ⟨rfl, rfl, rfl⟩, hsame (by rw [h]; rfl)⟩)
  | again m nodes h => exact .inr (.inr ⟨rfl, ⟨rfl, rfl, rfl⟩, hsame (by rw [h]; rfl)⟩)
  | join m id nodes ok h =>
    exact .inr (.inr ⟨rfl, ⟨rfl, rfl, rfl⟩, hsame (by rw [h]; cases ok <;> rfl)⟩)
  | joined m nodes joined h => exact .inr (.inr ⟨rfl, ⟨rfl, rfl, rfl⟩, hsame (by rw [h]; rfl)⟩)
  | tried m joined h => exact .inr (.inr ⟨rfl, ⟨rfl, rfl, rfl⟩, hsame (by rw [h]; rfl)⟩)
  | final m h => exact .inr (.inl ⟨m, by rw [h]; rfl, rfl⟩)

theorem goOn_phase (n : Node) (w : World) (m : UInt64) : (w.goOn n m).phase = .head := by
  unfold World.goOn
  dsimp only
  split_ifs <;> rfl

theorem goOn_calls (n : Node) (w : World) (m : UInt64) : (w.goOn n m).calls = w.calls := by
  unfold World.goOn
  dsimp only
  split_ifs <;> rfl

theorem goOn_clock (n : Node) (w : World) (m : UInt64) : (w.goOn n m).clock = w.clock := by
  unfold World.goOn
  dsimp only
  split_ifs <;> rfl

theorem goOn_rounds (n : Node) (w : World) (m : UInt64) : (w.goOn n m).rounds = w.rounds ++ [m] := by
  unfold World.goOn
  dsimp only
  split_ifs <;> rfl

theorem goOn_last (n : Node) (w : World) (m : UInt64) : (w.goOn n m).lastPublishedUnixMinute = m := by
  unfold World.goOn
  dsimp only
  split_ifs with h
  · rfl
  · exact (not_not.1 h).symm

theorem goOn_published (n : Node) (w : World) (m : UInt64) : (w.goOn n m).published =
    w.published ++ if m = w.lastPublishedUnixMinute then [] else (n.ownRecord m).toOption.toList := by
  unfold World.goOn
  dsimp only
  by_cases h : m = w.lastPublishedUnixMinute
  · rw [if_neg (not_not.2 h), if_pos h, List.append_nil]
  · rw [if_pos h, if_neg h]

/-- An element at the end stays where it differs from the one before it. -/
theorem destutter_concat {α : Type*} [DecidableEq α] (a : α) (l : List α) (b : α) :
    (a :: (l ++ [b])).destutter (· ≠ ·) =
      (a :: l).destutter (· ≠ ·) ++ if b = l.getLastD a then [] else [b] := by
  simp only [List.destutter_cons']
  induction l generalizing a with
  | nil =>
    rw [List.nil_append, List.destutter'_singleton, List.destutter'_nil, List.getLastD_nil]
    by_cases h : b = a
    · rw [if_pos h, if_neg (not_not.2 h.symm), List.append_nil]
    · rw [if_neg h, if_pos (Ne.symm h)]
      rfl
  | cons c l ih =>
    rw [List.cons_append, List.getLastD_cons]
    by_cases h : a = c
    · rw [List.destutter'_cons_neg _ (not_not.2 h), List.destutter'_cons_neg _ (not_not.2 h), ih a, h]
    · rw [List.destutter'_cons_pos _ h, List.destutter'_cons_pos _ h, ih c, List.cons_append]

/-- The content of a node that knows nobody can be written. -/
def Node.Writes (n : Node) : Prop :=
  ∃ bytes, n.toAllocvec noPeers = .ok bytes

theorem Node.Writes.ownRecord (h : n.Writes) (m : UInt64) : ∃ r, n.ownRecord m = .ok r := by
  obtain ⟨bytes, hbytes⟩ := h
  rw [Node.ownRecord, SigningPublisher.newRecord, Record.sign]
  rw [hbytes]
  exact ⟨_, rfl⟩

/-- What has been published, and for which minutes. -/
structure Ledger (n : Node) (w : World) : Prop where
  /-- Every record is the node's own for its minute. -/
  signed : ∀ r ∈ w.published, n.ownRecord r.unixMinute = .ok r
  /-- The last minute was published. -/
  last : w.lastPublishedUnixMinute = w.rounds.getLastD 0
  /-- A minute is published where it is not the one before it. -/
  once : n.Writes → 0 :: w.published.map Record.unixMinute = (0 :: w.rounds).destutter (· ≠ ·)

theorem Ledger.init (n : Node) : Ledger n World.init :=
  ⟨List.forall_mem_nil _, rfl, fun _ => rfl⟩

theorem Ledger.keeps (h : Ledger n w) (hk : Keeps w t) : Ledger n t := by
  obtain ⟨hlast, hrounds, hpublished⟩ := hk
  refine ⟨?_, ?_, ?_⟩
  · rw [hpublished]
    exact h.signed
  · rw [hlast, hrounds]
    exact h.last
  · rw [hpublished, hrounds]
    exact h.once

theorem Ledger.goOn (h : Ledger n w) (m : UInt64) : Ledger n (w.goOn n m) := by
  refine ⟨?_, ?_, ?_⟩
  · rw [goOn_published]
    refine List.forall_mem_append.2 ⟨h.signed, fun r hr => ?_⟩
    split_ifs at hr
    · exact absurd hr List.not_mem_nil
    · cases hown : n.ownRecord m with
      | error e =>
        rw [hown] at hr
        exact absurd hr List.not_mem_nil
      | ok own =>
        rw [hown] at hr
        obtain rfl := List.mem_singleton.1 hr
        rw [(built_of_newRecord hown).unixMinute]
        exact hown
  · rw [goOn_last, goOn_rounds, List.getLastD_concat]
  · intro hwrites
    obtain ⟨own, hown⟩ := hwrites.ownRecord m
    rw [goOn_rounds, goOn_published, destutter_concat, ← h.once hwrites, ← h.last, List.map_append,
      List.cons_append, hown]
    split_ifs
    · rfl
    · rw [← (built_of_newRecord hown).unixMinute]
      rfl

theorem ledger_step (h : Ledger n w) (hstep : step n w a = some t) : Ledger n t := by
  obtain ⟨-, -, hk, -⟩ | ⟨m, -, rfl⟩ | ⟨-, hk, -⟩ := moves_books (moves_of_step hstep)
  · exact h.keeps hk
  · exact h.goOn m
  · exact h.keeps hk

/-! ### In which order -/

/-- The clock does not go back, and is past its first two minutes. -/
def Steady (clock : List Int64) : Prop := clock.Pairwise (· ≤ ·) ∧ ∀ timestamp ∈ clock, 120 ≤ timestamp

theorem unixMinute_toNat (timestamp : Int64) {minuteOffset : ℤ}
    (hlo : 0 ≤ timestamp.toInt / 60 + minuteOffset) (hhi : minuteOffset ≤ 0) :
    ((unixMinute timestamp minuteOffset).toNat : ℤ) = timestamp.toInt / 60 + minuteOffset := by
  have hmax := timestamp.toInt_lt
  have hlt : timestamp.toInt / 60 + minuteOffset < 2 ^ 64 := by omega
  have hsize : (timestamp.toInt / 60 + minuteOffset).toNat < 2 ^ 64 := by omega
  rw [unixMinute, UInt64.ofInt, Int.emod_eq_of_lt hlo hlt, UInt64.toNat_ofNat_of_lt' hsize]
  omega

/-- The minutes of the iterations follow the clock. -/
structure InOrder (w : World) : Prop where
  /-- They do not decrease. -/
  sorted : w.minutes.Pairwise (· ≤ ·)
  /-- None of them is the first. -/
  pos : ∀ m ∈ w.minutes, m ≠ 0
  /-- Each had come when the clock was read. -/
  read : ∀ m ∈ w.minutes, ∃ timestamp ∈ w.clock, (m.toNat : ℤ) ≤ timestamp.toInt / 60

theorem InOrder.sublist (h : InOrder w) (hminutes : t.minutes.Sublist w.minutes)
    (hclock : t.clock = w.clock) : InOrder t := by
  refine ⟨h.sorted.sublist hminutes, fun m hm => h.pos m (hminutes.subset hm), ?_⟩
  rw [hclock]
  exact fun m hm => h.read m (hminutes.subset hm)

/-- A reading gives a minute that has not been passed: that before, if nothing was published so far. -/
theorem InOrder.readClock (h : InOrder w) (hl : Ledger n w) {timestamp : Int64}
    (hsteady : Steady (w.clock ++ [timestamp])) (hclock : t.clock = w.clock ++ [timestamp])
    (hminutes : t.minutes.Sublist (w.rounds ++
      [unixMinute timestamp (if w.lastPublishedUnixMinute = 0 then -1 else 0)])) : InOrder t := by
  set minuteOffset : ℤ := if w.lastPublishedUnixMinute = 0 then -1 else 0 with hoffset
  have hpast : 120 ≤ timestamp.toInt := Int64.le_iff_toInt_le.1 (hsteady.2 timestamp (by simp))
  have hbounds : -1 ≤ minuteOffset ∧ minuteOffset ≤ 0 := by
    rw [hoffset]
    split_ifs <;> omega
  have hminute := unixMinute_toNat timestamp (by omega) hbounds.2
  have hrounds : ∀ m ∈ w.rounds, m ∈ w.minutes := fun m hm => List.mem_append_left _ hm
  have hle : ∀ m ∈ w.rounds, m ≤ unixMinute timestamp minuteOffset := by
    intro m hm
    have hlast : w.lastPublishedUnixMinute ≠ 0 := by
      rw [hl.last, List.getLastD_eq_getLast?, List.getLast?_eq_some_getLast (List.ne_nil_of_mem hm)]
      exact h.pos _ (hrounds _ (List.getLast_mem _))
    obtain ⟨earlier, hearlier, hread⟩ := h.read m (hrounds m hm)
    have hmono := Int64.le_iff_toInt_le.1
      ((List.pairwise_append.1 hsteady.1).2.2 earlier hearlier timestamp (List.mem_singleton_self _))
    rw [if_neg hlast] at hoffset
    rw [UInt64.le_iff_toNat_le]
    omega
  have hall : InOrder ⟨.fetchPrevious (unixMinute timestamp minuteOffset), 0, w.clock ++ [timestamp],
      w.rounds, [], []⟩ := by
    refine ⟨List.pairwise_append.2 ⟨h.sorted.sublist (List.sublist_append_left _ _),
      List.pairwise_singleton _ _, fun m hm m' hm' => ?_⟩, List.forall_mem_append.2 ⟨fun m hm => ?_, ?_⟩,
      List.forall_mem_append.2 ⟨fun m hm => ?_, ?_⟩⟩
    · rw [List.mem_singleton.1 hm']
      exact hle m hm
    · exact h.pos m (hrounds m hm)
    · refine List.forall_mem_singleton.2 fun hzero => ?_
      rw [hzero, UInt64.toNat_zero] at hminute
      omega
    · obtain ⟨earlier, hearlier, hread⟩ := h.read m (hrounds m hm)
      exact ⟨earlier, List.mem_append_left _ hearlier, hread⟩
    · exact List.forall_mem_singleton.2 ⟨timestamp, by simp, by omega⟩
  exact hall.sublist hminutes hclock

theorem goOn_minutes {m : UInt64} (h : w.phase.minute = some m) : (w.goOn n m).minutes = w.minutes := by
  rw [World.minutes, World.minutes, goOn_phase, goOn_rounds, h]
  exact List.append_nil _

theorem inOrder_step (hl : Ledger n w) (h : Steady w.clock → InOrder w) (hstep : step n w a = some t)
    (hsteady : Steady t.clock) : InOrder t := by
  obtain ⟨timestamp, hclock, -, hminutes⟩ | ⟨m, hm, rfl⟩ | ⟨hclock, -, hminutes⟩ :=
    moves_books (moves_of_step hstep)
  · rw [hclock] at hsteady
    have hbefore : Steady w.clock := ⟨hsteady.1.sublist (List.sublist_append_left _ _),
      fun timestamp h => hsteady.2 timestamp (List.mem_append_left _ h)⟩
    exact (h hbefore).readClock hl hsteady hclock hminutes
  · rw [goOn_clock] at hsteady
    refine (h hsteady).sublist ?_ (goOn_clock n w m)
    rw [goOn_minutes hm]
  · rw [hclock] at hsteady
    exact (h hsteady).sublist hminutes hclock

theorem InOrder.init : InOrder World.init :=
  ⟨List.Pairwise.nil, List.forall_mem_nil _, List.forall_mem_nil _⟩

/-- **What a run publishes**: in every run of the loop, whatever it is answered, each record that it hands
to `publish_record` is the node's own, and verified, for its minute; the minutes are those of the
iterations that did not help, one record for as many iterations in a row as have the same minute; and they
increase if the clock does not go back. -/
theorem published_rounds (n : Node) (hsound : n.Sound) (as : List Label) (w : World)
    (h : run (step n) World.init as = some w) :
    (∀ r ∈ w.published, r.pubKey = n.recordPublisher.pubKey ∧
        r.Verified n.primitives n.recordPublisher.recordTopic r.unixMinute) ∧
      (n.Writes → 0 :: w.published.map Record.unixMinute = (0 :: w.rounds).destutter (· ≠ ·)) ∧
      (Steady w.clock → (w.published.map Record.unixMinute).Pairwise (· < ·)) := by
  have hinv : Ledger n w ∧ (Steady w.clock → InOrder w) := by
    refine inv_run (I := fun w => Ledger n w ∧ (Steady w.clock → InOrder w)) ?_
      ⟨Ledger.init n, fun _ => InOrder.init⟩ h
    rintro u a t ⟨hl, ho⟩ hstep
    exact ⟨ledger_step hl hstep, inOrder_step hl ho hstep⟩
  obtain ⟨hl, ho⟩ := hinv
  refine ⟨fun r hr => ?_, hl.once, fun hsteady => ?_⟩
  · have hbuilt := built_of_newRecord (hl.signed r hr)
    exact ⟨hbuilt.pubKey, hbuilt.verified hsound⟩
  · have hsorted := (ho hsteady).sorted.sublist (List.sublist_append_left w.rounds _)
    by_cases hwrites : n.Writes
    · have honce := hl.once hwrites
      have hle : (0 :: w.rounds).Pairwise (· ≤ ·) :=
        List.pairwise_cons.2 ⟨fun m _ => UInt64.zero_le, hsorted⟩
      rw [hle.destutter_eq_dedup] at honce
      have hnodup := List.nodup_dedup (0 :: w.rounds)
      have hdedup := hle.sublist (List.dedup_sublist (0 :: w.rounds))
      rw [← honce] at hnodup hdedup
      have hlt := (hdedup.and hnodup).imp fun hboth => UInt64.lt_of_le_of_ne hboth.1 hboth.2
      exact (List.pairwise_cons.1 hlt).2
    · have hnone : w.published = [] := by
        refine List.eq_nil_iff_forall_not_mem.2 fun r hr => hwrites ?_
        exact ⟨r.content, (built_of_newRecord (hl.signed r hr)).content⟩
      rw [hnone]
      exact List.Pairwise.nil

/-- A node that finds nobody publishes itself. -/
theorem published_rounds_alone :
    ∃ w, run (step (startingNode (.replicate 32 5))) World.init
        [.isJoined (some false), .now 600, .get (.ok []), .get (.ok [])] = some w ∧
      w.published.map Record.unixMinute = [9] ∧
      (w.published.map Record.unixMinute).Pairwise (· < ·) := by
  refine ⟨_, rfl, rfl, ?_⟩
  refine (published_rounds (startingNode (.replicate 32 5)) (startingNode_sound _)
    [.isJoined (some false), .now 600, .get (.ok []), .get (.ok [])] _ rfl).2.2 ⟨?_, ?_⟩
  · exact List.pairwise_singleton _ _
  · exact List.forall_mem_singleton.2 (by decide)

/-! ### Which ids are joined -/

/-- A record that was read from a value that the DHT returned. -/
def Fetches (n : Node) (as : List Label) (r : Record) : Prop :=
  ∃ dht, Label.get dht ∈ as ∧ ∃ value ∈ slotValues dht, ∃ minute,
    n.recordPublisher.openValue n.primitives minute value = .ok (some r)

/-- The node has published such a record, or is listed in one. -/
def Names (n : Node) (as : List Label) (id : Bytes32) : Prop :=
  n.primitives.verifyingKey id ∧ ∃ r, Fetches n as r ∧
    (id = r.pubKey ∨ id ≠ zeros ∧ id ∈ activePeers n.content r)

/-- What the loop has in hand was fetched. -/
def Phase.Fetched (n : Node) (as : List Label) : Phase → Prop
  | .fetch _ records | .found _ records => ∀ r ∈ records, Fetches n as r
  | .again _ nodes | .join _ nodes | .joined _ nodes => ∀ id ∈ nodes, Names n as id
  | _ => True

/-- And so was what it has joined. -/
structure Justified (n : Node) (as : List Label) (w : World) : Prop where
  /-- What it has in hand. -/
  phase : w.phase.Fetched n as
  /-- What it has joined. -/
  calls : ∀ call ∈ w.calls, ∃ id, Names n as id ∧ call = [id]

theorem fetches_of_getRecords {as : List Label} {m : UInt64} {dht : Except String (List Bytes)}
    {records : Finset Record} (ha : Label.get dht ∈ as)
    (h : n.recordPublisher.getRecords n.primitives m dht = .ok records) :
    ∀ r ∈ records, Fetches n as r := by
  intro r hr
  obtain ⟨value, hvalue, hopen⟩ := (getRecords_eq_ok h r).1 hr
  exact ⟨dht, ha, value, hvalue, m, hopen⟩

theorem justified_step {as : List Label} (h : Justified n as w) (ha : a ∈ as)
    (hstep : step n w a = some t) : Justified n as t := by
  obtain ⟨hphase, hcalls⟩ := h
  cases moves_of_step hstep with
  | complete => exact ⟨trivial, hcalls⟩
  | panic => exact ⟨trivial, hcalls⟩
  | overflow => exact ⟨trivial, hcalls⟩
  | begin => exact ⟨trivial, hcalls⟩
  | now => exact ⟨trivial, hcalls⟩
  | fetchPrevious m dht records h hget => exact ⟨fetches_of_getRecords ha hget, hcalls⟩
  | fetch m dht records more h hget =>
    rw [h] at hphase
    refine ⟨fun r hr => ?_, hcalls⟩
    exact (Finset.mem_union.1 hr).elim (hphase r) (fetches_of_getRecords ha hget r)
  | nothing m dht h =>
    refine ⟨?_, ?_⟩
    · rw [goOn_phase]
      trivial
    · rw [goOn_calls]
      exact hcalls
  | visit m records nodes h hnodes =>
    rw [h] at hphase
    refine ⟨fun id hid => ?_, hcalls⟩
    obtain ⟨hkey, r, hr, hnames⟩ := mem_bootstrapNodes.1 ((hnodes id).1 hid)
    exact ⟨hkey, r, hphase r hr, hnames⟩
  | again m nodes h =>
    rw [h] at hphase
    exact ⟨hphase, hcalls⟩
  | join m id nodes ok h =>
    rw [h] at hphase
    obtain ⟨hid, hnodes⟩ := List.forall_mem_cons.1 hphase
    refine ⟨?_, List.forall_mem_append.2 ⟨hcalls, List.forall_mem_singleton.2 ⟨id, hid, rfl⟩⟩⟩
    cases ok <;> exact hnodes
  | joined m nodes joined h =>
    rw [h] at hphase
    refine ⟨?_, hcalls⟩
    cases joined
    · exact hphase
    · exact List.forall_mem_nil _
  | tried => exact ⟨trivial, hcalls⟩
  | final m h =>
    refine ⟨?_, ?_⟩
    · rw [goOn_phase]
      trivial
    · rw [goOn_calls]
      exact hcalls

/-- After which labels the loop is over. -/
theorem stops_of_step (hstep : step n w a = some t) :
    (t.phase = .completed → a = .isJoined (some true)) ∧ (t.phase = .panicked → Panics n a) := by
  have hgoOn : ∀ m, ((w.goOn n m).phase = .completed → a = .isJoined (some true)) ∧
      ((w.goOn n m).phase = .panicked → Panics n a) := by
    intro m
    rw [goOn_phase]
    exact ⟨fun h => (by cases h), fun h => (by cases h)⟩
  cases moves_of_step hstep with
  | complete => exact ⟨fun _ => rfl, fun h => (by cases h)⟩
  | panic _ hpanics => exact ⟨fun h => (by cases h), fun _ => hpanics⟩
  | overflow timestamp hpanics => exact ⟨fun h => (by cases h), fun _ => hpanics⟩
  | nothing m => exact hgoOn m
  | final m => exact hgoOn m
  | join m id nodes ok => cases ok <;> exact ⟨fun h => (by cases h), fun h => (by cases h)⟩
  | _ => exact ⟨fun h => (by cases h), fun h => (by cases h)⟩

/-- **What a run joins, and how it ends**: in every run of the loop, whatever it is answered, each call of
`join_peers` is for one node, which has published a verified record that the DHT has returned, or is listed
in one; the loop sends its signal only when it has just been told that the node counts as joined; and it
panics only without its actor, on a value that cannot be read, or where the minute is zero. -/
theorem calls_fetched (n : Node) (as : List Label) (w : World) (h : run (step n) World.init as = some w) :
    (∀ call ∈ w.calls, ∃ id, Names n as id ∧ call = [id]) ∧
      (w.phase = .completed → as.getLast? = some (.isJoined (some true))) ∧
      (w.phase = .panicked → ∃ a, as.getLast? = some a ∧ Panics n a) := by
  have halong : Along (step n) (fun _ a => a ∈ as) World.init as := by
    rw [along_iff_forall]
    rintro pre a post t rfl -
    exact List.mem_append_right _ List.mem_cons_self
  have hinit : Justified n as World.init := ⟨trivial, List.forall_mem_nil _⟩
  have hjustified : Justified n as w :=
    inv_run_along (fun _ _ _ hi ha hstep => justified_step hi ha hstep) hinit halong h
  refine ⟨hjustified.calls, ?_⟩
  rcases List.eq_nil_or_concat as with rfl | ⟨pre, a, rfl⟩
  · cases h
    exact ⟨fun hphase => (by cases hphase), fun hphase => (by cases hphase)⟩
  · rw [List.concat_eq_append, run_append] at h
    obtain ⟨u, -, h⟩ := Option.bind_eq_some_iff.1 h
    obtain ⟨t, ht, h⟩ := run_cons_eq_some.1 h
    cases h
    rw [List.concat_eq_append, List.getLast?_concat]
    obtain ⟨hcompleted, hpanicked⟩ := stops_of_step ht
    exact ⟨fun hphase => congrArg some (hcompleted hphase), fun hphase => ⟨a, rfl, hpanicked hphase⟩⟩

/-- What another node of the slot has published. -/
def publishedValue : Bytes := (plainEncrypted noPeersBytes).toBytes

/-- A node finds another one, and joins it. -/
theorem calls_fetched_one :
    ∃ w, run (step (startingNode (.replicate 32 5))) World.init
        [.isJoined (some false), .now 480, .get (.ok []), .get (.ok [publishedValue]),
          .visit [.replicate 32 2], .isJoined (some false), .joinPeers true, .isJoined (some true),
          .isJoined (some true), .isJoined (some true)] = some w ∧
      w.phase = .completed ∧ ∀ call ∈ w.calls, ∃ id, Names (startingNode (.replicate 32 5))
        [.isJoined (some false), .now 480, .get (.ok []), .get (.ok [publishedValue]),
          .visit [.replicate 32 2], .isJoined (some false), .joinPeers true, .isJoined (some true),
          .isJoined (some true), .isJoined (some true)] id ∧ call = [id] := by
  have hrun : (run (step (startingNode (.replicate 32 5))) World.init
      [.isJoined (some false), .now 480, .get (.ok []), .get (.ok [publishedValue]),
        .visit [.replicate 32 2], .isJoined (some false), .joinPeers true, .isJoined (some true),
        .isJoined (some true), .isJoined (some true)]).map World.phase = some .completed := by
    decide +kernel
  obtain ⟨w, hw, hphase⟩ := Option.map_eq_some_iff.1 hrun
  exact ⟨w, hw, hphase, (calls_fetched (startingNode (.replicate 32 5)) _ w hw).1⟩

/-! ### Who is always joined -/

section
variable {records : Finset Record} {ids : Finset Bytes32} {since : ℕ}

/-- The ids have been joined, since there were so many calls. -/
def Tried (ids : Finset Bytes32) (since : ℕ) (w : World) : Prop := ∀ id ∈ ids, [id] ∈ w.calls.drop since

/-- The rest of them is going to be joined in this iteration, unless it panics. -/
def InHand (records : Finset Record) (ids : Finset Bytes32) (since : ℕ) (w : World) : Prop :=
  match w.phase with
  | .found _ found => found = records
  | .again _ nodes => ∀ id ∈ ids, id ∈ nodes
  | .join _ nodes | .joined _ nodes => ∀ id ∈ ids, [id] ∈ w.calls.drop since ∨ id ∈ nodes
  | .panicked => True
  | _ => False

/-- What a step does to the calls. -/
theorem moves_calls (h : Moves n w a t) : t.calls = w.calls ∨ ∃ id, t.calls = w.calls ++ [[id]] := by
  cases h with
  | nothing m => exact .inl (goOn_calls n w m)
  | final m => exact .inl (goOn_calls n w m)
  | join m id => exact .inr ⟨id, rfl⟩
  | _ => exact .inl rfl

theorem Tried.step (h : Tried ids since w) (hmoves : Moves n w a t) : Tried ids since t := by
  intro id hid
  obtain hcalls | ⟨last, hcalls⟩ := moves_calls hmoves
  · rw [hcalls]
    exact h id hid
  · rw [hcalls, List.drop_append]
    exact List.mem_append_left _ (h id hid)

/-- Unless the node counts as joined, the loop joins all that it has in hand. -/
theorem InHand.step (h : InHand records (bootstrapNodes n.primitives n.content records) since w)
    (hsince : since ≤ w.calls.length) (hmoves : Moves n w a t) (hnot : a ≠ .isJoined (some true)) :
    Tried (bootstrapNodes n.primitives n.content records) since t ∨
      InHand records (bootstrapNodes n.primitives n.content records) since t := by
  unfold InHand at h
  cases hmoves with
  | complete => exact absurd rfl hnot
  | panic => exact .inr trivial
  | overflow => exact .inr trivial
  | begin hphase =>
    rw [hphase] at h
    exact h.elim
  | now timestamp hphase =>
    rw [hphase] at h
    exact h.elim
  | fetchPrevious m dht found hphase =>
    rw [hphase] at h
    exact h.elim
  | fetch m dht found more hphase =>
    rw [hphase] at h
    exact h.elim
  | nothing m dht hphase =>
    rw [hphase] at h
    exact h.elim
  | visit m found nodes hphase hnodes =>
    rw [hphase] at h
    cases h
    exact .inr fun id hid => (hnodes id).2 hid
  | again m nodes hphase =>
    rw [hphase] at h
    exact .inr fun id hid => .inr (h id hid)
  | join m first nodes ok hphase =>
    rw [hphase] at h
    right
    have hrest : ∀ id ∈ bootstrapNodes n.primitives n.content records,
        [id] ∈ (w.calls ++ [[first]]).drop since ∨ id ∈ nodes := by
      intro id hid
      rw [List.drop_append_of_le_length hsince]
      rcases h id hid with hcall | hmem
      · exact .inl (List.mem_append_left _ hcall)
      · obtain rfl | hmem := List.mem_cons.1 hmem
        · exact .inl (List.mem_append_right _ (List.mem_singleton_self _))
        · exact .inr hmem
    cases ok <;> exact hrest
  | joined m nodes joined hphase =>
    rw [hphase] at h
    cases joined with
    | true => exact absurd rfl hnot
    | false => exact .inr h
  | tried m joined hphase =>
    rw [hphase] at h
    exact .inl fun id hid => (h id hid).resolve_right List.not_mem_nil
  | final m hphase =>
    rw [hphase] at h
    exact h.elim

/-- From where records are found, every run in which the node does not count as joined joins their nodes. -/
theorem tried_of_found {post : List Label} {m : UInt64} (hphase : w.phase = .found m records)
    (h : run (step n) w post = some t) (hnot : .isJoined (some true) ∉ post) (hhead : t.phase = .head) :
    Tried (bootstrapNodes n.primitives n.content records) w.calls.length t := by
  have halong : Along (step n) (fun _ a => a ≠ .isJoined (some true)) w post := by
    rw [along_iff_forall]
    rintro pre a later u rfl - rfl
    exact hnot (List.mem_append_right _ List.mem_cons_self)
  have hinv : w.calls.length ≤ t.calls.length ∧
      (Tried (bootstrapNodes n.primitives n.content records) w.calls.length t ∨
        InHand records (bootstrapNodes n.primitives n.content records) w.calls.length t) := by
    refine inv_run_along (I := fun t => w.calls.length ≤ t.calls.length ∧
      (Tried (bootstrapNodes n.primitives n.content records) w.calls.length t ∨
        InHand records (bootstrapNodes n.primitives n.content records) w.calls.length t)) ?_ ⟨le_rfl, .inr ?_⟩
      halong h
    · rintro u a t ⟨hsince, hu⟩ hne hstep
      have hmoves := moves_of_step hstep
      refine ⟨?_, hu.elim (fun hu => .inl (hu.step hmoves)) fun hu => hu.step hsince hmoves hne⟩
      obtain hcalls | ⟨id, hcalls⟩ := moves_calls hmoves
      · rw [hcalls]
        exact hsince
      · rw [hcalls, List.length_append]
        omega
    · unfold InHand
      rw [hphase]
  rcases hinv.2 with htried | hhand
  · exact htried
  · unfold InHand at hhand
    rw [hhead] at hhand
    exact hhand.elim

/-- Nothing comes after a panic. -/
theorem run_panicked {as : List Label} (hphase : w.phase = .panicked) (h : run (step n) w as = some t) :
    t.phase = .panicked := by
  cases as with
  | nil =>
    cases h
    exact hphase
  | cons a as =>
    obtain ⟨u, hu, -⟩ := run_cons_eq_some.1 h
    cases a with
    | isJoined joined => cases joined <;> simp [step, World.onJoined, hphase] at hu
    | now timestamp => simp [step, hphase] at hu
    | get dht => simp [step, World.onGet, hphase] at hu
    | visit nodes => simp [step, hphase] at hu
    | joinPeers ok => simp [step, hphase] at hu

/-- A fetch after which the loop goes on has come to records. -/
theorem onGet_run {m : UInt64} {dht dht' : Except String (List Bytes)} {post : List Label}
    (hphase : w.phase = .fetchPrevious m) (hhead : t.phase = .head)
    (h : run (step n) w (.get dht :: .get dht' :: post) = some t) :
    ∃ rs rs', n.recordPublisher.getRecords n.primitives (m - 1) dht = .ok rs ∧
      n.recordPublisher.getRecords n.primitives m dht' = .ok rs' ∧
        ((rs ∪ rs').Nonempty →
          run (step n) { w with phase := .found m (rs ∪ rs') } post = some t) := by
  have halive : ∀ {v : World} {as : List Label}, v.phase = .panicked → run (step n) v as ≠ some t := by
    intro v as hv hrun
    rw [run_panicked hv hrun] at hhead
    cases hhead
  obtain ⟨v, hv, h⟩ := run_cons_eq_some.1 h
  simp only [step, World.onGet, hphase] at hv
  cases hrs : n.recordPublisher.getRecords n.primitives (m - 1) dht with
  | error panic =>
    rw [hrs] at hv
    cases hv
    exact absurd h (halive rfl)
  | ok rs =>
    rw [hrs] at hv
    cases hv
    obtain ⟨v', hv', h⟩ := run_cons_eq_some.1 h
    simp only [step, World.onGet] at hv'
    cases hrs' : n.recordPublisher.getRecords n.primitives m dht' with
    | error panic =>
      rw [hrs'] at hv'
      cases hv'
      exact absurd h (halive rfl)
    | ok rs' =>
      rw [hrs'] at hv'
      refine ⟨rs, rs', rfl, rfl, fun hsome => ?_⟩
      simp only [if_neg hsome.ne_empty] at hv'
      cases hv'
      exact h

end

/-- **Who is published is joined**: let the DHT return the record of another node with the same topic,
secret and rotation for either of the two minutes of an iteration, beside anything else. If the loop gets to
its head again, and the node did not count as joined in between, then that node and every node that its
record lists were joined. -/
theorem published_joined (n : Node) (hsound : n.Sound) (hreads : n.Reads) (u w : World) (m : UInt64)
    (dht dht' : Except String (List Bytes)) (post : List Label) (hphase : u.phase = .fetchPrevious m)
    (h : run (step n) u (.get dht :: .get dht' :: post) = some w) (hhead : w.phase = .head)
    (hnot : .isJoined (some true) ∉ post) (q : SigningPublisher) (minute : UInt64) (c : GossipRecordContent)
    (r : Record) (e : EncryptedRecord)
    (hq : Crypto.Published n.primitives n.keyring n.toAllocvec q minute c r e)
    (hslots : SameSlots n.primitives n.recordPublisher.toRecordPublisher q.toRecordPublisher)
    (hother : n.recordPublisher.pubKey ≠ q.pubKey) (hshort : e.encryptedRecord.length < 2 ^ 32)
    (hvalue : minute = m - 1 ∧ e.toBytes ∈ slotValues dht ∨ minute = m ∧ e.toBytes ∈ slotValues dht') :
    ∀ id, id = q.pubKey ∨ id ∈ c.activePeers.toList ∧ id ≠ zeros ∧ n.primitives.verifyingKey id →
      [id] ∈ w.calls.drop u.calls.length := by
  intro id hid
  obtain ⟨rs, rs', hrs, hrs', hrun⟩ := onGet_run hphase hhead h
  have hopen := hq.openValue hsound.matching hslots hother hshort
  obtain ⟨hverified, hpubKey⟩ := hq.verified hsound.matching
  have hmem : r ∈ rs ∪ rs' := by
    rw [Finset.mem_union]
    obtain ⟨rfl, hvalue⟩ | ⟨rfl, hvalue⟩ := hvalue
    · exact .inl ((getRecords_eq_ok hrs r).2 ⟨_, hvalue, hopen⟩)
    · exact .inr ((getRecords_eq_ok hrs' r).2 ⟨_, hvalue, hopen⟩)
  have htried := tried_of_found rfl (hrun ⟨r, hmem⟩) hnot hhead
  refine htried id (mem_bootstrapNodes.2 ?_)
  obtain rfl | ⟨hpeer, hne, hkey⟩ := hid
  · rw [← hpubKey]
    exact ⟨hverified.pubKey, r, hmem, .inl rfl⟩
  · refine ⟨hkey, r, hmem, .inr ⟨hne, ?_⟩⟩
    have hbuilt := built_of_newRecord (n := { n with recordPublisher := q }) hq.built
    rw [activePeers, hreads c r.content hbuilt.content]
    exact hpeer

theorem published_startingNode : Crypto.Published plainPrimitives plainKeyring
    (startingNode (.replicate 32 5)).toAllocvec (startingNode (.replicate 32 2)).recordPublisher 7 noPeers
    (plainRecord noPeersBytes) (plainEncrypted noPeersBytes) := by
  refine ⟨rfl, ?_, ⟨.replicate 32 4, [], []⟩, rfl⟩
  rw [SigningPublisher.newRecord, Record.sign]
  simp only [startingNode, if_true]
  rfl

/-- A node joins the other one, whose record is in the slot. -/
theorem published_joined_one :
    ∃ u w, run (step (startingNode (.replicate 32 5))) u
        [.get (.ok []), .get (.ok [publishedValue]), .visit [.replicate 32 2], .isJoined (some false),
          .joinPeers false, .isJoined (some false), .isJoined (some false)] = some w ∧
      [.replicate 32 2] ∈ w.calls.drop u.calls.length := by
  have hrun : (run (step (startingNode (.replicate 32 5))) ⟨.fetchPrevious 7, 0, [], [], [], []⟩
      [.get (.ok []), .get (.ok [publishedValue]), .visit [.replicate 32 2], .isJoined (some false),
        .joinPeers false, .isJoined (some false), .isJoined (some false)]).map World.phase =
      some .head := by
    decide +kernel
  obtain ⟨w, hw, hphase⟩ := Option.map_eq_some_iff.1 hrun
  refine ⟨_, w, hw, ?_⟩
  exact published_joined (startingNode (.replicate 32 5)) (startingNode_sound _) (startingNode_reads _) _ w
    7 (.ok []) (.ok [publishedValue]) _ rfl hw hphase (by simp) _ 7 noPeers (plainRecord noPeersBytes)
    (plainEncrypted noPeersBytes) published_startingNode ⟨rfl, rfl, rfl⟩ (by decide) (by decide +kernel)
    (.inr ⟨rfl, List.mem_singleton_self _⟩) _ (.inl rfl)

end PodpingAlpha.Dtt.Bootstrap
