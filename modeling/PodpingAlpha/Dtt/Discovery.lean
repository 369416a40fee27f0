import PodpingAlpha.Dtt.Publish
import Mathlib.Data.Finset.Card
import Mathlib.Data.Finset.Union

/-!
# Joining the peers of the records

What the bootstrap loop, `BubbleMergeActor` and `MessageOverlapMergeActor` of `dtt-fork/src/gossip` make
of the records of two minutes: each takes node ids from them and hands these to `join_peers`. They filter
differently.

## The model

A call of `join_peers` is the list of ids that it is given. The order in which a set of ids comes, and
when the topic counts as joined, are open. The reading of the content (postcard) is a parameter.

## What is proved

* `mem_bootstrapNodes`, `mem_bubbleNodes`, `mem_overlapNodes` — which ids are taken.
* `joins_clean_iff` — when the node's own id, the zero id, or a neighbor is among those that are handed to
  `join_peers`.
* `joins_itself` — a record that lists the node.
-/

namespace PodpingAlpha.Dtt.Discovery

open Crypto Outcome

/-! ### The data -/

/-- A `GossipRecordContent`. -/
structure GossipRecordContent where
  /-- Peers of the publisher; zero where there are fewer than five. -/
  activePeers : List.Vector Bytes32 5
  /-- The hashes of the last messages; zero where there are fewer than five. -/
  lastMessageHashes : List.Vector Bytes32 5

/-- `[0; 32]`. -/
def zeros : Bytes32 := .replicate 32 0

/-- An order in which the ids of a set come. -/
structure Visits where
  /-- The ids in order. -/
  order : Finset Bytes32 → List Bytes32
  /-- The ids come up, and nothing else. -/
  mem : ∀ ids id, id ∈ order ids ↔ id ∈ ids

instance : Nonempty Visits := ⟨⟨Finset.toList, fun _ _ => Finset.mem_toList⟩⟩

variable (P : Primitives) (content : Bytes → Option GossipRecordContent)

/-- `EndpointId::from_bytes(id).ok()`. -/
def endpointId? (id : Bytes32) : Option Bytes32 := if P.verifyingKey id then some id else none

/-- The peers that a record lists, if its content can be read. -/
def activePeers (record : Record) : List Bytes32 :=
  (content record.content).elim [] fun c => c.activePeers.toList

/-! ### The bootstrap loop -/

/-- `bootstrap_nodes`. -/
def bootstrapNodes (records : Finset Record) : Finset Bytes32 :=
  records.biUnion fun record =>
    ((record.pubKey :: (activePeers content record).filter (· ≠ zeros)).filterMap
      (endpointId? P)).toFinset

/-- The ids are joined one by one, until one of them counts. -/
def joinOneByOne (joinedBy : Bytes32 → Bool) : List Bytes32 → List (List Bytes32)
  | [] => []
  | id :: ids => [id] :: if joinedBy id then [] else joinOneByOne joinedBy ids

/-- A round of `start_bootstrap` that has found records. -/
def bootstrapCalls (visits : Visits) (joined : Bool) (joinedBy : Bytes32 → Bool)
    (records : Finset Record) : List (List Bytes32) :=
  if joined then [] else joinOneByOne joinedBy (visits.order (bootstrapNodes P content records))

/-! ### `BubbleMergeActor` -/

/-- `node_ids`. -/
def bubbleNodes (own : Bytes32) (neighbors : Finset Bytes32) (records : Finset Record) :
    Finset Bytes32 :=
  records.biUnion fun record =>
    let endpointIds := (activePeers content record).filterMap fun activePeer =>
      if activePeer = zeros ∨ activePeer ∈ neighbors ∨ activePeer = record.pubKey ∨ activePeer = own
        then none
      else endpointId? P activePeer
    let publisher := (endpointId? P record.pubKey).filter (· ≠ own)
    (endpointIds ++ publisher.toList).toFinset

/-- `BubbleMergeActor::merge`. -/
def bubbleCalls (visits : Visits) (own : Bytes32) (neighbors : Finset Bytes32)
    (records : Finset Record) : List (List Bytes32) :=
  if neighbors.card < 4 ∧ records.Nonempty then
    let nodeIds := bubbleNodes P content own neighbors records
    if nodeIds.Nonempty then [visits.order nodeIds] else []
  else []

/-! ### `MessageOverlapMergeActor` -/

/-- The record has the hash of a message that was received here too. -/
def overlaps (hashes : List Bytes32) (record : Record) : Bool :=
  (content record.content).elim false fun c =>
    c.lastMessageHashes.toList.any fun hash => hash ≠ zeros && hash ∈ hashes

/-- `node_ids`. -/
def overlapNodes (peersToJoin : Finset Record) : Finset Bytes32 :=
  peersToJoin.biUnion fun record =>
    ((endpointId? P record.pubKey).toList ++
      ((activePeers content record).filter (· ≠ zeros)).filterMap (endpointId? P)).toFinset

/-- `MessageOverlapMergeActor::merge`. -/
def overlapCalls (visits : Visits) (hashes : List Bytes32) (records : Finset Record) :
    List (List Bytes32) :=
  if hashes ≠ [] then
    let peersToJoin := records.filter fun record => overlaps content hashes record
    if peersToJoin.Nonempty then [visits.order (overlapNodes P content peersToJoin)] else []
  else []

/-! ### Which ids are taken -/

variable {P content} {visits : Visits} {records : Finset Record} {node own : Bytes32}
  {neighbors : Finset Bytes32} {hashes : List Bytes32} {r : Record}

theorem endpointId?_eq_some {a : Bytes32} :
    endpointId? P a = some node ↔ a = node ∧ P.verifyingKey node := by
  unfold endpointId?
  split_ifs with h
  · rw [Option.some.injEq]
    exact (and_iff_left_of_imp fun heq => heq ▸ h).symm
  · exact iff_of_false (by simp) fun hboth => h (hboth.1 ▸ hboth.2)

theorem mem_bootstrapNodes : node ∈ bootstrapNodes P content records ↔ P.verifyingKey node ∧
    ∃ r ∈ records, node = r.pubKey ∨ node ≠ zeros ∧ node ∈ activePeers content r := by
  simp only [bootstrapNodes, Finset.mem_biUnion, List.mem_toFinset, List.mem_filterMap,
    List.mem_cons, List.mem_filter, endpointId?_eq_some, decide_eq_true_eq]
  constructor
  · rintro ⟨r, hr, a, ha, rfl, hkey⟩
    exact ⟨hkey, r, hr, ha.imp (fun h => h) And.symm⟩
  · rintro ⟨hkey, r, hr, hnode⟩
    exact ⟨r, hr, node, hnode.imp (fun h => h) And.symm, rfl, hkey⟩

theorem mem_overlapNodes : node ∈ overlapNodes P content records ↔ P.verifyingKey node ∧
    ∃ r ∈ records, node = r.pubKey ∨ node ≠ zeros ∧ node ∈ activePeers content r := by
  simp only [overlapNodes, Finset.mem_biUnion, List.mem_toFinset, List.mem_filterMap,
    List.mem_append, Option.mem_toList, List.mem_filter, endpointId?_eq_some, decide_eq_true_eq]
  constructor
  · rintro ⟨r, hr, ⟨rfl, hkey⟩ | ⟨a, ⟨hmem, hne⟩, rfl, hkey⟩⟩
    · exact ⟨hkey, r, hr, .inl rfl⟩
    · exact ⟨hkey, r, hr, .inr ⟨hne, hmem⟩⟩
  · rintro ⟨hkey, r, hr, rfl | ⟨hne, hmem⟩⟩
    · exact ⟨r, hr, .inl ⟨rfl, hkey⟩⟩
    · exact ⟨r, hr, .inr ⟨node, ⟨hmem, hne⟩, rfl, hkey⟩⟩

theorem mem_bubbleNodes : node ∈ bubbleNodes P content own neighbors records ↔
    P.verifyingKey node ∧ node ≠ own ∧ ∃ r ∈ records, node = r.pubKey ∨
      node ≠ zeros ∧ node ∉ neighbors ∧ node ∈ activePeers content r := by
  simp only [bubbleNodes, Finset.mem_biUnion, List.mem_toFinset, List.mem_filterMap,
    List.mem_append, Option.mem_toList, Option.filter_eq_some_iff, endpointId?_eq_some,
    decide_eq_true_eq, Option.ite_none_left_eq_some, not_or]
  constructor
  · rintro ⟨r, hr, ⟨a, hmem, ⟨hne, hfar, -, hown⟩, rfl, hkey⟩ | ⟨⟨rfl, hkey⟩, hown⟩⟩
    · exact ⟨hkey, hown, r, hr, .inr ⟨hne, hfar, hmem⟩⟩
    · exact ⟨hkey, hown, r, hr, .inl rfl⟩
  · rintro ⟨hkey, hown, r, hr, rfl | ⟨hne, hfar, hmem⟩⟩
    · exact ⟨r, hr, .inr ⟨⟨rfl, hkey⟩, hown⟩⟩
    · by_cases hpub : node = r.pubKey
      · exact ⟨r, hr, .inr ⟨⟨hpub.symm, hkey⟩, hown⟩⟩
      · exact ⟨r, hr, .inl ⟨node, hmem, ⟨hne, hfar, hpub, hown⟩, rfl, hkey⟩⟩

/-! ### Which ids are joined -/

/-- An id is handed to `join_peers`. -/
def Joins (calls : List (List Bytes32)) (node : Bytes32) : Prop := ∃ call ∈ calls, node ∈ call

theorem joins_joinOneByOne {joinedBy : Bytes32 → Bool} {ids : List Bytes32}
    (h : Joins (joinOneByOne joinedBy ids) node) : node ∈ ids := by
  induction ids with
  | nil =>
    obtain ⟨call, hcall, -⟩ := h
    exact absurd hcall List.not_mem_nil
  | cons a ids ih =>
    obtain ⟨call, hcall, hnode⟩ := h
    rw [joinOneByOne] at hcall
    rcases List.mem_cons.1 hcall with rfl | hcall
    · rw [List.mem_singleton.1 hnode]
      exact List.mem_cons_self
    · split_ifs at hcall
      · exact absurd hcall List.not_mem_nil
      · exact List.mem_cons_of_mem a (ih ⟨call, hcall, hnode⟩)

/-- If none of them counts, all are joined. -/
theorem joins_all {ids : List Bytes32} (h : node ∈ ids) :
    Joins (joinOneByOne (fun _ => false) ids) node := by
  induction ids with
  | nil => exact absurd h List.not_mem_nil
  | cons a ids ih =>
    rw [joinOneByOne]
    rcases List.mem_cons.1 h with rfl | h
    · exact ⟨[node], List.mem_cons_self, List.mem_singleton_self node⟩
    · obtain ⟨call, hcall, hnode⟩ := ih h
      exact ⟨call, List.mem_cons_of_mem _ hcall, hnode⟩

/-- Of the ids of the bootstrap loop each may be joined, and no other. -/
theorem joins_bootstrapCalls :
    (∃ visits joined joinedBy, Joins (bootstrapCalls P content visits joined joinedBy records) node) ↔
      node ∈ bootstrapNodes P content records := by
  constructor
  · rintro ⟨visits, joined, joinedBy, h⟩
    unfold bootstrapCalls at h
    split_ifs at h
    · obtain ⟨call, hcall, -⟩ := h
      exact absurd hcall List.not_mem_nil
    · exact (visits.mem _ _).1 (joins_joinOneByOne h)
  · intro h
    obtain ⟨visits⟩ := (inferInstance : Nonempty Visits)
    exact ⟨visits, false, fun _ => false, joins_all ((visits.mem _ _).2 h)⟩

/-- A set that is joined at once, if there is something in it. -/
theorem joins_once {ids : Finset Bytes32} {p : Prop} [Decidable p] (hp : node ∈ ids → p) :
    Joins (if p then [visits.order ids] else []) node ↔ node ∈ ids := by
  rw [Joins]
  split_ifs with h
  · simp only [List.mem_singleton, exists_eq_left, visits.mem]
  · exact iff_of_false (by simp) fun hmem => h (hp hmem)

theorem joins_bubbleCalls : Joins (bubbleCalls P content visits own neighbors records) node ↔
    neighbors.card < 4 ∧ node ∈ bubbleNodes P content own neighbors records := by
  unfold bubbleCalls
  by_cases hfew : neighbors.card < 4
  · refine Iff.trans ?_ (and_iff_right hfew).symm
    by_cases hrecords : records.Nonempty
    · rw [if_pos ⟨hfew, hrecords⟩]
      exact joins_once fun h => ⟨node, h⟩
    · rw [if_neg fun hboth => hrecords hboth.2]
      refine iff_of_false (by simp [Joins]) fun h => hrecords ?_
      obtain ⟨-, -, r, hr, -⟩ := mem_bubbleNodes.1 h
      exact ⟨r, hr⟩
  · rw [if_neg fun hboth => hfew hboth.1]
    exact iff_of_false (by simp [Joins]) fun h => hfew h.1

theorem joins_overlapCalls : Joins (overlapCalls P content visits hashes records) node ↔
    node ∈ overlapNodes P content (records.filter fun r => overlaps content hashes r) := by
  unfold overlapCalls
  by_cases hhashes : hashes = []
  · rw [if_neg (not_not.2 hhashes)]
    refine iff_of_false (by simp [Joins]) fun h => ?_
    obtain ⟨-, r, hr, -⟩ := mem_overlapNodes.1 h
    have hoverlaps : overlaps content hashes r = false := by
      unfold overlaps
      cases content r.content <;> simp [hhashes]
    simp [hoverlaps] at hr
  · rw [if_pos hhashes]
    refine joins_once fun h => ?_
    obtain ⟨-, r, hr, -⟩ := mem_overlapNodes.1 h
    exact ⟨r, hr⟩

/-! ### What is never joined -/

/-- The records are those that `get_records` has returned for two minutes. -/
def Fetched (P : Primitives) (p : RecordPublisher) (records : Finset Record) : Prop :=
  ∃ minute dht dht' rs rs', p.getRecords P (minute - 1) dht = .ok rs ∧
    p.getRecords P minute dht' = .ok rs' ∧ records = rs ∪ rs'

/-- The record lists the node. -/
def Lists (P : Primitives) (content : Bytes → Option GossipRecordContent) (r : Record)
    (node : Bytes32) : Prop :=
  P.verifyingKey node ∧ node ≠ zeros ∧ node ∈ activePeers content r

/-- Neither the node itself nor the zero id is joined. -/
def Clean (own : Bytes32) (calls : List (List Bytes32)) : Prop := ¬Joins calls own ∧ ¬Joins calls zeros

/-- A record that was fetched is another node's, whose key is valid and strong. -/
theorem publisher_of_fetched (hweak : ∀ m sig, P.verifyStrict zeros m sig = false)
    {p : RecordPublisher} (h : Fetched P p records) (hr : r ∈ records) :
    P.verifyingKey r.pubKey ∧ r.pubKey ≠ p.pubKey ∧ r.pubKey ≠ zeros := by
  have hopen : ∃ minute value, p.openValue P minute value = .ok (some r) := by
    obtain ⟨minute, dht, dht', rs, rs', hrs, hrs', rfl⟩ := h
    rcases Finset.mem_union.1 hr with hr | hr
    · obtain ⟨value, -, hopen⟩ := (getRecords_eq_ok hrs r).1 hr
      exact ⟨_, value, hopen⟩
    · obtain ⟨value, -, hopen⟩ := (getRecords_eq_ok hrs' r).1 hr
      exact ⟨_, value, hopen⟩
  obtain ⟨minute, value, hopen⟩ := hopen
  obtain ⟨e, -, -, hverified, hown⟩ := openValue_eq_some.1 hopen
  refine ⟨hverified.pubKey, hown, fun hzero => ?_⟩
  have hsignature := hverified.signature
  rw [hzero, hweak] at hsignature
  cases hsignature

theorem own_mem_bootstrapNodes (hother : ∀ r ∈ records, r.pubKey ≠ own) :
    own ∈ bootstrapNodes P content records ↔ ∃ r ∈ records, Lists P content r own := by
  rw [mem_bootstrapNodes]
  constructor
  · rintro ⟨hkey, r, hr, hpub | ⟨hne, hmem⟩⟩
    · exact absurd hpub.symm (hother r hr)
    · exact ⟨r, hr, hkey, hne, hmem⟩
  · rintro ⟨r, hr, hkey, hne, hmem⟩
    exact ⟨hkey, r, hr, .inr ⟨hne, hmem⟩⟩

theorem zeros_notMem_bootstrapNodes (hstrong : ∀ r ∈ records, r.pubKey ≠ zeros) :
    zeros ∉ bootstrapNodes P content records := by
  intro h
  obtain ⟨-, r, hr, hpub | ⟨hne, -⟩⟩ := mem_bootstrapNodes.1 h
  · exact hstrong r hr hpub.symm
  · exact hne rfl

/-- The overlap merge takes ids as the bootstrap loop does, of fewer records. -/
theorem overlapNodes_eq : overlapNodes P content records = bootstrapNodes P content records :=
  Finset.ext fun _ => mem_overlapNodes.trans mem_bootstrapNodes.symm

theorem clean_bootstrap_iff (hother : ∀ r ∈ records, r.pubKey ≠ own)
    (hstrong : ∀ r ∈ records, r.pubKey ≠ zeros) :
    (∀ visits joined joinedBy, Clean own (bootstrapCalls P content visits joined joinedBy records)) ↔
      ∀ r ∈ records, ¬Lists P content r own := by
  constructor
  · intro hclean r hr hlists
    obtain ⟨visits, joined, joinedBy, hjoins⟩ :=
      joins_bootstrapCalls.2 ((own_mem_bootstrapNodes hother).2 ⟨r, hr, hlists⟩)
    exact (hclean visits joined joinedBy).1 hjoins
  · intro hnone visits joined joinedBy
    constructor
    · intro hjoins
      obtain ⟨r, hr, hlists⟩ := (own_mem_bootstrapNodes hother).1
        (joins_bootstrapCalls.1 ⟨visits, joined, joinedBy, hjoins⟩)
      exact hnone r hr hlists
    · intro hjoins
      apply zeros_notMem_bootstrapNodes hstrong
      exact joins_bootstrapCalls.1 ⟨visits, joined, joinedBy, hjoins⟩

theorem clean_bubble_iff (hvalid : ∀ r ∈ records, P.verifyingKey r.pubKey)
    (hother : ∀ r ∈ records, r.pubKey ≠ own) (hstrong : ∀ r ∈ records, r.pubKey ≠ zeros) :
    (∀ visits, Clean own (bubbleCalls P content visits own neighbors records) ∧
        ∀ node ∈ neighbors, ¬Joins (bubbleCalls P content visits own neighbors records) node) ↔
      (neighbors.card < 4 → ∀ r ∈ records, r.pubKey ∉ neighbors) := by
  constructor
  · intro hclean hfew r hr hmem
    obtain ⟨visits⟩ := (inferInstance : Nonempty Visits)
    apply (hclean visits).2 r.pubKey hmem
    exact joins_bubbleCalls.2
      ⟨hfew, mem_bubbleNodes.2 ⟨hvalid r hr, hother r hr, r, hr, .inl rfl⟩⟩
  · intro hfar visits
    refine ⟨⟨fun hjoins => ?_, fun hjoins => ?_⟩, fun node hmem hjoins => ?_⟩
    · obtain ⟨-, hnode⟩ := joins_bubbleCalls.1 hjoins
      exact (mem_bubbleNodes.1 hnode).2.1 rfl
    · obtain ⟨-, hnode⟩ := joins_bubbleCalls.1 hjoins
      obtain ⟨-, -, r, hr, hpub | ⟨hne, -⟩⟩ := mem_bubbleNodes.1 hnode
      · exact hstrong r hr hpub.symm
      · exact hne rfl
    · obtain ⟨hfew, hnode⟩ := joins_bubbleCalls.1 hjoins
      obtain ⟨-, -, r, hr, rfl | ⟨-, hnot, -⟩⟩ := mem_bubbleNodes.1 hnode
      · exact hfar hfew r hr hmem
      · exact hnot hmem

theorem clean_overlap_iff (hother : ∀ r ∈ records, r.pubKey ≠ own)
    (hstrong : ∀ r ∈ records, r.pubKey ≠ zeros) :
    (∀ visits, Clean own (overlapCalls P content visits hashes records)) ↔
      ∀ r ∈ records, overlaps content hashes r → ¬Lists P content r own := by
  have hother' : ∀ r ∈ records.filter fun r => overlaps content hashes r, r.pubKey ≠ own :=
    fun r hr => hother r (Finset.mem_filter.1 hr).1
  have hstrong' : ∀ r ∈ records.filter fun r => overlaps content hashes r, r.pubKey ≠ zeros :=
    fun r hr => hstrong r (Finset.mem_filter.1 hr).1
  constructor
  · intro hclean r hr hoverlaps hlists
    obtain ⟨visits⟩ := (inferInstance : Nonempty Visits)
    apply (hclean visits).1
    rw [joins_overlapCalls, overlapNodes_eq, own_mem_bootstrapNodes hother']
    exact ⟨r, Finset.mem_filter.2 ⟨hr, hoverlaps⟩, hlists⟩
  · intro hnone visits
    rw [Clean, joins_overlapCalls, joins_overlapCalls, overlapNodes_eq, own_mem_bootstrapNodes hother']
    refine ⟨?_, zeros_notMem_bootstrapNodes hstrong'⟩
    rintro ⟨r, hr, hlists⟩
    obtain ⟨hr, hoverlaps⟩ := Finset.mem_filter.1 hr
    exact hnone r hr hoverlaps hlists

/-- **Joins are clean**: whatever was fetched, and in whatever order ids come, the bootstrap loop hands
neither the node's own id nor the zero id to `join_peers` exactly when no record lists the node; the
bubble merge hands neither of them nor a neighbor exactly when it has four neighbors or none of them
has published a record; and the overlap merge hands neither of the two exactly when no record with a
message that was received here lists the node. -/
theorem joins_clean_iff (P : Primitives) (hweak : ∀ m sig, P.verifyStrict zeros m sig = false)
    (content : Bytes → Option GossipRecordContent) (p : RecordPublisher) (records : Finset Record)
    (h : Fetched P p records) (neighbors : Finset Bytes32) (hashes : List Bytes32) :
    ((∀ visits joined joinedBy,
        Clean p.pubKey (bootstrapCalls P content visits joined joinedBy records)) ↔
      ∀ r ∈ records, ¬Lists P content r p.pubKey) ∧
    ((∀ visits, Clean p.pubKey (bubbleCalls P content visits p.pubKey neighbors records) ∧
        ∀ node ∈ neighbors, ¬Joins (bubbleCalls P content visits p.pubKey neighbors records) node) ↔
      (neighbors.card < 4 → ∀ r ∈ records, r.pubKey ∉ neighbors)) ∧
    ((∀ visits, Clean p.pubKey (overlapCalls P content visits hashes records)) ↔
      ∀ r ∈ records, overlaps content hashes r → ¬Lists P content r p.pubKey) := by
  have hpublisher : ∀ r ∈ records,
      P.verifyingKey r.pubKey ∧ r.pubKey ≠ p.pubKey ∧ r.pubKey ≠ zeros :=
    fun r hr => publisher_of_fetched hweak h hr
  have hother : ∀ r ∈ records, r.pubKey ≠ p.pubKey := fun r hr => (hpublisher r hr).2.1
  have hstrong : ∀ r ∈ records, r.pubKey ≠ zeros := fun r hr => (hpublisher r hr).2.2
  exact ⟨clean_bootstrap_iff hother hstrong,
    clean_bubble_iff (fun r hr => (hpublisher r hr).1) hother hstrong, clean_overlap_iff hother hstrong⟩

/-! ### A record that lists the node -/

/-- The primitives of a plain slot, with a check that rejects the zero key. -/
def strictPrimitives : Primitives :=
  { plainPrimitives with verifyStrict := fun key _ _ => key ≠ zeros }

/-- A content that lists the node in each of the five places, and no message. -/
def listingBytes : Bytes := List.replicate 160 5 ++ List.replicate 160 0

/-- What is read of it. -/
def readContent (b : Bytes) : Option GossipRecordContent :=
  if b = listingBytes then some ⟨.replicate 5 (.replicate 32 5), .replicate 5 zeros⟩ else none

/-- The node. -/
def plainNode : RecordPublisher := ⟨.replicate 32 1, .replicate 32 5, none, .replicate 32 3⟩

/-- A record of another node, with this content. -/
def listing : Record := plainRecord listingBytes

theorem fetched_listing : Fetched strictPrimitives plainNode {listing} := by
  have hlen : (plainEncrypted listingBytes).encryptedRecord.length < 2 ^ 32 := by
    have hcontent : (plainRecord listingBytes).content = listingBytes := rfl
    rw [plainEncrypted, record_length_toBytes, hcontent, listingBytes, List.length_append,
      List.length_replicate, List.length_replicate]
    omega
  have hopen : plainNode.openValue strictPrimitives 7 (plainEncrypted listingBytes).toBytes =
      .ok (some listing) :=
    openValue_eq_some.2 ⟨plainEncrypted listingBytes, encryptedRecord_fromBytes_yields.2 ⟨rfl, hlen⟩,
      rfl, ⟨rfl, rfl, rfl, by decide⟩, by decide⟩
  refine ⟨7, .ok [], .ok [(plainEncrypted listingBytes).toBytes], ∅, {listing}, rfl, ?_, rfl⟩
  rw [RecordPublisher.getRecords]
  show (List.mapM (plainNode.openValue strictPrimitives 7) [_] >>= _) = _
  rw [List.mapM_cons, hopen]
  rfl

theorem lists_listing : Lists strictPrimitives readContent listing plainNode.pubKey := by
  refine ⟨rfl, by decide, ?_⟩
  have hread : readContent listing.content = some ⟨.replicate 5 (.replicate 32 5), .replicate 5 zeros⟩ :=
    if_pos rfl
  rw [activePeers, hread]
  exact List.mem_cons_self

/-- The bubble merge of a node without neighbors then joins the publisher only. -/
theorem joins_clean_iff_listing : Fetched strictPrimitives plainNode {listing} ∧
    ∀ visits, Clean plainNode.pubKey
        (bubbleCalls strictPrimitives readContent visits plainNode.pubKey ∅ {listing}) ∧
      ∀ node ∈ (∅ : Finset Bytes32), ¬Joins
        (bubbleCalls strictPrimitives readContent visits plainNode.pubKey ∅ {listing}) node := by
  refine ⟨fetched_listing, ?_⟩
  exact (joins_clean_iff strictPrimitives (fun _ _ => rfl) readContent plainNode {listing}
    fetched_listing ∅ []).2.1.2 fun _ _ _ => Finset.notMem_empty _

/-- The node is told to join itself when it starts. -/
theorem joins_itself : Fetched strictPrimitives plainNode {listing} ∧
    ∃ visits, ¬Clean plainNode.pubKey
      (bootstrapCalls strictPrimitives readContent visits false (fun _ => false) {listing}) := by
  obtain ⟨visits⟩ := (inferInstance : Nonempty Visits)
  refine ⟨fetched_listing, visits, fun hclean => hclean.1 (joins_all ((visits.mem _ _).2 ?_))⟩
  obtain ⟨hkey, hne, hmem⟩ := lists_listing
  exact mem_bootstrapNodes.2 ⟨hkey, listing, Finset.mem_singleton_self _, .inr ⟨hne, hmem⟩⟩

end PodpingAlpha.Dtt.Discovery
