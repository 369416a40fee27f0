import PodpingAlpha.Library.Deserialize
import PodpingAlpha.Listener.HandleEvent
import PodpingAlpha.Wire.Canonical
import PodpingAlpha.Writer.Notification

/-!
# The listener's messages on the wire

How `gossip-listener` reads its three messages from the payload of a gossip event, and how it builds
and signs its endorsements.

The metrics of a `PeerAnnounce` are only printed: they must be of their types when they are read,
and an endorsement has none.

* `PeerAnnounce.fromJson_fields` — what is written is read back.
* `keyAndSignature_genuine` — the key and the signature of a genuine signer are read back.
-/

namespace PodpingAlpha.Listener

open Json (must may str? strs? u64? u32? number?)
open Outcome
open Wire (Canonical CanonicalNotification CanonicalPeerEndorse CanonicalPeerSuggest)
open Writer (SigningKey)

/-! ### Reading -/

/-- The derived `Deserialize` of `PeerSuggest`. -/
def PeerSuggest.fromJson (v : Json) : Option PeerSuggest := do
  let field ← v.entries
    ["type", "sender", "target_node_id", "suggested_peers", "reason", "timestamp", "signature"] 7
  let msgType ← must str? (field "type")
  let sender ← must str? (field "sender")
  let targetNodeId ← must str? (field "target_node_id")
  let suggestedPeers ← must strs? (field "suggested_peers")
  let reason ← must str? (field "reason")
  let timestamp ← must u64? (field "timestamp")
  let signature ← must str? (field "signature")
  pure { msgType, sender, targetNodeId, suggestedPeers, reason, timestamp, signature }

/-- The derived `Deserialize` of `PeerAnnounce`. -/
def PeerAnnounce.fromJson (v : Json) : Option PeerAnnounce := do
  let field ← v.entries
    ["type", "node_id", "version", "timestamp", "sender", "node_list", "signature", "friendly_name",
      "cpu_percent", "memory_mb", "thread_count", "neighbor_count", "uptime_secs", "msgs_received",
      "msgs_sent", "last_msg_age_secs", "reconnect_count", "os", "build_type", "neighbors"] 4
  let msgType ← must str? (field "type")
  let nodeId ← must str? (field "node_id")
  let version ← must str? (field "version")
  let timestamp ← must u64? (field "timestamp")
  let sender ← may str? (field "sender")
  let nodeList ← may strs? (field "node_list")
  let signature ← may str? (field "signature")
  let friendlyName ← may str? (field "friendly_name")
  let _ ← may number? (field "cpu_percent")
  let _ ← may u64? (field "memory_mb")
  let _ ← may u32? (field "thread_count")
  let _ ← may u32? (field "neighbor_count")
  let _ ← may u64? (field "uptime_secs")
  let _ ← may u64? (field "msgs_received")
  let _ ← may u64? (field "msgs_sent")
  let _ ← may u64? (field "last_msg_age_secs")
  let _ ← may u64? (field "reconnect_count")
  let _ ← may str? (field "os")
  let _ ← may str? (field "build_type")
  let _ ← may strs? (field "neighbors")
  pure { msgType, nodeId, version, timestamp, sender, nodeList, signature, friendlyName }

/-- The derived `Deserialize` of `GossipNotification`. -/
def GossipNotification.fromJson (v : Json) : Option GossipNotification := do
  let field ← v.entries
    ["version", "sender", "timestamp", "medium", "reason", "iris", "seq", "signature"] 8
  let version ← must str? (field "version")
  let sender ← must str? (field "sender")
  let timestamp ← must u64? (field "timestamp")
  let medium ← must str? (field "medium")
  let reason ← must str? (field "reason")
  let iris ← must strs? (field "iris")
  let seq ← may u64? (field "seq")
  let signature ← may str? (field "signature")
  pure { version, sender, timestamp, medium, reason, iris, seq, signature }

/-- The messages are read with this parser of JSON, and signatures are checked with this ed25519. -/
structure Env.Reads (env : Env) (fromSlice : Bytes → Option Json) (ed : Ed25519) : Prop where
  /-- `PeerSuggest`. -/
  suggest : ∀ raw, env.parsePeerSuggest raw = fromSlice raw >>= PeerSuggest.fromJson
  /-- `PeerAnnounce`. -/
  announce : ∀ raw, env.parsePeerAnnounce raw = fromSlice raw >>= PeerAnnounce.fromJson
  /-- `GossipNotification`. -/
  notification : ∀ raw,
    env.parseGossipNotification raw = fromSlice raw >>= GossipNotification.fromJson
  /-- ed25519. -/
  ed25519 : env.ed25519 = ed

/-! ### Writing -/

/-- `PeerAnnounce::new_endorse` at time `timestamp`. -/
def PeerAnnounce.newEndorse (nodeId version sender : String) (endorsedKeys : List String)
    (friendlyName : Option String) (timestamp : UInt64) : PeerAnnounce where
  msgType := "peer_endorse"
  nodeId := nodeId
  version := version
  timestamp := timestamp
  sender := some sender
  nodeList := some endorsedKeys
  signature := none
  friendlyName := friendlyName

/-- `sign_endorse`. -/
def PeerAnnounce.signEndorse (signingKey : SigningKey) (a : PeerAnnounce) : Rust PeerAnnounce := do
  let canonical ← a.canonicalEndorseBytes
  pure { a with signature := some (Hex.encode (signingKey.sign canonical).toList) }

/-- The endorsement signed over the canonical bytes `b`. -/
def PeerAnnounce.signedOver (signingKey : SigningKey) (b : Bytes) (a : PeerAnnounce) : PeerAnnounce :=
  { a with signature := some (Hex.encode (signingKey.sign b).toList) }

theorem PeerAnnounce.signEndorse_eq {signingKey : SigningKey} {a : PeerAnnounce} {b : Bytes}
    (h : a.canonicalEndorseBytes = .ok b) :
    a.signEndorse signingKey = .ok (a.signedOver signingKey b) := by
  rw [signEndorse]
  rw [h]
  rfl

/-- The fields that are serialised, of a `PeerAnnounce` without metrics. -/
def PeerAnnounce.fields (a : PeerAnnounce) : List (String × Json) :=
  [("type", .str a.msgType), ("node_id", .str a.nodeId), ("version", .str a.version),
      ("timestamp", .u64 a.timestamp)] ++
    Json.optionalField "sender" .str a.sender ++
    Json.optionalField "node_list" (fun l => .arr (l.map .str)) a.nodeList ++
    Json.optionalField "signature" .str a.signature ++
    Json.optionalField "friendly_name" .str a.friendlyName

/-- `serde_json::to_vec`. -/
def PeerAnnounce.toVec (a : PeerAnnounce) : Bytes := (Json.obj a.fields).toBytes

/-- The payload of the task that broadcasts a `PeerEndorse`. -/
def endorsePayload (signingKey : SigningKey) (nodeId version : String) (keys : List String)
    (friendlyName : Option String) (timestamp : UInt64) : Rust Bytes := do
  let endorse := PeerAnnounce.newEndorse nodeId version signingKey.pubkeyHex keys friendlyName timestamp
  let endorse ← endorse.signEndorse signingKey
  pure endorse.toVec

/-! ### The round trip -/

/-- The names of the fields, less those that are left out. -/
theorem PeerAnnounce.keys_fields (a : PeerAnnounce) : List.Sublist (a.fields.map Prod.fst)
    ["type", "node_id", "version", "timestamp", "sender", "node_list", "signature", "friendly_name"] := by
  simp only [fields, List.map_append]
  exact ((((List.Sublist.refl _).append (Json.keys_optionalField _ _ _)).append
    (Json.keys_optionalField _ _ _)).append (Json.keys_optionalField _ _ _)).append
    (Json.keys_optionalField _ _ _)

/-- The fields of a `PeerAnnounce` are named once. -/
theorem PeerAnnounce.nodup_fields (a : PeerAnnounce) : (a.fields.map Prod.fst).Nodup :=
  a.keys_fields.nodup (by decide)

/-- A metric is not among the fields. -/
theorem PeerAnnounce.may_metric {α : Type} (a : PeerAnnounce) (read : Json → Option α) {k : String}
    (h : k ∉ ["type", "node_id", "version", "timestamp", "sender", "node_list", "signature",
      "friendly_name"]) : may read (a.fields.lookup k) = some none := by
  have hnone : a.fields.lookup k = none := by
    refine List.lookup_eq_none_iff.2 fun f hf => ?_
    have hne : k ≠ f.1 := fun heq => h (heq ▸ a.keys_fields.subset (List.mem_map_of_mem hf))
    exact bne_iff_ne.2 hne
  rw [hnone, Json.may_none]

/-- The other fields are read back one by one. -/
theorem PeerAnnounce.read_fields (a : PeerAnnounce) :
    must str? (a.fields.lookup "type") = some a.msgType ∧
      must str? (a.fields.lookup "node_id") = some a.nodeId ∧
      must str? (a.fields.lookup "version") = some a.version ∧
      must u64? (a.fields.lookup "timestamp") = some a.timestamp ∧
      may str? (a.fields.lookup "sender") = some a.sender ∧
      may strs? (a.fields.lookup "node_list") = some a.nodeList ∧
      may str? (a.fields.lookup "signature") = some a.signature ∧
      may str? (a.fields.lookup "friendly_name") = some a.friendlyName := by
  simp [fields, List.lookup_append, Json.lookup_field]

/-- What is written is read back. -/
theorem PeerAnnounce.fromJson_fields (a : PeerAnnounce) : fromJson (.obj a.fields) = some a := by
  obtain ⟨htype, hnode, hversion, htimestamp, hsender, hlist, hsignature, hname⟩ := a.read_fields
  rw [fromJson, Json.entries_obj a.nodup_fields, Option.bind_eq_bind, Option.bind_some]
  rw [htype, hnode, hversion, htimestamp, hsender, hlist, hsignature, hname]
  repeat rw [a.may_metric _ (by decide)]
  rfl

theorem PeerAnnounce.flat_fields (a : PeerAnnounce) : ∀ f ∈ a.fields, f.2.Flat := by
  rw [fields]
  cases a.sender <;> cases a.nodeList <;> cases a.signature <;> cases a.friendlyName <;>
    simp [Json.optionalField]

/-! ### What the signatures cover -/

/-- The fields under the signature. -/
def GossipNotification.canonical (n : GossipNotification) : CanonicalNotification where
  iris := n.iris
  medium := n.medium
  reason := n.reason
  seq := n.seq
  sender := n.sender
  timestamp := n.timestamp
  version := n.version

/-- The fields under the signature. -/
def PeerSuggest.canonical (m : PeerSuggest) : CanonicalPeerSuggest where
  reason := m.reason
  sender := m.sender
  suggestedPeers := m.suggestedPeers
  targetNodeId := m.targetNodeId
  timestamp := m.timestamp
  msgType := m.msgType

/-- The fields under the signature, if it has a signer and keys. -/
def PeerAnnounce.canonical (a : PeerAnnounce) : Option CanonicalPeerEndorse := do
  let nodeList ← a.nodeList
  let sender ← a.sender
  pure
    { friendlyName := a.friendlyName, nodeId := a.nodeId, nodeList := nodeList, sender := sender
      timestamp := a.timestamp, msgType := a.msgType, version := a.version }

theorem GossipNotification.canonicalBytes_eq (n : GossipNotification) :
    n.canonicalBytes = (Canonical.notification n.canonical).toVec := rfl

theorem PeerSuggest.canonicalBytes_eq (m : PeerSuggest) :
    m.canonicalBytes = (Canonical.suggest m.canonical).toVec := rfl

theorem PeerAnnounce.canonicalEndorseBytes_eq_ok {a : PeerAnnounce} {b : Bytes} :
    a.canonicalEndorseBytes = .ok b ↔ ∃ c, a.canonical = some c ∧ (Canonical.endorse c).toVec = b := by
  obtain ⟨msgType, nodeId, version, timestamp, sender, nodeList, signature, name⟩ := a
  cases nodeList with
  | none => exact iff_of_false nofun nofun
  | some nodeList =>
    cases sender with
    | none => exact iff_of_false nofun nofun
    | some sender =>
      constructor
      · intro h
        exact ⟨_, rfl, Except.ok.inj h⟩
      · rintro ⟨c, hc, rfl⟩
        cases hc
        rfl

/-! ### Genuine signatures -/

/-- ed25519 accepts the key of the signer, and its signatures. -/
structure Genuine (ed : Ed25519) (signingKey : SigningKey) (key : List.Vector UInt8 32) :
    Prop where
  /-- The text of the key. -/
  pubkeyHex : signingKey.pubkeyHex = Hex.encode key.toList
  /-- The key is valid. -/
  verifyingKey : ed.verifyingKey key
  /-- Its signatures are. -/
  verify : ∀ m, ed.verify key m (signingKey.sign m)

variable {ed : Ed25519} {signingKey : SigningKey} {key : List.Vector UInt8 32}

/-- A valid key and a signature are read back from their texts. -/
theorem keyAndSignature_encode (hkey : ed.verifyingKey key) (sig : List.Vector UInt8 64) :
    keyAndSignature ed (Hex.encode key.toList) (Hex.encode sig.toList) = .ok (key, sig) := by
  have hkey' : tryIntoArray 32 key.toList = .ok key := tryIntoArray_eq_ok.2 rfl
  have hsig : tryIntoArray 64 sig.toList = .ok sig := tryIntoArray_eq_ok.2 rfl
  rw [keyAndSignature]
  simp only [Hex.decode_encode, Option.elim_some, bind, Except.bind, hkey', hsig, Except.mapError]
  exact if_pos hkey

/-- The key and the signature of a genuine signer are read back. -/
theorem keyAndSignature_genuine (h : Genuine ed signingKey key) (m : Bytes) :
    keyAndSignature ed signingKey.pubkeyHex (Hex.encode (signingKey.sign m).toList) =
      .ok (key, signingKey.sign m) := by
  rw [h.pubkeyHex, keyAndSignature_encode h.verifyingKey]

theorem verified_genuine (h : Genuine ed signingKey key) (m : Bytes) :
    verified ed (key, signingKey.sign m) m = .ok true := if_pos (h.verify m)

theorem GossipNotification.verifySignature_of_keys {n : GossipNotification} {sigHex : String}
    {keys : List.Vector UInt8 32 × List.Vector UInt8 64} (hsig : n.signature = some sigHex)
    (hkeys : keyAndSignature ed n.sender sigHex = .ok keys)
    (hverify : ed.verify keys.1 n.canonicalBytes keys.2) : n.verifySignature ed = .ok true := by
  rw [verifySignature]
  rw [hsig]
  show (keyAndSignature ed n.sender sigHex >>= fun keys => verified ed keys n.canonicalBytes) = _
  rw [hkeys]
  exact if_pos hverify

/-- A genuine notification verifies. -/
theorem GossipNotification.verifySignature_genuine (h : Genuine ed signingKey key)
    {n : GossipNotification} (hsender : n.sender = signingKey.pubkeyHex)
    (hsig : n.signature = some (Hex.encode (signingKey.sign n.canonicalBytes).toList)) :
    n.verifySignature ed = .ok true :=
  verifySignature_of_keys hsig (hsender ▸ keyAndSignature_genuine h _) (h.verify _)

theorem PeerSuggest.verifySignature_of_keys {m : PeerSuggest}
    {keys : List.Vector UInt8 32 × List.Vector UInt8 64}
    (hkeys : keyAndSignature ed m.sender m.signature = .ok keys)
    (hverify : ed.verify keys.1 m.canonicalBytes keys.2) : m.verifySignature ed = .ok true := by
  rw [verifySignature]
  rw [hkeys]
  exact if_pos hverify

/-- A genuine suggestion verifies. -/
theorem PeerSuggest.verifySignature_genuine (h : Genuine ed signingKey key) {m : PeerSuggest}
    (hsender : m.sender = signingKey.pubkeyHex)
    (hsig : m.signature = Hex.encode (signingKey.sign m.canonicalBytes).toList) :
    m.verifySignature ed = .ok true := by
  have hkeys : keyAndSignature ed m.sender m.signature =
      .ok (key, signingKey.sign m.canonicalBytes) := by
    rw [hsig, hsender, keyAndSignature_genuine h]
  exact verifySignature_of_keys hkeys (h.verify _)

theorem PeerAnnounce.verifyEndorseSignature_of_keys {a : PeerAnnounce} {senderHex sigHex : String}
    {keys : List.Vector UInt8 32 × List.Vector UInt8 64} {b : Bytes} (hsender : a.sender = some senderHex)
    (hsig : a.signature = some sigHex) (hkeys : keyAndSignature ed senderHex sigHex = .ok keys)
    (hbytes : a.canonicalEndorseBytes = .ok b) (hverify : ed.verify keys.1 b keys.2) :
    a.verifyEndorseSignature ed = .ok (.ok true) := by
  rw [verifyEndorseSignature]
  rw [hsig, hsender]
  simp only [hkeys, hbytes]
  exact congrArg Except.ok (if_pos hverify)

/-- A genuine endorsement verifies: its own signature is not under the signature. -/
theorem PeerAnnounce.verifyEndorseSignature_genuine (h : Genuine ed signingKey key)
    {a : PeerAnnounce} {b : Bytes} (hsender : a.sender = some signingKey.pubkeyHex)
    (hbytes : a.canonicalEndorseBytes = .ok b) :
    (a.signedOver signingKey b).verifyEndorseSignature ed = .ok (.ok true) := by
  have hsigned : (a.signedOver signingKey b).canonicalEndorseBytes = .ok b := hbytes
  exact verifyEndorseSignature_of_keys hsender rfl (keyAndSignature_genuine h _) hsigned (h.verify b)

end PodpingAlpha.Listener
