import PodpingAlpha.Listener.Codec

/-!
# The writer's messages on the wire

The messages of `gossip-writer/src/main.rs`, which has structs, canonical forms and checks of its own
for endorsements and suggestions: how it reads a payload, how it tells the messages apart, and how it
builds and signs its endorsements.

Only the kind of an incoming message is decided here. The metrics of a `PeerAnnounce` are only
printed: they must be of their types when they are read, and an endorsement has none.

* `PeerAnnounce.fromJson_fields` — what is written is read back.
* `GossipNotification.nodup_fields`, `GossipNotification.flat_fields` — a notification is an object
  that a parser takes back.
-/

namespace PodpingAlpha.Writer

open Json (must may str? strs? u64? u32? number?)
open Listener (Ed25519 VerifyError Genuine keyAndSignature verified expect)
open Outcome
open Wire (Canonical CanonicalNotification CanonicalPeerEndorse CanonicalPeerSuggest)

/-- A `PeerAnnounce`, also used for endorsements. -/
structure PeerAnnounce where
  /-- `peer_announce` or `peer_endorse`. -/
  msgType : String
  /-- The node. -/
  nodeId : String
  /-- Its version. -/
  version : String
  /-- When it was built, in seconds. -/
  timestamp : UInt64
  /-- The endorser's public key, in hexadecimal. -/
  sender : Option String
  /-- The endorsed keys. -/
  nodeList : Option (List String)
  /-- The signature, in hexadecimal. -/
  signature : Option String
  /-- The node's name. -/
  friendlyName : Option String
  deriving DecidableEq

/-- A `PeerSuggest`. -/
structure PeerSuggest where
  /-- `peer_suggest`. -/
  msgType : String
  /-- The monitor's public key, in hexadecimal. -/
  sender : String
  /-- Whom it is for. -/
  targetNodeId : String
  /-- The peers to join. -/
  suggestedPeers : List String
  /-- Why. -/
  reason : String
  /-- When it was built, in seconds. -/
  timestamp : UInt64
  /-- The signature, in hexadecimal. -/
  signature : String
  deriving DecidableEq

/-! ### Signatures -/

/-- `CanonicalPeerSuggest`. -/
def PeerSuggest.canonicalBytes (m : PeerSuggest) : Bytes :=
  (Json.obj [("reason", .str m.reason), ("sender", .str m.sender),
    ("suggested_peers", .arr (m.suggestedPeers.map .str)), ("target_node_id", .str m.targetNodeId),
    ("timestamp", .u64 m.timestamp), ("type", .str m.msgType)]).toBytes

/-- `PeerSuggest::verify_signature`. -/
def PeerSuggest.verifySignature (ed : Ed25519) (m : PeerSuggest) : Except VerifyError Bool := do
  let keys ← keyAndSignature ed m.sender m.signature
  verified ed keys m.canonicalBytes

/-- `canonical_endorse_bytes`. -/
def PeerAnnounce.canonicalEndorseBytes (a : PeerAnnounce) : Rust Bytes := do
  let nodeList ← expect "node_list required for endorse" a.nodeList
  let sender ← expect "sender required for endorse" a.sender
  pure (Json.obj (Json.optionalField "friendly_name" .str a.friendlyName ++
    [("node_id", .str a.nodeId), ("node_list", .arr (nodeList.map .str)), ("sender", .str sender),
      ("timestamp", .u64 a.timestamp), ("type", .str a.msgType),
      ("version", .str a.version)])).toBytes

/-- `PeerAnnounce::new_endorse` at time `timestamp`. -/
def PeerAnnounce.newEndorse (nodeId version sender : String) (endorsedKeys : List String)
    (friendlyName : Option String) (timestamp : UInt64) : PeerAnnounce where
  msgType := "peer_endorse"
  nodeId := nodeId
  version := version
  timestamp := timestamp
  sender := some sender
  nodeList := some endorsedKeys
  signature := none
  friendlyName := friendlyName

/-- `sign_endorse`. -/
def PeerAnnounce.signEndorse (signingKey : SigningKey) (a : PeerAnnounce) : Rust PeerAnnounce := do
  let canonical ← a.canonicalEndorseBytes
  pure { a with signature := some (Hex.encode (signingKey.sign canonical).toList) }

/-- `PeerAnnounce::verify_endorse_signature`. -/
def PeerAnnounce.verifyEndorseSignature (ed : Ed25519) (a : PeerAnnounce) :
    Rust (Except VerifyError Bool) :=
  match a.signature, a.sender with
  | none, _ => .ok (.ok false)
  | some _, none => .ok (.error .noSender)
  | some sigHex, some senderHex =>
    match keyAndSignature ed senderHex sigHex with
    | .error e => .ok (.error e)
    | .ok keys => do
      let canonical ← a.canonicalEndorseBytes
      pure (verified ed keys canonical)

/-! ### Reading -/

/-- The derived `Deserialize` of `PeerSuggest`. -/
def PeerSuggest.fromJson (v : Json) : Option PeerSuggest := do
  let field ← v.entries
    ["type", "sender", "target_node_id", "suggested_peers", "reason", "timestamp", "signature"] 7
  let msgType ← must str? (field "type")
  let sender ← must str? (field "sender")
  let targetNodeId ← must str? (field "target_node_id")
  let suggestedPeers ← must strs? (field "suggested_peers")
  let reason ← must str? (field "reason")
  let timestamp ← must u64? (field "timestamp")
  let signature ← must str? (field "signature")
  pure { msgType, sender, targetNodeId, suggestedPeers, reason, timestamp, signature }

/-- The derived `Deserialize` of `PeerAnnounce`. -/
def PeerAnnounce.fromJson (v : Json) : Option PeerAnnounce := do
  let field ← v.entries
    ["type", "node_id", "version", "timestamp", "sender", "node_list", "signature", "friendly_name",
      "cpu_percent", "memory_mb", "thread_count", "neighbor_count", "uptime_secs", "msgs_received",
      "msgs_sent", "last_msg_age_secs", "reconnect_count", "os", "build_type", "neighbors"] 4
  let msgType ← must str? (field "type")
  let nodeId ← must str? (field "node_id")
  let version ← must str? (field "version")
  let timestamp ← must u64? (field "timestamp")
  let sender ← may str? (field "sender")
  let nodeList ← may strs? (field "node_list")
  let signature ← may str? (field "signature")
  let friendlyName ← may str? (field "friendly_name")
  let _ ← may number? (field "cpu_percent")
  let _ ← may u64? (field "memory_mb")
  let _ ← may u32? (field "thread_count")
  let _ ← may u32? (field "neighbor_count")
  let _ ← may u64? (field "uptime_secs")
  let _ ← may u64? (field "msgs_received")
  let _ ← may u64? (field "msgs_sent")
  let _ ← may u64? (field "last_msg_age_secs")
  let _ ← may u64? (field "reconnect_count")
  let _ ← may str? (field "os")
  let _ ← may str? (field "build_type")
  let _ ← may strs? (field "neighbors")
  pure { msgType, nodeId, version, timestamp, sender, nodeList, signature, friendlyName }

/-- The derived `Deserialize` of `GossipNotification`. -/
def GossipNotification.fromJson (v : Json) : Option GossipNotification := do
  let field ← v.entries
    ["version", "sender", "timestamp", "medium", "reason", "iris", "seq", "signature"] 8
  let version ← must str? (field "version")
  let sender ← must str? (field "sender")
  let timestamp ← must u64? (field "timestamp")
  let medium ← must str? (field "medium")
  let reason ← must str? (field "reason")
  let iris ← must strs? (field "iris")
  let seq ← may u64? (field "seq")
  let signature ← may str? (field "signature")
  pure { version, sender, timestamp, medium, reason, iris, seq, signature }

/-- What a payload is taken for. -/
inductive Incoming where
  | suggest (m : PeerSuggest)
  | announce (a : PeerAnnounce)
  | endorse (a : PeerAnnounce)
  | notification (n : GossipNotification)
  | ignored

/-- What is no suggestion. -/
def classifyOther (fromSlice : Bytes → Option Json) (raw : Bytes) : Incoming :=
  match fromSlice raw >>= PeerAnnounce.fromJson with
  | some a =>
    if a.msgType = "peer_announce" then .announce a
    else if a.msgType = "peer_endorse" then .endorse a
    else .ignored
  | none =>
    match fromSlice raw >>= GossipNotification.fromJson with
    | some n => .notification n
    | none => .ignored

/-- The receive task tries a `PeerSuggest` first. -/
def classify (fromSlice : Bytes → Option Json) (raw : Bytes) : Incoming :=
  match fromSlice raw >>= PeerSuggest.fromJson with
  | some m => if m.msgType = "peer_suggest" then .suggest m else classifyOther fromSlice raw
  | none => classifyOther fromSlice raw

/-! ### Writing -/

/-- The endorsement signed over the canonical bytes `b`. -/
def PeerAnnounce.signedOver (signingKey : SigningKey) (b : Bytes) (a : PeerAnnounce) : PeerAnnounce :=
  { a with signature := some (Hex.encode (signingKey.sign b).toList) }

theorem PeerAnnounce.signEndorse_eq {signingKey : SigningKey} {a : PeerAnnounce} {b : Bytes}
    (h : a.canonicalEndorseBytes = .ok b) :
    a.signEndorse signingKey = .ok (a.signedOver signingKey b) := by
  rw [signEndorse]
  rw [h]
  rfl

/-- The fields that are serialised, of a `PeerAnnounce` without metrics. -/
def PeerAnnounce.fields (a : PeerAnnounce) : List (String × Json) :=
  [("type", .str a.msgType), ("node_id", .str a.nodeId), ("version", .str a.version),
      ("timestamp", .u64 a.timestamp)] ++
    Json.optionalField "sender" .str a.sender ++
    Json.optionalField "node_list" (fun l => .arr (l.map .str)) a.nodeList ++
    Json.optionalField "signature" .str a.signature ++
    Json.optionalField "friendly_name" .str a.friendlyName

/-- `serde_json::to_vec`. -/
def PeerAnnounce.toVec (a : PeerAnnounce) : Bytes := (Json.obj a.fields).toBytes

/-- The payload of the task that broadcasts a `PeerEndorse`. -/
def endorsePayload (signingKey : SigningKey) (nodeId version : String) (keys : List String)
    (friendlyName : Option String) (timestamp : UInt64) : Rust Bytes := do
  let endorse := PeerAnnounce.newEndorse nodeId version signingKey.pubkeyHex keys friendlyName timestamp
  let endorse ← endorse.signEndorse signingKey
  pure endorse.toVec

/-- The fields of `GossipNotification.toVec`. -/
def GossipNotification.fields (n : GossipNotification) : List (String × Json) :=
  [("version", .str n.version), ("sender", .str n.sender), ("timestamp", .u64 n.timestamp),
      ("medium", .str n.medium), ("reason", .str n.reason), ("iris", .arr (n.iris.map .str))] ++
    Json.optionalField "seq" .u64 n.seq ++ Json.optionalField "signature" .str n.signature

/-! ### The round trip -/

/-- The fields of a `PeerAnnounce` are those of the listener. -/
theorem PeerAnnounce.fields_eq (a : PeerAnnounce) : a.fields =
    Listener.PeerAnnounce.fields ⟨a.msgType, a.nodeId, a.version, a.timestamp, a.sender, a.nodeList,
      a.signature, a.friendlyName⟩ := rfl

/-- What is written is read back. -/
theorem PeerAnnounce.fromJson_fields (a : PeerAnnounce) : fromJson (.obj a.fields) = some a := by
  obtain ⟨htype, hnode, hversion, htimestamp, hsender, hlist, hsignature, hname⟩ :=
    Listener.PeerAnnounce.read_fields ⟨a.msgType, a.nodeId, a.version, a.timestamp, a.sender,
      a.nodeList, a.signature, a.friendlyName⟩
  rw [a.fields_eq, fromJson, Json.entries_obj (Listener.PeerAnnounce.nodup_fields _),
    Option.bind_eq_bind, Option.bind_some]
  rw [htype, hnode, hversion, htimestamp, hsender, hlist, hsignature, hname]
  repeat rw [Listener.PeerAnnounce.may_metric _ _ (by decide)]
  rfl

/-- The fields of a notification are named once. -/
theorem GossipNotification.nodup_fields (n : GossipNotification) :
    (n.fields.map Prod.fst).Nodup := by
  have hkeys : List.Sublist (n.fields.map Prod.fst)
      ["version", "sender", "timestamp", "medium", "reason", "iris", "seq", "signature"] := by
    simp only [fields, List.map_append]
    exact ((List.Sublist.refl _).append (Json.keys_optionalField _ _ _)).append
      (Json.keys_optionalField _ _ _)
  exact hkeys.nodup (by decide)

theorem GossipNotification.flat_fields (n : GossipNotification) : ∀ f ∈ n.fields, f.2.Flat := by
  rw [fields]
  cases n.seq <;> cases n.signature <;> simp [Json.optionalField]

/-! ### What the signatures cover -/

/-- The fields under the signature. -/
def GossipNotification.canonical (n : GossipNotification) : CanonicalNotification where
  iris := n.iris
  medium := n.medium
  reason := n.reason
  seq := n.seq
  sender := n.sender
  timestamp := n.timestamp
  version := n.version

/-- The fields under the signature. -/
def PeerSuggest.canonical (m : PeerSuggest) : CanonicalPeerSuggest where
  reason := m.reason
  sender := m.sender
  suggestedPeers := m.suggestedPeers
  targetNodeId := m.targetNodeId
  timestamp := m.timestamp
  msgType := m.msgType

/-- The fields under the signature, if it has a signer and keys. -/
def PeerAnnounce.canonical (a : PeerAnnounce) : Option CanonicalPeerEndorse := do
  let nodeList ← a.nodeList
  let sender ← a.sender
  pure
    { friendlyName := a.friendlyName, nodeId := a.nodeId, nodeList := nodeList, sender := sender
      timestamp := a.timestamp, msgType := a.msgType, version := a.version }

theorem GossipNotification.canonicalBytes_eq (n : GossipNotification) :
    n.canonicalBytes = (Canonical.notification n.canonical).toVec := rfl

theorem PeerSuggest.canonicalBytes_eq (m : PeerSuggest) :
    m.canonicalBytes = (Canonical.suggest m.canonical).toVec := rfl

/-- The listener's struct with the same fields. -/
def PeerAnnounce.toListener (a : PeerAnnounce) : Listener.PeerAnnounce where
  msgType := a.msgType
  nodeId := a.nodeId
  version := a.version
  timestamp := a.timestamp
  sender := a.sender
  nodeList := a.nodeList
  signature := a.signature
  friendlyName := a.friendlyName

/-- The listener's struct with the same fields. -/
def PeerSuggest.toListener (m : PeerSuggest) : Listener.PeerSuggest where
  msgType := m.msgType
  sender := m.sender
  targetNodeId := m.targetNodeId
  suggestedPeers := m.suggestedPeers
  reason := m.reason
  timestamp := m.timestamp
  signature := m.signature

/-- Both crates check an endorsement in the same way. -/
theorem PeerAnnounce.verifyEndorseSignature_toListener (ed : Ed25519) (a : PeerAnnounce) :
    a.toListener.verifyEndorseSignature ed = a.verifyEndorseSignature ed := rfl

/-- Both crates check a suggestion in the same way. -/
theorem PeerSuggest.verifySignature_toListener (ed : Ed25519) (m : PeerSuggest) :
    m.toListener.verifySignature ed = m.verifySignature ed := rfl

theorem PeerAnnounce.toVec_toListener (a : PeerAnnounce) : a.toListener.toVec = a.toVec := rfl

end PodpingAlpha.Writer
