import PodpingAlpha.Writer.Notification
import PodpingAlpha.Wire.Canonical

/-!
# The monitor's suggestions

The topology task of `gossip-monitor/src/main.rs`: how it builds and signs a suggestion. Which peers
it suggests to whom is in `Monitor.PoorlyConnected`, and when in `Monitor.TopologyTask`.
-/

namespace PodpingAlpha.Monitor

open Wire (Canonical CanonicalPeerSuggest)
open Writer (SigningKey)

/-- What the analysis of the topology suggests to a node. -/
structure PeerSuggestion where
  /-- Whom it is for. -/
  targetNodeId : String
  /-- The peers to join. -/
  suggestedPeers : List String
  /-- Why. -/
  reason : String

/-- A `PeerSuggest`. -/
structure PeerSuggest where
  /-- `peer_suggest`. -/
  msgType : String
  /-- The monitor's public key, in hexadecimal. -/
  sender : String
  /-- Whom it is for. -/
  targetNodeId : String
  /-- The peers to join. -/
  suggestedPeers : List String
  /-- Why. -/
  reason : String
  /-- When it was built, in seconds. -/
  timestamp : UInt64
  /-- The signature, in hexadecimal. -/
  signature : String
  deriving DecidableEq

/-- The canonical form that the task signs. -/
def canonical (monitorPubkey : String) (timestamp : UInt64) (suggestion : PeerSuggestion) :
    CanonicalPeerSuggest where
  reason := suggestion.reason
  sender := monitorPubkey
  suggestedPeers := suggestion.suggestedPeers
  targetNodeId := suggestion.targetNodeId
  timestamp := timestamp
  msgType := "peer_suggest"

/-- The message the task builds for a suggestion at time `timestamp`. -/
def PeerSuggest.build (signingKey : SigningKey) (timestamp : UInt64)
    (suggestion : PeerSuggestion) : PeerSuggest where
  msgType := "peer_suggest"
  sender := signingKey.pubkeyHex
  targetNodeId := suggestion.targetNodeId
  suggestedPeers := suggestion.suggestedPeers
  reason := suggestion.reason
  timestamp := timestamp
  signature :=
    let canonicalBytes := (Canonical.suggest (canonical signingKey.pubkeyHex timestamp suggestion)).toVec
    Hex.encode (signingKey.sign canonicalBytes).toList

/-- The fields that are serialised. -/
def PeerSuggest.fields (m : PeerSuggest) : List (String × Json) :=
  [("type", .str m.msgType), ("sender", .str m.sender), ("target_node_id", .str m.targetNodeId),
    ("suggested_peers", .arr (m.suggestedPeers.map .str)), ("reason", .str m.reason),
    ("timestamp", .u64 m.timestamp), ("signature", .str m.signature)]

/-- `serde_json::to_vec`. -/
def PeerSuggest.toVec (m : PeerSuggest) : Bytes := (Json.obj m.fields).toBytes

/-- The fields of a suggestion are named once. -/
theorem PeerSuggest.nodup_fields (m : PeerSuggest) : (m.fields.map Prod.fst).Nodup := by
  show ["type", "sender", "target_node_id", "suggested_peers", "reason", "timestamp",
    "signature"].Nodup
  decide

end PodpingAlpha.Monitor
