import PodpingAlpha.Library.Json
import Mathlib.Data.Vector.Basic

/-!
# Notifications

`gossip-writer/src/notification.rs`: the message a writer broadcasts, and its signature over the
canonical JSON, which has the same fields without the signature and in alphabetical order.

ed25519 is a parameter: a `SigningKey` is its public key in hexadecimal and the signatures it gives.
-/

namespace PodpingAlpha.Writer

/-- A signing key. -/
structure SigningKey where
  /-- The public key in hexadecimal. -/
  pubkeyHex : String
  /-- `signing_key.sign(message)`. -/
  sign : Bytes → List.Vector UInt8 64

/-- A notification. -/
structure GossipNotification where
  /-- The format version. -/
  version : String
  /-- The public key of the sender, in hexadecimal. -/
  sender : String
  /-- When it was built, in seconds. -/
  timestamp : UInt64
  /-- The medium of all its feeds. -/
  medium : String
  /-- What happened to them. -/
  reason : String
  /-- The feeds. -/
  iris : List String
  /-- The number of the notification among those of its sender. -/
  seq : Option UInt64
  /-- The signature, in hexadecimal. -/
  signature : Option String
  deriving DecidableEq

/-- `GossipNotification::new` at time `timestamp`. -/
def GossipNotification.new (senderPubkeyHex medium reason : String) (iris : List String)
    (seq : Option UInt64) (timestamp : UInt64) : GossipNotification where
  version := "1.0"
  sender := senderPubkeyHex
  timestamp := timestamp
  medium := medium
  reason := reason
  iris := iris
  seq := seq
  signature := none

/-- `canonical_bytes`. -/
def GossipNotification.canonicalBytes (n : GossipNotification) : Bytes :=
  (Json.obj ([("iris", .arr (n.iris.map .str)), ("medium", .str n.medium), ("reason", .str n.reason)] ++
    Json.optionalField "seq" .u64 n.seq ++
    [("sender", .str n.sender), ("timestamp", .u64 n.timestamp),
      ("version", .str n.version)])).toBytes

/-- `serde_json::to_vec(notification)`. -/
def GossipNotification.toVec (n : GossipNotification) : Bytes :=
  (Json.obj ([("version", .str n.version), ("sender", .str n.sender),
      ("timestamp", .u64 n.timestamp), ("medium", .str n.medium), ("reason", .str n.reason),
      ("iris", .arr (n.iris.map .str))] ++
    Json.optionalField "seq" .u64 n.seq ++ Json.optionalField "signature" .str n.signature)).toBytes

/-- `sign`: the signed notification, whose bytes are the payload. -/
def GossipNotification.sign (signingKey : SigningKey) (n : GossipNotification) :
    GossipNotification :=
  { n with signature := some (Hex.encode (signingKey.sign n.canonicalBytes).toList) }

/-- The payload `sign` returns. -/
def GossipNotification.signedPayload (signingKey : SigningKey) (n : GossipNotification) : Bytes :=
  (n.sign signingKey).toVec

/-- `reason_to_string`. -/
def reasonToString (reason : ℕ) : String :=
  match reason with
  | 0 => "update"
  | 1 => "live"
  | 2 => "liveEnd"
  | _ => "update"

/-- `medium_to_string`. -/
def mediumToString (medium : ℕ) : String :=
  match medium with
  | 0 => "mixed"
  | 1 => "podcast"
  | 2 => "podcastL"
  | 3 => "music"
  | 4 => "musicL"
  | 5 => "video"
  | 6 => "videoL"
  | 7 => "film"
  | 8 => "filmL"
  | 9 => "audiobook"
  | 10 => "audiobookL"
  | 11 => "newsletter"
  | 12 => "newsletterL"
  | 13 => "blog"
  | 14 => "blogL"
  | 15 => "publisher"
  | 16 => "publisherL"
  | 17 => "course"
  | 18 => "courseL"
  | _ => "podcast"

end PodpingAlpha.Writer
