import PodpingAlpha.Library.Hex
import PodpingAlpha.Library.Json
import PodpingAlpha.Library.Outcome

/-!
# Messages and their signatures

The three messages of `gossip-listener/src/main.rs` and the checks of their signatures, each over a
canonical JSON with the fields in alphabetical order.

ed25519 is a parameter. The fields of a `PeerAnnounce` that are only printed are left out.

## What is proved

* `verifyEndorseSignature_returns` — the check of an endorsement returns unless it gets as far as an
  endorsement without keys.
* `PeerSuggest.decode_of_verified`, `PeerAnnounce.decode_of_verified` — the sender of a verified
  message is the hexadecimal text of 32 bytes.
-/

namespace PodpingAlpha.Listener

open Outcome

/-- ed25519. -/
structure Ed25519 where
  /-- `VerifyingKey::from_bytes(key)` is `Ok`. -/
  verifyingKey : List.Vector UInt8 32 → Bool
  /-- `verifying_key.verify(message, signature)` is `Ok`. -/
  verify : List.Vector UInt8 32 → Bytes → List.Vector UInt8 64 → Bool

/-- Why a signature is refused. -/
inductive VerifyError where
  | noSender
  | badSenderHex
  | senderLength
  | badSignatureHex
  | signatureLength
  | badPubkey
  | verificationFailed
  deriving DecidableEq

/-- A `PeerAnnounce`, also used for endorsements. -/
structure PeerAnnounce where
  /-- `peer_announce` or `peer_endorse`. -/
  msgType : String
  /-- The node. -/
  nodeId : String
  /-- Its version. -/
  version : String
  /-- When it was built, in seconds. -/
  timestamp : UInt64
  /-- The endorser's public key, in hexadecimal. -/
  sender : Option String
  /-- The endorsed keys. -/
  nodeList : Option (List String)
  /-- The signature, in hexadecimal. -/
  signature : Option String
  /-- The node's name. -/
  friendlyName : Option String
  deriving DecidableEq

/-- A `PeerSuggest`. -/
structure PeerSuggest where
  /-- `peer_suggest`. -/
  msgType : String
  /-- The monitor's public key, in hexadecimal. -/
  sender : String
  /-- Whom it is for. -/
  targetNodeId : String
  /-- The peers to join. -/
  suggestedPeers : List String
  /-- Why. -/
  reason : String
  /-- When it was built, in seconds. -/
  timestamp : UInt64
  /-- The signature, in hexadecimal. -/
  signature : String
  deriving DecidableEq

/-- A `GossipNotification`. -/
structure GossipNotification where
  /-- The format version. -/
  version : String
  /-- The public key of the sender, in hexadecimal. -/
  sender : String
  /-- When it was built, in seconds. -/
  timestamp : UInt64
  /-- The medium of all its feeds. -/
  medium : String
  /-- What happened to them. -/
  reason : String
  /-- The feeds. -/
  iris : List String
  /-- The number of the notification among those of its sender. -/
  seq : Option UInt64
  /-- The signature, in hexadecimal. -/
  signature : Option String
  deriving DecidableEq

/-! ### Canonical bytes -/

/-- `CanonicalPeerSuggest`. -/
def PeerSuggest.canonicalBytes (m : PeerSuggest) : Bytes :=
  (Json.obj [("reason", .str m.reason), ("sender", .str m.sender),
    ("suggested_peers", .arr (m.suggestedPeers.map .str)), ("target_node_id", .str m.targetNodeId),
    ("timestamp", .u64 m.timestamp), ("type", .str m.msgType)]).toBytes

/-- `x.expect(msg)`. -/
def expect {α : Type} (msg : String) : Option α → Rust α
  | some a => .ok a
  | none => .error (.expect msg)

/-- `canonical_endorse_bytes`. -/
def PeerAnnounce.canonicalEndorseBytes (m : PeerAnnounce) : Rust Bytes := do
  let nodeList ← expect "node_list required for endorse" m.nodeList
  let sender ← expect "sender required for endorse" m.sender
  pure (Json.obj (Json.optionalField "friendly_name" .str m.friendlyName ++
    [("node_id", .str m.nodeId), ("node_list", .arr (nodeList.map .str)), ("sender", .str sender),
      ("timestamp", .u64 m.timestamp), ("type", .str m.msgType),
      ("version", .str m.version)])).toBytes

/-- `canonical_bytes`. -/
def GossipNotification.canonicalBytes (n : GossipNotification) : Bytes :=
  (Json.obj ([("iris", .arr (n.iris.map .str)), ("medium", .str n.medium), ("reason", .str n.reason)] ++
    Json.optionalField "seq" .u64 n.seq ++
    [("sender", .str n.sender), ("timestamp", .u64 n.timestamp),
      ("version", .str n.version)])).toBytes

/-! ### Signatures -/

/-- The key and the signature of a message, from their hexadecimal texts. -/
def keyAndSignature (ed : Ed25519) (senderHex sigHex : String) :
    Except VerifyError (List.Vector UInt8 32 × List.Vector UInt8 64) := do
  let pubkeyBytes ← (Hex.decode senderHex).elim (.error .badSenderHex) .ok
  let pubkeyBytes ← (tryIntoArray 32 pubkeyBytes).mapError fun _ => .senderLength
  let sigBytes ← (Hex.decode sigHex).elim (.error .badSignatureHex) .ok
  let sigBytes ← (tryIntoArray 64 sigBytes).mapError fun _ => .signatureLength
  if ed.verifyingKey pubkeyBytes then pure (pubkeyBytes, sigBytes) else throw .badPubkey

/-- The result of `verifying_key.verify`. -/
def verified (ed : Ed25519) (keys : List.Vector UInt8 32 × List.Vector UInt8 64)
    (canonical : Bytes) : Except VerifyError Bool :=
  if ed.verify keys.1 canonical keys.2 then .ok true else .error .verificationFailed

/-- `PeerSuggest::verify_signature`. -/
def PeerSuggest.verifySignature (ed : Ed25519) (m : PeerSuggest) : Except VerifyError Bool := do
  let keys ← keyAndSignature ed m.sender m.signature
  verified ed keys m.canonicalBytes

/-- `GossipNotification::verify_signature`. -/
def GossipNotification.verifySignature (ed : Ed25519) (n : GossipNotification) :
    Except VerifyError Bool :=
  match n.signature with
  | none => .ok false
  | some sigHex => do
    let keys ← keyAndSignature ed n.sender sigHex
    verified ed keys n.canonicalBytes

/-- `PeerAnnounce::verify_endorse_signature`. -/
def PeerAnnounce.verifyEndorseSignature (ed : Ed25519) (m : PeerAnnounce) :
    Rust (Except VerifyError Bool) :=
  match m.signature, m.sender with
  | none, _ => .ok (.ok false)
  | some _, none => .ok (.error .noSender)
  | some sigHex, some senderHex =>
    match keyAndSignature ed senderHex sigHex with
    | .error e => .ok (.error e)
    | .ok keys => do
      let canonical ← m.canonicalEndorseBytes
      pure (verified ed keys canonical)

/-- An endorsement that gets as far as the verification names its keys. -/
def PeerAnnounce.NamesKeys (ed : Ed25519) (m : PeerAnnounce) : Prop :=
  ∀ sigHex ∈ m.signature, ∀ senderHex ∈ m.sender, ∀ keys,
    keyAndSignature ed senderHex sigHex = .ok keys → m.nodeList.isSome

/-- The check of an endorsement returns unless it gets as far as an endorsement without keys. -/
theorem verifyEndorseSignature_returns {ed : Ed25519} {m : PeerAnnounce} :
    (∃ r, m.verifyEndorseSignature ed = .ok r) ↔ m.NamesKeys ed := by
  rw [PeerAnnounce.verifyEndorseSignature, PeerAnnounce.NamesKeys]
  cases hsig : m.signature with
  | none => exact iff_of_true ⟨_, rfl⟩ nofun
  | some sigHex =>
    cases hsender : m.sender with
    | none => exact iff_of_true ⟨_, rfl⟩ fun _ _ => nofun
    | some senderHex =>
      simp only [Option.mem_some_iff, forall_eq']
      cases hkeys : keyAndSignature ed senderHex sigHex with
      | error e => exact iff_of_true ⟨_, rfl⟩ nofun
      | ok keys =>
        rw [PeerAnnounce.canonicalEndorseBytes]
        rw [hsender]
        cases hlist : m.nodeList with
        | none => exact iff_of_false (fun ⟨_, h⟩ => nomatch h) fun h => nomatch h keys rfl
        | some nodeList => exact iff_of_true ⟨_, rfl⟩ fun _ _ => rfl

theorem decode_of_keyAndSignature {ed : Ed25519} {senderHex sigHex : String}
    {keys : List.Vector UInt8 32 × List.Vector UInt8 64}
    (h : keyAndSignature ed senderHex sigHex = .ok keys) :
    ∃ b, Hex.decode senderHex = some b ∧ b.length = 32 := by
  unfold keyAndSignature at h
  cases hdec : Hex.decode senderHex with
  | none =>
    rw [hdec] at h
    cases h
  | some b =>
    refine ⟨b, rfl, ?_⟩
    by_contra hlen
    have htry : tryIntoArray 32 b = .error "could not convert slice to array" := dif_neg hlen
    rw [hdec] at h
    change (tryIntoArray 32 b).mapError _ >>= _ = _ at h
    rw [htry] at h
    cases h

/-- A verified suggestion has a hexadecimal sender. -/
theorem PeerSuggest.decode_of_verified {ed : Ed25519} {m : PeerSuggest}
    (h : m.verifySignature ed = .ok true) : ∃ b, Hex.decode m.sender = some b ∧ b.length = 32 := by
  unfold verifySignature at h
  cases hkeys : keyAndSignature ed m.sender m.signature with
  | error e =>
    rw [hkeys] at h
    cases h
  | ok keys => exact decode_of_keyAndSignature hkeys

/-- A verified endorsement has a hexadecimal sender. -/
theorem PeerAnnounce.decode_of_verified {ed : Ed25519} {m : PeerAnnounce}
    (h : m.verifyEndorseSignature ed = .ok (.ok true)) :
    ∃ senderHex, m.sender = some senderHex ∧
      ∃ b, Hex.decode senderHex = some b ∧ b.length = 32 := by
  unfold verifyEndorseSignature at h
  cases hsig : m.signature with
  | none =>
    rw [hsig] at h
    cases h
  | some sigHex =>
    cases hsender : m.sender with
    | none =>
      rw [hsig, hsender] at h
      cases h
    | some senderHex =>
      cases hkeys : keyAndSignature ed senderHex sigHex with
      | error e =>
        rw [hsig, hsender] at h
        simp only [hkeys] at h
        cases h
      | ok keys =>
        exact ⟨senderHex, rfl, decode_of_keyAndSignature hkeys⟩

end PodpingAlpha.Listener
