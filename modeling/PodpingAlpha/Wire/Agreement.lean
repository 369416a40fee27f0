import PodpingAlpha.Listener.Trust
import PodpingAlpha.Monitor.Suggest
import PodpingAlpha.Writer.Messages

/-!
# Signers and verifiers agree

What one crate builds and signs, the others tell apart, read and verify: the writer's notifications
at the listener, the endorsements of each at the other, and the monitor's suggestions at both.

Every message is a flat object that names its keys once, so the parser takes it back field by field;
and the canonical form of what is read is that of what was signed.

* `signers_and_verifiers_agree` — all four crates.
-/

namespace PodpingAlpha.Wire

open Listener (Ed25519 Env Genuine)
open Writer (SigningKey)

/-! ### Notifications at the listener -/

/-- The listener's struct with the same fields. -/
def toListener (n : Writer.GossipNotification) : Listener.GossipNotification where
  version := n.version
  sender := n.sender
  timestamp := n.timestamp
  medium := n.medium
  reason := n.reason
  iris := n.iris
  seq := n.seq
  signature := n.signature

/-- A notification has no `type`. -/
theorem lookup_type_fields (n : Writer.GossipNotification) : n.fields.lookup "type" = none := by
  simp [Writer.GossipNotification.fields, List.lookup_append, Json.lookup_field]

/-- A notification is not taken for a suggestion. -/
theorem suggest_fromJson_notification (n : Writer.GossipNotification) :
    Listener.PeerSuggest.fromJson (.obj n.fields) = none := by
  rw [Listener.PeerSuggest.fromJson, Json.entries_obj n.nodup_fields]
  show (Json.must Json.str? (n.fields.lookup "type") >>= _) = none
  rw [lookup_type_fields]
  rfl

/-- A notification is not taken for an announcement. -/
theorem announce_fromJson_notification (n : Writer.GossipNotification) :
    Listener.PeerAnnounce.fromJson (.obj n.fields) = none := by
  rw [Listener.PeerAnnounce.fromJson, Json.entries_obj n.nodup_fields]
  show (Json.must Json.str? (n.fields.lookup "type") >>= _) = none
  rw [lookup_type_fields]
  rfl

/-- A notification is read back. -/
theorem notification_fromJson_notification (n : Writer.GossipNotification) :
    Listener.GossipNotification.fromJson (.obj n.fields) = some (toListener n) := by
  rw [Listener.GossipNotification.fromJson, Json.entries_obj n.nodup_fields]
  simp [Writer.GossipNotification.fields, List.lookup_append, Json.lookup_field, toListener]

/-! ### Endorsements -/

/-- An endorsement is not taken for a suggestion: it is for nobody in particular. -/
theorem suggest_fromJson_announce (a : Listener.PeerAnnounce) :
    Listener.PeerSuggest.fromJson (.obj a.fields) = none := by
  have htarget : a.fields.lookup "target_node_id" = none := by
    simp [Listener.PeerAnnounce.fields, List.lookup_append, Json.lookup_field]
  rw [Listener.PeerSuggest.fromJson, Json.entries_obj a.nodup_fields]
  simp [htarget]

theorem writer_suggest_fromJson_announce (a : Listener.PeerAnnounce) :
    Writer.PeerSuggest.fromJson (.obj a.fields) = none := by
  have htarget : a.fields.lookup "target_node_id" = none := by
    simp [Listener.PeerAnnounce.fields, List.lookup_append, Json.lookup_field]
  rw [Writer.PeerSuggest.fromJson, Json.entries_obj a.nodup_fields]
  simp [htarget]

variable {fromSlice : Bytes → Option Json} {ed : Ed25519} {signingKey : SigningKey}
  {key : List.Vector UInt8 32} {env : Env}

/-- The listener takes an endorsement for what it is. -/
theorem listener_classify_endorse (hserde : Json.RoundTrips fromSlice) (henv : env.Reads fromSlice ed)
    {a : Listener.PeerAnnounce} (ha : a.msgType = "peer_endorse") :
    Listener.classify env a.toVec = .endorse a := by
  have hread : fromSlice a.toVec = some (.obj a.fields) := hserde _ a.flat_fields
  have hsuggest : env.parsePeerSuggest a.toVec = none := by
    rw [henv.suggest, hread]
    exact suggest_fromJson_announce a
  have hannounce : env.parsePeerAnnounce a.toVec = some a := by
    rw [henv.announce, hread]
    exact a.fromJson_fields
  simp [Listener.classify, Listener.classifyEvent, hsuggest, hannounce, ha]

/-- The writer takes an endorsement for what it is. -/
theorem writer_classify_endorse (hserde : Json.RoundTrips fromSlice) {a : Writer.PeerAnnounce}
    (ha : a.msgType = "peer_endorse") : Writer.classify fromSlice a.toVec = .endorse a := by
  have hread : fromSlice a.toVec = some (.obj a.fields) := hserde _ a.toListener.flat_fields
  have hsuggest : fromSlice a.toVec >>= Writer.PeerSuggest.fromJson = none := by
    rw [hread]
    exact writer_suggest_fromJson_announce a.toListener
  have hannounce : fromSlice a.toVec >>= Writer.PeerAnnounce.fromJson = some a := by
    rw [hread]
    exact a.fromJson_fields
  simp [Writer.classify, Writer.classifyOther, hsuggest, hannounce, ha]

/-! ### Suggestions -/

/-- The listener's struct with the same fields. -/
def suggestToListener (m : Monitor.PeerSuggest) : Listener.PeerSuggest where
  msgType := m.msgType
  sender := m.sender
  targetNodeId := m.targetNodeId
  suggestedPeers := m.suggestedPeers
  reason := m.reason
  timestamp := m.timestamp
  signature := m.signature

/-- The writer's struct with the same fields. -/
def suggestToWriter (m : Monitor.PeerSuggest) : Writer.PeerSuggest where
  msgType := m.msgType
  sender := m.sender
  targetNodeId := m.targetNodeId
  suggestedPeers := m.suggestedPeers
  reason := m.reason
  timestamp := m.timestamp
  signature := m.signature

theorem flat_fields_suggest (m : Monitor.PeerSuggest) : ∀ f ∈ m.fields, f.2.Flat := by
  simp [Monitor.PeerSuggest.fields]

/-- The listener takes a suggestion for what it is. -/
theorem listener_classify_suggest (hserde : Json.RoundTrips fromSlice) (henv : env.Reads fromSlice ed)
    {m : Monitor.PeerSuggest} (hm : m.msgType = "peer_suggest") :
    Listener.classify env m.toVec = .suggest (suggestToListener m) := by
  have hread : fromSlice m.toVec = some (.obj m.fields) := hserde _ (flat_fields_suggest m)
  have hsuggest : env.parsePeerSuggest m.toVec = some (suggestToListener m) := by
    rw [henv.suggest, hread]
    show Listener.PeerSuggest.fromJson (.obj m.fields) = _
    rw [Listener.PeerSuggest.fromJson, Json.entries_obj m.nodup_fields]
    simp [Monitor.PeerSuggest.fields, Json.lookup_field, suggestToListener]
  rw [Listener.classify, hsuggest]
  exact if_pos hm

/-- The writer takes a suggestion for what it is. -/
theorem writer_classify_suggest (hserde : Json.RoundTrips fromSlice) {m : Monitor.PeerSuggest}
    (hm : m.msgType = "peer_suggest") :
    Writer.classify fromSlice m.toVec = .suggest (suggestToWriter m) := by
  have hread : fromSlice m.toVec = some (.obj m.fields) := hserde _ (flat_fields_suggest m)
  have hsuggest : fromSlice m.toVec >>= Writer.PeerSuggest.fromJson = some (suggestToWriter m) := by
    rw [hread]
    show Writer.PeerSuggest.fromJson (.obj m.fields) = _
    rw [Writer.PeerSuggest.fromJson, Json.entries_obj m.nodup_fields]
    simp [Monitor.PeerSuggest.fields, Json.lookup_field, suggestToWriter]
  rw [Writer.classify, hsuggest]
  exact if_pos hm

/-! ### Agreement -/

/-- What the writer signs, the listener takes for a notification and verifies. -/
theorem notification_agrees (hserde : Json.RoundTrips fromSlice) (hkey : Genuine ed signingKey key)
    (henv : env.Reads fromSlice ed) {n : Writer.GossipNotification}
    (hsender : n.sender = signingKey.pubkeyHex) :
    env.parsePeerSuggest (n.signedPayload signingKey) = none ∧
      env.parsePeerAnnounce (n.signedPayload signingKey) = none ∧
      ∃ m, env.parseGossipNotification (n.signedPayload signingKey) = some m ∧
        m.verifySignature env.ed25519 = .ok true := by
  have hread : fromSlice (n.signedPayload signingKey) = some (.obj (n.sign signingKey).fields) :=
    hserde _ (n.sign signingKey).flat_fields
  refine ⟨?_, ?_, toListener (n.sign signingKey), ?_, ?_⟩
  · rw [henv.suggest, hread]
    exact suggest_fromJson_notification _
  · rw [henv.announce, hread]
    exact announce_fromJson_notification _
  · rw [henv.notification, hread]
    exact notification_fromJson_notification _
  · rw [henv.ed25519]
    exact Listener.GossipNotification.verifySignature_genuine hkey hsender rfl

/-- What the writer endorses, the listener takes for an endorsement and verifies. -/
theorem writer_endorse_agrees (hserde : Json.RoundTrips fromSlice)
    (hkey : Genuine ed signingKey key) (henv : env.Reads fromSlice ed) (nodeId version : String)
    (keys : List String) (friendlyName : Option String) (now : UInt64) :
    ∃ payload a, Writer.endorsePayload signingKey nodeId version keys friendlyName now = .ok payload ∧
      Listener.classify env payload = .endorse a ∧
      a.verifyEndorseSignature env.ed25519 = .ok (.ok true) := by
  let a := Writer.PeerAnnounce.newEndorse nodeId version signingKey.pubkeyHex keys friendlyName now
  obtain ⟨b, hb⟩ : ∃ b, a.canonicalEndorseBytes = .ok b := ⟨_, rfl⟩
  refine ⟨(a.signedOver signingKey b).toVec, (a.signedOver signingKey b).toListener, ?_, ?_, ?_⟩
  · show (a.signEndorse signingKey >>= fun endorse => pure endorse.toVec) = _
    rw [Writer.PeerAnnounce.signEndorse_eq hb]
    rfl
  · rw [← Writer.PeerAnnounce.toVec_toListener]
    exact listener_classify_endorse hserde henv rfl
  · rw [henv.ed25519]
    exact Listener.PeerAnnounce.verifyEndorseSignature_genuine (a := a.toListener) hkey rfl hb

/-- What the listener endorses, the writer takes for an endorsement and verifies. -/
theorem listener_endorse_agrees (hserde : Json.RoundTrips fromSlice)
    (hkey : Genuine ed signingKey key) (nodeId version : String) (keys : List String)
    (friendlyName : Option String) (now : UInt64) :
    ∃ payload a, Listener.endorsePayload signingKey nodeId version keys friendlyName now = .ok payload ∧
      Writer.classify fromSlice payload = .endorse a ∧
      a.verifyEndorseSignature ed = .ok (.ok true) := by
  -- the writer's struct with the fields of the listener's endorsement
  let a := Writer.PeerAnnounce.newEndorse nodeId version signingKey.pubkeyHex keys friendlyName now
  obtain ⟨b, hb⟩ : ∃ b, a.toListener.canonicalEndorseBytes = .ok b := ⟨_, rfl⟩
  refine ⟨(a.toListener.signedOver signingKey b).toVec, a.signedOver signingKey b, ?_, ?_, ?_⟩
  · show (a.toListener.signEndorse signingKey >>= fun endorse => pure endorse.toVec) = _
    rw [Listener.PeerAnnounce.signEndorse_eq hb]
    rfl
  · exact writer_classify_endorse (a := a.signedOver signingKey b) hserde rfl
  · exact Listener.PeerAnnounce.verifyEndorseSignature_genuine (a := a.toListener) hkey rfl hb

/-- What the monitor suggests, the listener and the writer take for a suggestion and verify. -/
theorem suggest_agrees (hserde : Json.RoundTrips fromSlice) (hkey : Genuine ed signingKey key)
    (henv : env.Reads fromSlice ed) (suggestion : Monitor.PeerSuggestion) (now : UInt64) :
    (∃ m, Listener.classify env (Monitor.PeerSuggest.build signingKey now suggestion).toVec =
        .suggest m ∧ m.verifySignature env.ed25519 = .ok true) ∧
      ∃ m, Writer.classify fromSlice (Monitor.PeerSuggest.build signingKey now suggestion).toVec =
        .suggest m ∧ m.verifySignature ed = .ok true := by
  constructor
  · refine ⟨_, listener_classify_suggest hserde henv rfl, ?_⟩
    rw [henv.ed25519]
    exact Listener.PeerSuggest.verifySignature_genuine hkey rfl rfl
  · refine ⟨_, writer_classify_suggest hserde rfl, ?_⟩
    rw [← Writer.PeerSuggest.verifySignature_toListener]
    exact Listener.PeerSuggest.verifySignature_genuine hkey rfl rfl

/-- **Signers and verifiers agree**: with any parser that takes back the flat objects and any genuine
signer,

* a notification the writer signs is at the listener no suggestion and no announcement, is taken for a
  notification, and verifies;
* an endorsement of the writer at the listener, and of the listener at the writer, reaches the branch
  for endorsements and verifies;
* a suggestion of the monitor is taken for one at the listener and at the writer, and verifies. -/
theorem signers_and_verifiers_agree (hserde : Json.RoundTrips fromSlice)
    (hkey : Genuine ed signingKey key) (henv : env.Reads fromSlice ed) :
    (∀ n : Writer.GossipNotification,
      let payload := ({ n with sender := signingKey.pubkeyHex }).signedPayload signingKey
      env.parsePeerSuggest payload = none ∧ env.parsePeerAnnounce payload = none ∧
        ∃ m, env.parseGossipNotification payload = some m ∧
          m.verifySignature env.ed25519 = .ok true) ∧
    (∀ nodeId version keys friendlyName now,
      (∃ payload a,
        Writer.endorsePayload signingKey nodeId version keys friendlyName now = .ok payload ∧
        Listener.classify env payload = .endorse a ∧
        a.verifyEndorseSignature env.ed25519 = .ok (.ok true)) ∧
      ∃ payload a,
        Listener.endorsePayload signingKey nodeId version keys friendlyName now = .ok payload ∧
        Writer.classify fromSlice payload = .endorse a ∧
        a.verifyEndorseSignature ed = .ok (.ok true)) ∧
    ∀ suggestion now,
      let payload := (Monitor.PeerSuggest.build signingKey now suggestion).toVec
      (∃ m, Listener.classify env payload = .suggest m ∧
        m.verifySignature env.ed25519 = .ok true) ∧
      ∃ m, Writer.classify fromSlice payload = .suggest m ∧ m.verifySignature ed = .ok true := by
  refine ⟨fun n => ?_, fun nodeId version keys friendlyName now => ⟨?_, ?_⟩, fun suggestion now => ?_⟩
  · exact notification_agrees hserde hkey henv rfl
  · exact writer_endorse_agrees hserde hkey henv nodeId version keys friendlyName now
  · exact listener_endorse_agrees hserde hkey nodeId version keys friendlyName now
  · exact suggest_agrees hserde hkey henv suggestion now

/-! ### A small world -/

/-- A key that signs with the first bytes of the message. -/
def plainKey : SigningKey where
  pubkeyHex := Hex.encode (List.replicate 32 0)
  sign := fun m => ⟨(m ++ List.replicate 64 0).take 64, by simp⟩

/-- An ed25519 that accepts the signatures of this key only. -/
def plainEd25519 : Ed25519 where
  verifyingKey := fun _ => true
  verify := fun k m sig => k = .replicate 32 0 ∧ sig = plainKey.sign m

theorem genuine_plainKey : Genuine plainEd25519 plainKey (.replicate 32 0) where
  pubkeyHex := rfl
  verifyingKey := rfl
  verify := fun _ => decide_eq_true ⟨rfl, rfl⟩

/-- A notification. -/
def plainNotification : Writer.GossipNotification :=
  .new plainKey.pubkeyHex "podcast" "update" ["http://a", "\"\n"] (some 7) 1700000000

/-- A listener that reads with `Json.fromBytes`. -/
def plainReader : Env :=
  { Listener.plainEnv (toListener plainNotification) with
    parsePeerSuggest := fun raw => Json.fromBytes raw >>= Listener.PeerSuggest.fromJson
    parsePeerAnnounce := fun raw => Json.fromBytes raw >>= Listener.PeerAnnounce.fromJson
    parseGossipNotification := fun raw => Json.fromBytes raw >>= Listener.GossipNotification.fromJson
    ed25519 := plainEd25519 }

theorem plainReader_reads : plainReader.Reads Json.fromBytes plainEd25519 where
  suggest := fun _ => rfl
  announce := fun _ => rfl
  notification := fun _ => rfl
  ed25519 := rfl

theorem plainNotification_verified :
    ∃ m, plainReader.parseGossipNotification (plainNotification.signedPayload plainKey) = some m ∧
      m.verifySignature plainEd25519 = .ok true :=
  ((signers_and_verifiers_agree Json.roundTrips_fromBytes genuine_plainKey plainReader_reads).1
    plainNotification).2.2

end PodpingAlpha.Wire
