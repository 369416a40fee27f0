import PodpingAlpha.Library.JsonReader

/-!
# Canonical messages

What the signatures cover: the three canonical structs of the crates, and their compact JSON. A
field that is absent leaves no trace in the text, and the three structs begin with different keys.

* `Canonical.toVec_injective` — the bytes determine which struct it is and all its fields.
-/

namespace PodpingAlpha.Wire

/-- `CanonicalNotification`. -/
structure CanonicalNotification where
  /-- The feeds. -/
  iris : List String
  /-- The medium of all its feeds. -/
  medium : String
  /-- What happened to them. -/
  reason : String
  /-- The number of the notification. -/
  seq : Option UInt64
  /-- The signer. -/
  sender : String
  /-- When it was built. -/
  timestamp : UInt64
  /-- The format version. -/
  version : String
  deriving DecidableEq

/-- `CanonicalPeerEndorse`. -/
structure CanonicalPeerEndorse where
  /-- The node's name. -/
  friendlyName : Option String
  /-- The node. -/
  nodeId : String
  /-- The endorsed keys. -/
  nodeList : List String
  /-- The signer. -/
  sender : String
  /-- When it was built. -/
  timestamp : UInt64
  /-- `type`. -/
  msgType : String
  /-- The node's version. -/
  version : String
  deriving DecidableEq

/-- `CanonicalPeerSuggest`. -/
structure CanonicalPeerSuggest where
  /-- Why. -/
  reason : String
  /-- The signer. -/
  sender : String
  /-- The peers to join. -/
  suggestedPeers : List String
  /-- Whom it is for. -/
  targetNodeId : String
  /-- When it was built. -/
  timestamp : UInt64
  /-- `type`. -/
  msgType : String
  deriving DecidableEq

/-- What a signature covers. -/
inductive Canonical where
  | notification (c : CanonicalNotification)
  | endorse (c : CanonicalPeerEndorse)
  | suggest (c : CanonicalPeerSuggest)
  deriving DecidableEq

/-! ### The encoding -/

/-- The fields that are serialised. -/
def CanonicalNotification.fields (c : CanonicalNotification) : List (String × Json) :=
  [("iris", .arr (c.iris.map .str)), ("medium", .str c.medium), ("reason", .str c.reason)] ++
    Json.optionalField "seq" .u64 c.seq ++
    [("sender", .str c.sender), ("timestamp", .u64 c.timestamp), ("version", .str c.version)]

/-- The fields that are serialised. -/
def CanonicalPeerEndorse.fields (c : CanonicalPeerEndorse) : List (String × Json) :=
  Json.optionalField "friendly_name" .str c.friendlyName ++
    [("node_id", .str c.nodeId), ("node_list", .arr (c.nodeList.map .str)),
      ("sender", .str c.sender), ("timestamp", .u64 c.timestamp), ("type", .str c.msgType),
      ("version", .str c.version)]

/-- The fields that are serialised. -/
def CanonicalPeerSuggest.fields (c : CanonicalPeerSuggest) : List (String × Json) :=
  [("reason", .str c.reason), ("sender", .str c.sender),
    ("suggested_peers", .arr (c.suggestedPeers.map .str)), ("target_node_id", .str c.targetNodeId),
    ("timestamp", .u64 c.timestamp), ("type", .str c.msgType)]

/-- The fields that are serialised. -/
def Canonical.fields : Canonical → List (String × Json)
  | .notification c => c.fields
  | .endorse c => c.fields
  | .suggest c => c.fields

/-- `serde_json::to_vec`. -/
def Canonical.toVec (c : Canonical) : Bytes := (Json.obj c.fields).toBytes

/-! ### Injectivity -/

theorem strings_injective {l l' : List String} (h : l.map Json.str = l'.map Json.str) : l = l' := by
  have hstr : Function.Injective Json.str := fun _ _ => Json.str.inj
  exact hstr.list_map h

theorem u64_injective {n n' : UInt64} (h : Json.u64 n = Json.u64 n') : n = n' :=
  UInt64.toNat_inj.1 (Json.num.inj h)

/-- A notification whose fields are those of another is the other. -/
theorem CanonicalNotification.fields_injective : Function.Injective fields := by
  rintro ⟨iris, medium, reason, seq, sender, timestamp, version⟩
    ⟨iris', medium', reason', seq', sender', timestamp', version'⟩ h
  cases seq <;> cases seq' <;> simp [fields, Json.optionalField] at h ⊢
  · obtain ⟨hiris, hmedium, hreason, hsender, htime, hversion⟩ := h
    exact ⟨strings_injective hiris, hmedium, hreason, hsender, u64_injective htime, hversion⟩
  · obtain ⟨hiris, hmedium, hreason, hseq, hsender, htime, hversion⟩ := h
    exact ⟨strings_injective hiris, hmedium, hreason, u64_injective hseq, hsender,
      u64_injective htime, hversion⟩

/-- An endorsement whose fields are those of another is the other. -/
theorem CanonicalPeerEndorse.fields_injective : Function.Injective fields := by
  rintro ⟨name, nodeId, nodeList, sender, timestamp, msgType, version⟩
    ⟨name', nodeId', nodeList', sender', timestamp', msgType', version'⟩ h
  cases name <;> cases name' <;> simp [fields, Json.optionalField] at h ⊢
  · obtain ⟨hid, hlist, hsender, htime, htype, hversion⟩ := h
    exact ⟨hid, strings_injective hlist, hsender, u64_injective htime, htype, hversion⟩
  · obtain ⟨hname, hid, hlist, hsender, htime, htype, hversion⟩ := h
    exact ⟨hname, hid, strings_injective hlist, hsender, u64_injective htime, htype, hversion⟩

/-- A suggestion whose fields are those of another is the other. -/
theorem CanonicalPeerSuggest.fields_injective : Function.Injective fields := by
  rintro ⟨reason, sender, peers, target, timestamp, msgType⟩
    ⟨reason', sender', peers', target', timestamp', msgType'⟩ h
  simp [fields] at h ⊢
  obtain ⟨hreason, hsender, hpeers, htarget, htime, htype⟩ := h
  exact ⟨hreason, hsender, strings_injective hpeers, htarget, u64_injective htime, htype⟩

/-- The first key of an endorsement. -/
theorem CanonicalPeerEndorse.head_fields (c : CanonicalPeerEndorse) :
    ∃ v fs, c.fields = ("friendly_name", v) :: fs ∨ c.fields = ("node_id", v) :: fs := by
  unfold fields
  cases c.friendlyName with
  | none => exact ⟨_, _, .inr rfl⟩
  | some name => exact ⟨_, _, .inl rfl⟩

/-- The fields determine the message: the three structs begin with different keys. -/
theorem Canonical.fields_injective : Function.Injective fields := by
  intro c c' h
  cases c with
  | notification c =>
    cases c' with
    | notification c' => exact congrArg _ (CanonicalNotification.fields_injective h)
    | endorse c' =>
      obtain ⟨v, fs, hfs | hfs⟩ := c'.head_fields <;>
        simp [fields, hfs, CanonicalNotification.fields] at h
    | suggest c' => simp [fields, CanonicalNotification.fields, CanonicalPeerSuggest.fields] at h
  | endorse c =>
    obtain ⟨v, fs, hfs⟩ := c.head_fields
    cases c' with
    | notification c' =>
      rcases hfs with hfs | hfs <;> simp [fields, hfs, CanonicalNotification.fields] at h
    | endorse c' => exact congrArg _ (CanonicalPeerEndorse.fields_injective h)
    | suggest c' =>
      rcases hfs with hfs | hfs <;> simp [fields, hfs, CanonicalPeerSuggest.fields] at h
  | suggest c =>
    cases c' with
    | notification c' =>
      simp [fields, CanonicalNotification.fields, CanonicalPeerSuggest.fields] at h
    | endorse c' =>
      obtain ⟨v, fs, hfs | hfs⟩ := c'.head_fields <;>
        simp [fields, hfs, CanonicalPeerSuggest.fields] at h
    | suggest c' => exact congrArg _ (CanonicalPeerSuggest.fields_injective h)

/-- **The bytes determine the message.** -/
theorem Canonical.toVec_injective : Function.Injective toVec := by
  intro c c' h
  have hjson := Json.toBytes_injective h
  exact fields_injective (Json.obj.inj hjson)

end PodpingAlpha.Wire
