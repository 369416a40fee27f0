import PodpingAlpha.Library.Bytes
import PodpingAlpha.Library.Outcome
import Mathlib.Data.Finset.Image
import Mathlib.Data.List.ReduceOption

/-!
# DHT records

`dtt-fork/src/crypto/record.rs` with the key derivation of `crypto/keys.rs`: the signed record a
node publishes about itself, its encryption for the time slot, and the retrieval of all the records
of a slot. The slot's DHT key is derived from public data, so the values found there may be
anybody's.

## The model

Hashing, HPKE and ed25519 are parameters (`Primitives`); signing keys are their 32-byte seeds. The
retrieval is given what `dht.get` returned. A computation is an outcome of `Library.Outcome`, so
that a panic is not confused with the `Err` the callers handle.

## What is proved

* `encryptedRecord_fromBytes_returns`, `record_fromBytes_returns` — the lengths on which the two
  decoders return at all.
* `getRecords_iff` — the retrieval returns, each value deciding only for itself, exactly when every
  value is framed and decrypts to nothing or to at least 136 bytes.
-/

namespace PodpingAlpha.Dtt.Crypto

open Outcome

/-- `[u8; 32]`. -/
abbrev Bytes32 := List.Vector UInt8 32

/-- `[u8; 64]`. -/
abbrev Bytes64 := List.Vector UInt8 64

/-- A `RotationHandle`: topic hash, minute and secret hash to a key. -/
abbrev RotationHandle := Bytes32 → UInt64 → Bytes32 → Bytes32

/-- The primitives the crate takes from elsewhere. -/
structure Primitives where
  /-- The first 32 bytes of SHA512. -/
  sha512 : Bytes → Bytes32
  /-- `signing_key.decrypt(bytes)` (HPKE); the key is its seed. -/
  decrypt : Bytes32 → Bytes → Except String Bytes
  /-- `VerifyingKey::from_bytes(key)` is `Ok`. -/
  verifyingKey : Bytes32 → Bool
  /-- `verifying_key.verify_strict(message, signature)` is `Ok`. -/
  verifyStrict : Bytes32 → Bytes → Bytes64 → Bool

/-- A signed record. -/
structure Record where
  /-- The topic hash. -/
  topic : Bytes32
  /-- The time slot. -/
  unixMinute : UInt64
  /-- The publisher. -/
  pubKey : Bytes32
  /-- The content, as serialized by postcard. -/
  content : Bytes
  /-- The signature over all of the above. -/
  signature : Bytes64
  deriving DecidableEq

/-- An encrypted record with the encrypted key to it. -/
structure EncryptedRecord where
  /-- The record, encrypted for a one-time key. -/
  encryptedRecord : Bytes
  /-- The one-time key, encrypted for the slot's key. -/
  encryptedDecryptionKey : Bytes
  deriving DecidableEq

/-- A node's publisher. -/
structure RecordPublisher where
  /-- The topic hash. -/
  recordTopic : Bytes32
  /-- The node's own key. -/
  pubKey : Bytes32
  /-- The key rotation, if not the default one. -/
  secretRotation : Option RotationHandle
  /-- The hash of the shared secret. -/
  initialSecretHash : Bytes32

/-! ### Codecs -/

/-- `EncryptedRecord::from_bytes`. -/
def EncryptedRecord.fromBytes (buf : Bytes) : Fallible String EncryptedRecord := do
  let (encryptedRecordLen, buf) ← splitAt 4 buf
  let encryptedRecordLen ← ofResult (tryIntoArray 4 encryptedRecordLen)
  let (encryptedRecord, encryptedDecryptionKey) ← splitAt (Bytes.ofLe encryptedRecordLen.toList) buf
  pure { encryptedRecord, encryptedDecryptionKey }

/-- `Record::from_bytes`. Where `buf.len() - 64` wraps around instead of panicking, the split that
follows it panics. -/
def Record.fromBytes (buf : Bytes) : Fallible String Record := do
  let (topic, buf) ← splitAt 32 buf
  let (unixMinute, buf) ← splitAt 8 buf
  let (nodeId, buf) ← splitAt 32 buf
  let contentLen ← checkedSub buf.length 64
  let (recordContent, buf) ← splitAt contentLen buf
  let (signature, buf) ← splitAt 64 buf
  bailIf (buf ≠ []) "buffer not empty after reconstruction"
  let topic ← ofResult (tryIntoArray 32 topic)
  let unixMinute ← ofResult (tryIntoArray 8 unixMinute)
  let pubKey ← ofResult (tryIntoArray 32 nodeId)
  let signature ← ofResult (tryIntoArray 64 signature)
  pure { topic, unixMinute := UInt64.ofNat (Bytes.ofLe unixMinute.toList), pubKey,
         content := recordContent, signature }

/-- `Record::to_bytes`. -/
def Record.toBytes (r : Record) : Bytes :=
  r.topic.toList ++ Bytes.toLe 8 r.unixMinute.toNat ++ r.pubKey.toList ++ r.content ++
    r.signature.toList

/-- The length prefix is there, and so are as many bytes as it announces. -/
def Framed (buf : Bytes) : Prop := 4 ≤ buf.length ∧ 4 + Bytes.ofLe (buf.take 4) ≤ buf.length

instance (buf : Bytes) : Decidable (Framed buf) := inferInstanceAs (Decidable (_ ∧ _))

/-- The two parts of a framed byte string. -/
def frameParts (buf : Bytes) : EncryptedRecord where
  encryptedRecord := (buf.drop 4).take (Bytes.ofLe (buf.take 4))
  encryptedDecryptionKey := (buf.drop 4).drop (Bytes.ofLe (buf.take 4))

/-- `EncryptedRecord::from_bytes` returns on the framed byte strings. -/
theorem encryptedRecord_fromBytes_returns {buf : Bytes} :
    Returns (EncryptedRecord.fromBytes buf) ↔ Framed buf := by
  rw [EncryptedRecord.fromBytes, Framed]
  simp only [returns_splitAt_bind, returns_ofResult_bind, tryIntoArray_eq_ok, returns_pure, and_true,
    List.length_drop]
  refine and_congr_right fun h4 => ?_
  constructor
  · intro h
    have hlen := h ⟨buf.take 4, by simpa using h4⟩ rfl
    rw [List.Vector.toList_mk] at hlen
    omega
  · rintro h len hlen
    rw [hlen]
    omega

/-- On a framed byte string it returns `Ok`. -/
theorem encryptedRecord_fromBytes_run {buf : Bytes} (h : Framed buf) :
    (EncryptedRecord.fromBytes buf).run = .ok (.ok (frameParts buf)) := by
  show Yields _ _
  obtain ⟨h4, hlen⟩ := h
  rw [EncryptedRecord.fromBytes]
  simp only [yields_splitAt_bind, yields_ofResult_bind, tryIntoArray_eq_ok]
  refine ⟨h4, ⟨buf.take 4, by simpa using h4⟩, rfl, ?_, rfl⟩
  rw [List.Vector.toList_mk, List.length_drop]
  omega

/-- `Record::from_bytes` returns on the byte strings that have room for the fields around the
content. -/
theorem record_fromBytes_returns {buf : Bytes} :
    Returns (Record.fromBytes buf) ↔ 136 ≤ buf.length := by
  rw [Record.fromBytes]
  simp only [returns_splitAt_bind, returns_checkedSub_bind, List.length_drop]
  constructor
  · rintro ⟨h32, h8, h32', h64, -⟩
    omega
  · intro h
    refine ⟨by omega, by omega, by omega, by omega, by omega, by omega, ?_⟩
    simp only [returns_bailIf_bind, returns_ofResult_bind, returns_pure, implies_true]

@[simp] theorem record_length_toBytes (r : Record) : r.toBytes.length = 136 + r.content.length := by
  simp only [Record.toBytes, List.length_append, List.Vector.toList_length, Bytes.length_toLe]
  omega

/-! ### Retrieval -/

/-- `DefaultSecretRotation::derive`. -/
def defaultSecretRotation (P : Primitives) : RotationHandle := fun topic minute secret =>
  P.sha512 (topic.toList ++ (Bytes.toLe 8 minute.toNat).reverse ++ secret.toList)

/-- `keys::encryption_keypair`. -/
def encryptionKeypair (p : RecordPublisher) (rotation : RotationHandle) (unixMinute : UInt64) :
    Bytes32 :=
  rotation p.recordTopic unixMinute p.initialSecretHash

/-- The bytes `EncryptedRecord::decrypt` reads a record from. -/
def EncryptedRecord.plaintext (P : Primitives) (key : Bytes32) (e : EncryptedRecord) :
    Except String Bytes := do
  let oneTimeKeyBytes ← P.decrypt key e.encryptedDecryptionKey
  let oneTimeKey ← tryIntoArray 32 oneTimeKeyBytes
  P.decrypt oneTimeKey e.encryptedRecord

/-- `EncryptedRecord::decrypt`. -/
def EncryptedRecord.decrypt (P : Primitives) (key : Bytes32) (e : EncryptedRecord) :
    Fallible String Record := do
  let decryptedRecord ← ofResult (e.plaintext P key)
  Record.fromBytes decryptedRecord

/-- `Record::verify`. -/
def Record.verify (P : Primitives) (r : Record) (actualTopic : Bytes32) (actualUnixMinute : UInt64) :
    Fallible String Unit := do
  bailIf (r.topic ≠ actualTopic) "topic mismatch"
  bailIf (r.unixMinute ≠ actualUnixMinute) "unix minute mismatch"
  let recordBytes := r.toBytes
  let n ← checkedSub recordBytes.length 64
  let signatureData ← sliceTo n recordBytes
  bailIf (!P.verifyingKey r.pubKey) "invalid public key"
  bailIf (!P.verifyStrict r.pubKey signatureData r.signature) "signature error"

/-- The closure `get_records` maps over the values: a value that does not decode, does not verify
or is the node's own gives nothing. -/
def RecordPublisher.openValue (P : Primitives) (p : RecordPublisher) (unixMinute : UInt64)
    (value : Bytes) : Rust (Option Record) := do
  let key := encryptionKeypair p (p.secretRotation.getD (defaultSecretRotation P)) unixMinute
  match ← (EncryptedRecord.fromBytes value).run with
  | .error _ => pure none
  | .ok encryptedRecord =>
    match ← (encryptedRecord.decrypt P key).run with
    | .error _ => pure none
    | .ok record =>
      match ← (record.verify P p.recordTopic unixMinute).run with
      | .error _ => pure none
      | .ok _ => pure (if record.pubKey = p.pubKey then none else some record)

/-- `RecordPublisher::get_records`, given what `dht.get` returned. -/
def RecordPublisher.getRecords (P : Primitives) (p : RecordPublisher) (unixMinute : UInt64)
    (dht : Except String (List Bytes)) : Rust (Finset Record) := do
  let recordsIter := dht.toOption.getD []
  let verifiedRecords ← recordsIter.mapM (p.openValue P unixMinute)
  pure verifiedRecords.reduceOption.toFinset

/-! ### What the retrieval returns -/

/-- The value is framed and, if it decrypts, decrypts to no less than a record's fixed fields. -/
def Readable (P : Primitives) (key : Bytes32) (value : Bytes) : Prop :=
  Framed value ∧ ∀ plain, (frameParts value).plaintext P key = .ok plain → 136 ≤ plain.length

theorem decrypt_returns {P : Primitives} {key : Bytes32} {e : EncryptedRecord} :
    Returns (e.decrypt P key) ↔ ∀ plain, e.plaintext P key = .ok plain → 136 ≤ plain.length := by
  simp only [EncryptedRecord.decrypt, returns_ofResult_bind, record_fromBytes_returns]

/-- `verify` takes its signature off bytes that are long enough. -/
theorem verify_returns (P : Primitives) (r : Record) (topic : Bytes32) (minute : UInt64) :
    Returns (r.verify P topic minute) := by
  have hlen : 64 ≤ r.toBytes.length := by
    rw [record_length_toBytes]
    omega
  simp only [Record.verify, returns_bailIf_bind, returns_checkedSub_bind, returns_sliceTo_bind,
    returns_bailIf, implies_true, and_true]
  exact fun _ _ => ⟨hlen, Nat.sub_le _ _⟩

/-- The key of the slot. -/
def RecordPublisher.slotKey (P : Primitives) (p : RecordPublisher) (unixMinute : UInt64) : Bytes32 :=
  encryptionKeypair p (p.secretRotation.getD (defaultSecretRotation P)) unixMinute

/-- A value is opened without a panic exactly when both decoders return on what they are given. -/
theorem openValue_returns {P : Primitives} {p : RecordPublisher} {minute : UInt64} {value : Bytes} :
    (∃ o, p.openValue P minute value = .ok o) ↔ Readable P (p.slotKey P minute) value := by
  rw [RecordPublisher.openValue]
  rw [rust_returns_bind]
  constructor
  · rintro ⟨r, hr, ho⟩
    have hframed : Framed value := encryptedRecord_fromBytes_returns.1 ⟨r, hr⟩
    rw [encryptedRecord_fromBytes_run hframed] at hr
    cases hr
    obtain ⟨r, hr, -⟩ := rust_returns_bind.1 ho
    exact ⟨hframed, decrypt_returns.1 ⟨r, hr⟩⟩
  · rintro ⟨hframed, hplain⟩
    obtain ⟨r, hr⟩ := decrypt_returns.2 hplain
    refine ⟨_, encryptedRecord_fromBytes_run hframed, rust_returns_bind.2 ⟨r, hr, ?_⟩⟩
    cases r with
    | error e => exact ⟨none, rfl⟩
    | ok record =>
      obtain ⟨v, hv⟩ := verify_returns P record p.recordTopic minute
      refine rust_returns_bind.2 ⟨v, hv, ?_⟩
      cases v with
      | error e => exact ⟨none, rfl⟩
      | ok u => exact ⟨_, rfl⟩

/-- The values of a slot. -/
def slotValues (dht : Except String (List Bytes)) : List Bytes := dht.toOption.getD []

theorem getRecords_eq_ok {P : Primitives} {p : RecordPublisher} {minute : UInt64}
    {dht : Except String (List Bytes)} {rs : Finset Record} :
    p.getRecords P minute dht = .ok rs →
      ∀ r, r ∈ rs ↔ ∃ value ∈ slotValues dht, p.openValue P minute value = .ok (some r) := by
  intro h r
  unfold RecordPublisher.getRecords at h
  cases hm : (slotValues dht).mapM (p.openValue P minute) with
  | error e =>
    rw [slotValues] at hm
    simp only [hm] at h
    cases h
  | ok verifiedRecords =>
    rw [← mem_of_mapM hm]
    rw [slotValues] at hm
    simp only [hm] at h
    cases h
    rw [List.mem_toFinset, List.reduceOption_mem_iff]

/-- The retrieval returns when every value of the slot is readable. -/
theorem getRecords_returns {P : Primitives} {p : RecordPublisher} {minute : UInt64}
    {dht : Except String (List Bytes)} :
    (∃ rs, p.getRecords P minute dht = .ok rs) ↔
      ∀ value ∈ slotValues dht, Readable P (p.slotKey P minute) value := by
  simp only [← openValue_returns, ← mapM_returns]
  rw [RecordPublisher.getRecords]
  rw [rust_returns_bind]
  exact exists_congr fun _ => and_iff_left ⟨_, rfl⟩

/-- **The retrieval of a slot**: the decoders return on the lengths that hold their fields, and
`get_records` returns the records of the values, each value deciding for itself, exactly when every
value of the slot is readable. Whoever writes one value that is not stops the caller. -/
theorem getRecords_iff (P : Primitives) (p : RecordPublisher) (minute : UInt64)
    (dht : Except String (List Bytes)) :
    (∀ buf, Returns (EncryptedRecord.fromBytes buf) ↔ Framed buf) ∧
      (∀ buf, Returns (Record.fromBytes buf) ↔ 136 ≤ buf.length) ∧
      ((∃ rs, p.getRecords P minute dht = .ok rs ∧
          ∀ r, r ∈ rs ↔ ∃ value ∈ slotValues dht, p.openValue P minute value = .ok (some r)) ↔
        ∀ value ∈ slotValues dht, Readable P (p.slotKey P minute) value) := by
  refine ⟨fun _ => encryptedRecord_fromBytes_returns, fun _ => record_fromBytes_returns, ?_⟩
  rw [← getRecords_returns]
  exact exists_congr fun rs => and_iff_left_of_imp getRecords_eq_ok

/-- Three values that stop the retrieval: one shorter than the length prefix, one that announces
more than it holds, and one that decrypts (here by the identity) to a truncated record. -/
theorem getRecords_panics :
    let P : Primitives :=
      { sha512 := fun _ => .replicate 32 0, decrypt := fun _ b => .ok b,
        verifyingKey := fun _ => true, verifyStrict := fun _ _ _ => true }
    let p : RecordPublisher :=
      { recordTopic := .replicate 32 1, pubKey := .replicate 32 2, secretRotation := none,
        initialSecretHash := .replicate 32 3 }
    p.getRecords P 0 (.ok [[0, 1, 2]]) = .error .outOfRange ∧
      p.getRecords P 0 (.ok [[255, 255, 255, 255, 7]]) = .error .outOfRange ∧
      p.getRecords P 0 (.ok [[3, 0, 0, 0, 9, 9, 9] ++ List.replicate 32 5]) = .error .outOfRange :=
  ⟨rfl, rfl, rfl⟩

end PodpingAlpha.Dtt.Crypto
