import PodpingAlpha.Dtt.Record

/-!
# Publishing DHT records

The writing side of `dtt-fork/src/crypto/record.rs`: how a node builds and signs the record about
itself, encrypts it for a time slot and serialises it, against the retrieval of `Dtt.Record`.

## The model

A `Keyring` is the half of ed25519 and HPKE that `Primitives` leaves out. Encryption draws its
randomness from `rng`, which is an argument here, as is the one-time key; a content is serialised by
postcard, which may fail.

## What is proved

* `record_fromBytes_yields`, `encryptedRecord_fromBytes_yields` — what the two decoders accept, and
  `codecs_inverse`, that they and the encoders are inverses.
* `openValue_eq_some` — which record a value of a slot gives.
* `getRecords_published` — every other node of the slot retrieves a published record, and retrieves
  nothing but verified records of others. An encryption of 2³² bytes or more is out of reach of the
  length prefix (`long_record_lost`).
-/

namespace PodpingAlpha.Dtt.Crypto

open Outcome

/-! ### The codecs -/

/-- `EncryptedRecord::to_bytes`. The length is cast to 32 bits. -/
def EncryptedRecord.toBytes (e : EncryptedRecord) : Bytes :=
  let encryptedRecordLen := e.encryptedRecord.length % 2 ^ 32
  Bytes.toLe 4 encryptedRecordLen ++ e.encryptedRecord ++ e.encryptedDecryptionKey

/-- The fields of a record, in the order in which it is serialised. -/
theorem record_toBytes_injective {r r' : Record} (h : r.toBytes = r'.toBytes) : r = r' := by
  have hlen : r.content.length = r'.content.length := by
    have := congrArg List.length h
    simp only [record_length_toBytes] at this
    omega
  simp only [Record.toBytes, List.append_assoc] at h
  obtain ⟨htopic, h⟩ := List.append_inj h (by simp)
  obtain ⟨hminute, h⟩ := List.append_inj h (by simp)
  obtain ⟨hkey, h⟩ := List.append_inj h (by simp)
  obtain ⟨hcontent, hsig⟩ := List.append_inj h hlen
  have hminute' := congrArg Bytes.ofLe hminute
  rw [Bytes.ofLe_toLe r.unixMinute.toNat_lt, Bytes.ofLe_toLe r'.unixMinute.toNat_lt] at hminute'
  cases r
  cases r'
  simp only at htopic hminute' hkey hcontent hsig
  rw [List.Vector.toList_injective htopic, List.Vector.toList_injective hkey,
    List.Vector.toList_injective hsig, hcontent, UInt64.toNat_inj.1 hminute']

/-- The minute that eight bytes hold. -/
theorem toLe_ofNat (minute : List.Vector UInt8 8) :
    Bytes.toLe 8 (UInt64.ofNat (Bytes.ofLe minute.toList)).toNat = minute.toList := by
  have hlt := Bytes.ofLe_lt minute.toList
  have hle := Bytes.toLe_ofLe minute.toList
  rw [minute.toList_length] at hlt hle
  rw [UInt64.toNat_ofNat_of_lt' hlt, hle]

/-- `Record::from_bytes` reads a record from every long enough buffer, the one it serialises. -/
theorem record_fromBytes_some {buf : Bytes} (h : 136 ≤ buf.length) :
    ∃ r : Record, Yields (Record.fromBytes buf) r ∧ r.toBytes = buf := by
  obtain ⟨n, hn⟩ := Nat.exists_eq_add_of_le h
  let topic : Bytes32 := ⟨buf.take 32, by simp; omega⟩
  let minute : List.Vector UInt8 8 := ⟨(buf.drop 32).take 8, by simp; omega⟩
  let pubKey : Bytes32 := ⟨(buf.drop 40).take 32, by simp; omega⟩
  let content := (buf.drop 72).take n
  let signature : Bytes64 := ⟨(buf.drop (72 + n)).take 64, by simp; omega⟩
  refine ⟨⟨topic, UInt64.ofNat (Bytes.ofLe minute.toList), pubKey, content, signature⟩, ?_, ?_⟩
  · have hcontent : buf.length - 72 - 64 = n := by omega
    rw [Record.fromBytes]
    simp only [yields_splitAt_bind, yields_checkedSub_bind, yields_bailIf_bind, yields_ofResult_bind,
      tryIntoArray_eq_ok, yields_pure, List.length_drop, List.drop_drop, Nat.reduceAdd, hcontent]
    refine ⟨by omega, by omega, by omega, by omega, by omega, by omega, ?_, topic, rfl, minute, rfl,
      pubKey, rfl, signature, rfl, rfl⟩
    rw [not_not, List.drop_eq_nil_iff]
    omega
  · have hrest : (buf.drop (72 + n)).take 64 = buf.drop (72 + n) := by
      rw [List.take_of_length_le]
      rw [List.length_drop]
      omega
    rw [Record.toBytes]
    rw [toLe_ofNat]
    show buf.take 32 ++ (buf.drop 32).take 8 ++ (buf.drop 40).take 32 ++ (buf.drop 72).take n ++
      (buf.drop (72 + n)).take 64 = buf
    rw [hrest, ← List.take_add, ← List.take_add, ← List.take_add, List.take_append_drop]

/-- **What `Record::from_bytes` accepts**: the bytes of the record it returns. -/
theorem record_fromBytes_yields {buf : Bytes} {r : Record} :
    Yields (Record.fromBytes buf) r ↔ r.toBytes = buf := by
  constructor
  · intro h
    obtain ⟨r', hr', hbuf⟩ := record_fromBytes_some (record_fromBytes_returns.1 ⟨_, h⟩)
    cases h.symm.trans hr'
    exact hbuf
  · intro h
    have hlen : 136 ≤ buf.length := by
      rw [← h, record_length_toBytes]
      exact Nat.le_add_right _ _
    obtain ⟨r', hr', hbuf⟩ := record_fromBytes_some hlen
    rwa [record_toBytes_injective (h.trans hbuf.symm)]

/-- The parts of a framed buffer serialise to it. -/
theorem toBytes_frameParts {buf : Bytes} (h : Framed buf) :
    (frameParts buf).toBytes = buf ∧ (frameParts buf).encryptedRecord.length < 2 ^ 32 := by
  obtain ⟨h4, hlen⟩ := h
  have hlength : (buf.take 4).length = 4 := by simpa using h4
  have hlt : Bytes.ofLe (buf.take 4) < 2 ^ 32 := by
    have hlt := Bytes.ofLe_lt (buf.take 4)
    rwa [hlength] at hlt
  have hle := Bytes.toLe_ofLe (buf.take 4)
  rw [hlength] at hle
  have hrecord : (frameParts buf).encryptedRecord.length = Bytes.ofLe (buf.take 4) := by
    rw [frameParts]
    rw [List.length_take, List.length_drop]
    omega
  refine ⟨?_, hrecord ▸ hlt⟩
  rw [EncryptedRecord.toBytes]
  rw [hrecord, Nat.mod_eq_of_lt hlt, hle, frameParts]
  rw [List.append_assoc, List.take_append_drop, List.take_append_drop]

/-- The length prefix of an encrypted record, and what follows it. -/
theorem prefix_toBytes (e : EncryptedRecord) :
    Bytes.ofLe (e.toBytes.take 4) = e.encryptedRecord.length % 2 ^ 32 ∧
      e.toBytes.drop 4 = e.encryptedRecord ++ e.encryptedDecryptionKey := by
  have hlt : e.encryptedRecord.length % 2 ^ 32 < 256 ^ 4 := Nat.mod_lt _ (by decide)
  rw [EncryptedRecord.toBytes]
  rw [List.append_assoc, List.take_left' (Bytes.length_toLe 4 _),
    List.drop_left' (Bytes.length_toLe 4 _), Bytes.ofLe_toLe hlt]
  exact ⟨rfl, rfl⟩

/-- The bytes of an encrypted record are framed: a truncated length is shorter than what is there. -/
theorem framed_toBytes (e : EncryptedRecord) : Framed e.toBytes := by
  have hlen : e.toBytes.length =
      4 + e.encryptedRecord.length + e.encryptedDecryptionKey.length := by
    simp [EncryptedRecord.toBytes, Nat.add_assoc]
  rw [Framed]
  rw [(prefix_toBytes e).1]
  omega

/-- They are cut where they were joined, if the length fits the prefix. -/
theorem frameParts_toBytes {e : EncryptedRecord} (h : e.encryptedRecord.length < 2 ^ 32) :
    frameParts e.toBytes = e := by
  rw [frameParts]
  rw [(prefix_toBytes e).1, (prefix_toBytes e).2, Nat.mod_eq_of_lt h, List.take_left, List.drop_left]

/-- **What `EncryptedRecord::from_bytes` accepts**: the bytes of what it returns, which is short
enough for the length prefix. -/
theorem encryptedRecord_fromBytes_yields {buf : Bytes} {e : EncryptedRecord} :
    Yields (EncryptedRecord.fromBytes buf) e ↔
      e.toBytes = buf ∧ e.encryptedRecord.length < 2 ^ 32 := by
  constructor
  · intro h
    have hframed := encryptedRecord_fromBytes_returns.1 ⟨_, h⟩
    cases h.symm.trans (encryptedRecord_fromBytes_run hframed)
    exact toBytes_frameParts hframed
  · rintro ⟨rfl, hlen⟩
    have hrun := encryptedRecord_fromBytes_run (framed_toBytes e)
    rwa [frameParts_toBytes hlen] at hrun

/-- **The codecs are inverses**: of every record, of every encrypted record that the length prefix
can announce, of every buffer that holds a record, and of every buffer that is taken for an
encrypted record. -/
theorem codecs_inverse :
    (∀ r : Record, (Record.fromBytes r.toBytes).run = .ok (.ok r)) ∧
      (∀ buf : Bytes, 136 ≤ buf.length →
        ∃ r, (Record.fromBytes buf).run = .ok (.ok r) ∧ r.toBytes = buf) ∧
      (∀ e : EncryptedRecord, e.encryptedRecord.length < 2 ^ 32 →
        (EncryptedRecord.fromBytes e.toBytes).run = .ok (.ok e)) ∧
      ∀ (buf : Bytes) (e : EncryptedRecord),
        (EncryptedRecord.fromBytes buf).run = .ok (.ok e) → e.toBytes = buf :=
  ⟨fun _ => record_fromBytes_yields.2 rfl, fun _ => record_fromBytes_some,
    fun _ hlen => encryptedRecord_fromBytes_yields.2 ⟨rfl, hlen⟩,
    fun _ _ h => (encryptedRecord_fromBytes_yields.1 h).1⟩

/-! ### Signing and encrypting -/

/-- The signing half of ed25519 and the encrypting half of HPKE. A signing key is its seed. -/
structure Keyring where
  /-- `signing_key.verifying_key().to_bytes()`. -/
  verifyingKey : Bytes32 → Bytes32
  /-- `signing_key.sign(message).to_bytes()`. -/
  sign : Bytes32 → Bytes → Bytes64
  /-- `verifying_key.encrypt(plaintext)`, with the random bytes it draws. -/
  encrypt : Bytes32 → Bytes → Bytes → Except String Bytes

/-- What the two halves promise each other: ed25519 is correct, and HPKE decrypts what was encrypted
to the matching key. -/
structure Matching (P : Primitives) (K : Keyring) : Prop where
  /-- A signing key has a valid public key. -/
  verifyingKey : ∀ signingKey, P.verifyingKey (K.verifyingKey signingKey)
  /-- What it signs verifies under it. -/
  verifyStrict : ∀ signingKey message,
    P.verifyStrict (K.verifyingKey signingKey) message (K.sign signingKey message)
  /-- What is encrypted to it, it decrypts. -/
  decrypt : ∀ signingKey rng plaintext ciphertext,
    K.encrypt (K.verifyingKey signingKey) rng plaintext = .ok ciphertext →
      P.decrypt signingKey ciphertext = .ok plaintext

/-- A publisher with its signing key. -/
structure SigningPublisher extends RecordPublisher where
  /-- The node's signing key. -/
  signingKey : Bytes32

/-- What `encrypt` draws from `rand::rng()`. -/
structure Rng where
  /-- The seed of the one-time key. -/
  oneTimeKey : Bytes32
  /-- For the encryption of the record. -/
  data : Bytes
  /-- For the encryption of the one-time key. -/
  key : Bytes

/-- `Record::sign`, with the postcard serialisation of the content. -/
def Record.sign {α : Type} (K : Keyring) (toAllocvec : α → Except String Bytes) (topic : Bytes32)
    (unixMinute : UInt64) (nodeId : Bytes32) (recordContent : α) (signingKey : Bytes32) :
    Except String Record := do
  let content ← toAllocvec recordContent
  let signatureData :=
    topic.toList ++ Bytes.toLe 8 unixMinute.toNat ++ nodeId.toList ++ content
  pure { topic, unixMinute, pubKey := nodeId, content, signature := K.sign signingKey signatureData }

/-- `RecordPublisher::new_record`. -/
def SigningPublisher.newRecord {α : Type} (K : Keyring) (toAllocvec : α → Except String Bytes)
    (p : SigningPublisher) (unixMinute : UInt64) (recordContent : α) : Except String Record :=
  Record.sign K toAllocvec p.recordTopic unixMinute p.pubKey recordContent p.signingKey

/-- `Record::encrypt`. -/
def Record.encrypt (K : Keyring) (rng : Rng) (encryptionKey : Bytes32) (r : Record) :
    Rust EncryptedRecord := do
  let pKey := K.verifyingKey rng.oneTimeKey
  let dataEnc ← expectOk "encryption failed" (K.encrypt pKey rng.data r.toBytes)
  let keyEnc ← expectOk "encryption failed"
    (K.encrypt (K.verifyingKey encryptionKey) rng.key rng.oneTimeKey.toList)
  pure { encryptedRecord := dataEnc, encryptedDecryptionKey := keyEnc }

/-! ### What a retrieval makes of it -/

/-- The bytes that the signature of a record covers. -/
def Record.signatureData (r : Record) : Bytes :=
  r.topic.toList ++ Bytes.toLe 8 r.unixMinute.toNat ++ r.pubKey.toList ++ r.content

/-- `verify` cuts the signed bytes from the serialised record. -/
theorem take_toBytes (r : Record) : r.toBytes.take (r.toBytes.length - 64) = r.signatureData := by
  have hsig : r.toBytes = r.signatureData ++ r.signature.toList := rfl
  rw [hsig, List.length_append, r.signature.toList_length, Nat.add_sub_cancel, List.take_left]

/-- What `verify` accepts. -/
structure Record.Verified (P : Primitives) (r : Record) (topic : Bytes32) (unixMinute : UInt64) :
    Prop where
  /-- The record is about the topic. -/
  topic : r.topic = topic
  /-- It is for the minute. -/
  unixMinute : r.unixMinute = unixMinute
  /-- Its publisher's key is valid. -/
  pubKey : P.verifyingKey r.pubKey
  /-- Its publisher signed all of it. -/
  signature : P.verifyStrict r.pubKey r.signatureData r.signature

theorem verify_yields {P : Primitives} {r : Record} {topic : Bytes32} {minute : UInt64} {u : Unit} :
    Yields (r.verify P topic minute) u ↔ r.Verified P topic minute := by
  have hlen : 64 ≤ r.toBytes.length := by
    rw [record_length_toBytes]
    omega
  simp only [Record.verify, yields_bailIf_bind, yields_checkedSub_bind, yields_sliceTo_bind,
    yields_bailIf, take_toBytes, not_not, Bool.not_eq_true', Bool.not_eq_false]
  constructor
  · rintro ⟨htopic, hminute, -, -, hkey, hsig⟩
    exact ⟨htopic, hminute, hkey, hsig⟩
  · rintro ⟨htopic, hminute, hkey, hsig⟩
    exact ⟨htopic, hminute, hlen, Nat.sub_le _ _, hkey, hsig⟩

/-- A value gives a record when it is the serialisation of an encryption of the record, and the
record is verified and another node's. -/
theorem openValue_eq_some {P : Primitives} {p : RecordPublisher} {minute : UInt64} {value : Bytes}
    {r : Record} :
    p.openValue P minute value = .ok (some r) ↔
      ∃ e, Yields (EncryptedRecord.fromBytes value) e ∧
        e.plaintext P (p.slotKey P minute) = .ok r.toBytes ∧
          r.Verified P p.recordTopic minute ∧ r.pubKey ≠ p.pubKey := by
  have hdecrypt : ∀ (e : EncryptedRecord) (r : Record), Yields (e.decrypt P (p.slotKey P minute)) r ↔
      e.plaintext P (p.slotKey P minute) = .ok r.toBytes := by
    intro e r
    simp only [EncryptedRecord.decrypt, yields_ofResult_bind, record_fromBytes_yields, exists_eq_right']
  rw [RecordPublisher.openValue]
  rw [rust_bind_eq_ok]
  constructor
  · rintro ⟨_ | e, he, h⟩
    · cases h
    obtain ⟨_ | r', hr', h⟩ := rust_bind_eq_ok.1 h
    · cases h
    obtain ⟨_ | u, hu, h⟩ := rust_bind_eq_ok.1 h
    · cases h
    split_ifs at h with hown
    · cases h
    cases h
    exact ⟨e, he, (hdecrypt e r).1 hr', verify_yields.1 hu, hown⟩
  · rintro ⟨e, he, hplain, hverified, hown⟩
    refine ⟨.ok e, he, rust_bind_eq_ok.2 ⟨.ok r, (hdecrypt e r).2 hplain, ?_⟩⟩
    refine rust_bind_eq_ok.2 ⟨.ok (), verify_yields.2 hverified, ?_⟩
    rw [if_neg hown]
    rfl

/-- Two publishers meet in the same slots: they agree on the topic, the secret and the rotation. -/
structure SameSlots (P : Primitives) (p q : RecordPublisher) : Prop where
  /-- The topic. -/
  topic : p.recordTopic = q.recordTopic
  /-- The hash of the shared secret. -/
  secret : p.initialSecretHash = q.initialSecretHash
  /-- The rotation, which may be the default one. -/
  rotation : p.secretRotation.getD (defaultSecretRotation P) =
    q.secretRotation.getD (defaultSecretRotation P)

theorem SameSlots.slotKey {P : Primitives} {p q : RecordPublisher} (h : SameSlots P p q)
    (minute : UInt64) : p.slotKey P minute = q.slotKey P minute := by
  simp only [RecordPublisher.slotKey, encryptionKeypair, h.topic, h.secret, h.rotation]

/-- A record as its publisher built, encrypted and serialised it for a slot. -/
structure Published {α : Type} (P : Primitives) (K : Keyring)
    (toAllocvec : α → Except String Bytes) (p : SigningPublisher) (minute : UInt64) (content : α)
    (r : Record) (e : EncryptedRecord) : Prop where
  /-- The publisher's public key belongs to its signing key. -/
  own : p.pubKey = K.verifyingKey p.signingKey
  /-- It built the record. -/
  built : p.newRecord K toAllocvec minute content = .ok r
  /-- It encrypted it for the slot. -/
  encrypted : ∃ rng, r.encrypt K rng (p.slotKey P minute) = .ok e

variable {α : Type} {P : Primitives} {K : Keyring} {toAllocvec : α → Except String Bytes}
  {p : SigningPublisher} {minute : UInt64} {content : α} {r : Record} {e : EncryptedRecord}

/-- A published record decrypts to itself. -/
theorem Published.plaintext (h : Published P K toAllocvec p minute content r e)
    (hm : Matching P K) : e.plaintext P (p.slotKey P minute) = .ok r.toBytes := by
  obtain ⟨rng, he⟩ := h.encrypted
  obtain ⟨dataEnc, hdata, he⟩ := rust_bind_eq_ok.1 he
  obtain ⟨keyEnc, hkey, he⟩ := rust_bind_eq_ok.1 he
  cases he
  have hdata := hm.decrypt _ _ _ _ (expectOk_eq_ok.1 hdata)
  have hkey := hm.decrypt _ _ _ _ (expectOk_eq_ok.1 hkey)
  have harray : tryIntoArray 32 rng.oneTimeKey.toList = .ok rng.oneTimeKey :=
    tryIntoArray_eq_ok.2 rfl
  simp only [EncryptedRecord.plaintext, hkey, harray, hdata, bind, Except.bind]

/-- A published record is verified. -/
theorem Published.verified (h : Published P K toAllocvec p minute content r e)
    (hm : Matching P K) : r.Verified P p.recordTopic minute ∧ r.pubKey = p.pubKey := by
  have hbuilt := h.built
  rw [SigningPublisher.newRecord, Record.sign] at hbuilt
  cases hc : toAllocvec content with
  | error msg =>
    rw [hc] at hbuilt
    cases hbuilt
  | ok bytes =>
    rw [hc] at hbuilt
    cases hbuilt
    refine ⟨⟨rfl, rfl, ?_, ?_⟩, rfl⟩
    · rw [h.own]
      exact hm.verifyingKey _
    · simp only [Record.signatureData, h.own]
      exact hm.verifyStrict _ _

/-- A published record is read from its bytes, if its encryption is short enough for the prefix. -/
theorem Published.openValue (h : Published P K toAllocvec p minute content r e) (hm : Matching P K)
    {q : RecordPublisher} (hq : SameSlots P q p.toRecordPublisher) (hne : q.pubKey ≠ p.pubKey)
    (hlen : e.encryptedRecord.length < 2 ^ 32) :
    q.openValue P minute e.toBytes = .ok (some r) := by
  obtain ⟨hverified, hown⟩ := h.verified hm
  refine openValue_eq_some.2 ⟨e, encryptedRecord_fromBytes_yields.2 ⟨rfl, hlen⟩, ?_, ?_, ?_⟩
  · rw [hq.slotKey minute]
    exact h.plaintext hm
  · rw [hq.topic]
    exact hverified
  · rw [hown]
    exact hne.symm

/-- **Publish and fetch agree, and fetch is sound**: a record published for a slot, whose encryption
is shorter than 2³² bytes, is among those that any other node with the same topic, secret and
rotation retrieves, whatever readable values are there beside it; and every record retrieved, from
any values, is for the topic and the minute, signed by its own publisher, and not the node's own. -/
theorem getRecords_published {α : Type} (P : Primitives) (K : Keyring) (hm : Matching P K)
    (toAllocvec : α → Except String Bytes) (p : SigningPublisher) (q : RecordPublisher)
    (minute : UInt64) (content : α) (dht : Except String (List Bytes)) :
    (∀ r e, Published P K toAllocvec p minute content r e → SameSlots P q p.toRecordPublisher →
        q.pubKey ≠ p.pubKey → e.encryptedRecord.length < 2 ^ 32 → e.toBytes ∈ slotValues dht →
        (∀ value ∈ slotValues dht, value ≠ e.toBytes → Readable P (q.slotKey P minute) value) →
        ∃ rs, q.getRecords P minute dht = .ok rs ∧ r ∈ rs) ∧
      ∀ rs, q.getRecords P minute dht = .ok rs →
        ∀ r ∈ rs, r.Verified P q.recordTopic minute ∧ r.pubKey ≠ q.pubKey := by
  constructor
  · intro r e h hq hne hlen hmem hothers
    have hopen := h.openValue hm hq hne hlen
    have hreadable : ∀ value ∈ slotValues dht, Readable P (q.slotKey P minute) value := by
      intro value hvalue
      by_cases hv : value = e.toBytes
      · exact openValue_returns.1 ⟨_, hv ▸ hopen⟩
      · exact hothers value hvalue hv
    obtain ⟨rs, hrs⟩ := getRecords_returns.2 hreadable
    exact ⟨rs, hrs, (getRecords_eq_ok hrs r).2 ⟨_, hmem, hopen⟩⟩
  · intro rs hrs r hr
    obtain ⟨value, -, hopen⟩ := (getRecords_eq_ok hrs r).1 hr
    obtain ⟨e, -, -, hverified, hown⟩ := openValue_eq_some.1 hopen
    exact ⟨hverified, hown⟩

/-! ### A plain slot -/

/-- HPKE that sends its plaintext, and ed25519 that accepts everything. -/
def plainPrimitives : Primitives where
  sha512 := fun _ => .replicate 32 0
  decrypt := fun _ b => .ok b
  verifyingKey := fun _ => true
  verifyStrict := fun _ _ _ => true

/-- The other half of `plainPrimitives`. -/
def plainKeyring : Keyring where
  verifyingKey := id
  sign := fun _ _ => .replicate 64 0
  encrypt := fun _ _ b => .ok b

theorem matching_plain : Matching plainPrimitives plainKeyring :=
  ⟨fun _ => rfl, fun _ _ => rfl, fun _ _ _ _ h => congrArg _ (Except.ok.inj h).symm⟩

/-- A node on topic 1 with key 2. -/
def plainPublisher : SigningPublisher where
  recordTopic := .replicate 32 1
  pubKey := .replicate 32 2
  secretRotation := none
  initialSecretHash := .replicate 32 3
  signingKey := .replicate 32 2

/-- Its record for minute 7. -/
def plainRecord (content : Bytes) : Record where
  topic := .replicate 32 1
  unixMinute := 7
  pubKey := .replicate 32 2
  content := content
  signature := .replicate 64 0

/-- The encryption of its record, with one-time key 4. -/
def plainEncrypted (content : Bytes) : EncryptedRecord where
  encryptedRecord := (plainRecord content).toBytes
  encryptedDecryptionKey := List.replicate 32 4

theorem published_plain (content : Bytes) :
    Published plainPrimitives plainKeyring .ok plainPublisher 7 content (plainRecord content)
      (plainEncrypted content) :=
  ⟨rfl, rfl, ⟨.replicate 32 4, [], []⟩, rfl⟩

/-- Another node on the topic reads the record with content `[9]` next to a foreign value. -/
theorem getRecords_published_plain :
    ∃ rs, ({ plainPublisher with pubKey := .replicate 32 5 } : RecordPublisher).getRecords
      plainPrimitives 7 (.ok [(plainEncrypted [9]).toBytes, [0, 0, 0, 0, 1]]) = .ok rs ∧
        plainRecord [9] ∈ rs := by
  refine (getRecords_published plainPrimitives plainKeyring matching_plain .ok plainPublisher
    { plainPublisher with pubKey := .replicate 32 5 } 7 [9] _).1 (plainRecord [9])
    (plainEncrypted [9]) (published_plain [9]) ⟨rfl, rfl, rfl⟩ (by decide) ?_
    List.mem_cons_self ?_
  · rw [plainEncrypted]
    rw [record_length_toBytes]
    decide
  intro value hvalue hne
  obtain rfl := List.mem_singleton.1 ((List.mem_cons.1 hvalue).resolve_left hne)
  exact ⟨by decide, fun plain hplain => by cases hplain⟩

/-- Cut where the truncated length says, a long encryption leaves too much for a one-time key. -/
theorem plaintext_plain_long {content : Bytes} (h : 2 ^ 32 ≤ content.length) (key : Bytes32) :
    (frameParts (plainEncrypted content).toBytes).plaintext plainPrimitives key =
      .error "could not convert slice to array" := by
  obtain ⟨hlength, hdrop⟩ := prefix_toBytes (plainEncrypted content)
  have hkey : (frameParts (plainEncrypted content).toBytes).encryptedDecryptionKey.length ≠ 32 := by
    rw [frameParts]
    rw [hlength, hdrop, plainEncrypted]
    simp only [List.length_drop, List.length_append, record_length_toBytes, plainRecord,
      List.length_replicate]
    omega
  have hdecrypt : ∀ k b, plainPrimitives.decrypt k b = .ok b := fun _ _ => rfl
  simp only [EncryptedRecord.plaintext, hdecrypt, tryIntoArray, dif_neg hkey, bind, Except.bind]

/-- The node's record with 2³² zeros as its content is lost: its length is truncated to 136, so the
other node, which reads every value without a panic, does not return it. -/
theorem long_record_lost :
    let content : Bytes := List.replicate (2 ^ 32) 0
    let q : RecordPublisher := { plainPublisher with pubKey := .replicate 32 5 }
    Matching plainPrimitives plainKeyring ∧
      Published plainPrimitives plainKeyring .ok plainPublisher 7 content (plainRecord content)
        (plainEncrypted content) ∧
      SameSlots plainPrimitives q plainPublisher.toRecordPublisher ∧
      q.pubKey ≠ plainPublisher.pubKey ∧
      Readable plainPrimitives (q.slotKey plainPrimitives 7) (plainEncrypted content).toBytes ∧
      ¬∃ rs, q.getRecords plainPrimitives 7 (.ok [(plainEncrypted content).toBytes]) = .ok rs ∧
        plainRecord content ∈ rs := by
  intro content q
  have hlong : 2 ^ 32 ≤ content.length := (List.length_replicate ..).ge
  refine ⟨matching_plain, published_plain content, ⟨rfl, rfl, rfl⟩, by decide,
    ⟨framed_toBytes _, fun plain hplain => ?_⟩, ?_⟩
  · rw [plaintext_plain_long hlong] at hplain
    cases hplain
  · rintro ⟨rs, hrs, hr⟩
    obtain ⟨value, hvalue, hopen⟩ := (getRecords_eq_ok hrs _).1 hr
    obtain rfl := List.mem_singleton.1 hvalue
    obtain ⟨e, he, hplain, -⟩ := openValue_eq_some.1 hopen
    cases he.symm.trans (encryptedRecord_fromBytes_run (framed_toBytes _))
    rw [plaintext_plain_long hlong] at hplain
    cases hplain

end PodpingAlpha.Dtt.Crypto
