import PodpingAlpha.Dtt.Publish
import PodpingAlpha.Wire.Binding

/-!
# What one key signs

Every node has one ed25519 key. It signs the canonical messages of `Wire.Canonical` and, through
`dtt-fork/src/crypto/record.rs`, the node's records in the DHT; the signed bytes of a record begin with the
hash of the topic, those of a message with a brace.

* `Signable.bytes_injective` — the bytes determine what was signed, unless the hash begins with a brace.
* `signatures_apart` — a signature of a record verifies for no other record of its key, and for no message,
  unless two challenges collide.
-/

namespace PodpingAlpha.Wire

open Dtt.Crypto (Bytes32 Bytes64 Primitives Record)
open Listener (Ed25519)
open Outcome

/-- What the key of a node signs, about a topic. -/
inductive Signable where
  /-- A message. -/
  | message (c : Canonical)
  /-- A record for a minute, of a node, with a content. -/
  | record (unixMinute : UInt64) (pubKey : Bytes32) (content : Bytes)
  deriving DecidableEq

namespace Signable

/-- The bytes under the signature. -/
def bytes (topic : Bytes32) : Signable → Bytes
  | .message c => c.toVec
  | .record unixMinute pubKey content =>
    topic.toList ++ Bytes.toLe 8 unixMinute.toNat ++ pubKey.toList ++ content

/-- The text of a message begins with a brace. -/
theorem head?_toVec (c : Canonical) : c.toVec.head? = some 123 := rfl

/-- The bytes of a record begin with its topic. -/
theorem head?_record (topic : Bytes32) (unixMinute : UInt64) (pubKey : Bytes32) (content : Bytes) :
    (bytes topic (.record unixMinute pubKey content)).head? = some topic.head := by
  rw [bytes]
  obtain ⟨b, rest, h⟩ := topic.exists_eq_cons
  rw [h, List.Vector.toList_cons, List.Vector.head_cons]
  rfl

variable {topic : Bytes32}

/-- **Equal bytes, equal meaning.** -/
theorem bytes_injective (htopic : topic.head ≠ 123) : Function.Injective (bytes topic) := by
  intro x y h
  have hhead := congrArg List.head? h
  cases x with
  | message c =>
    cases y with
    | message d => rw [Canonical.toVec_injective h]
    | record m k b =>
      rw [head?_record] at hhead
      exact absurd (Option.some.inj hhead).symm htopic
  | record m k b =>
    cases y with
    | message d =>
      rw [head?_record] at hhead
      exact absurd (Option.some.inj hhead) htopic
    | record m' k' b' =>
      simp only [bytes, List.append_assoc] at h
      have h := List.append_cancel_left h
      obtain ⟨hminute, h⟩ := List.append_inj h (by simp)
      obtain ⟨hkey, hcontent⟩ := List.append_inj h (by simp)
      have hminute := congrArg Bytes.ofLe hminute
      rw [Bytes.ofLe_toLe m.toNat_lt, Bytes.ofLe_toLe m'.toNat_lt] at hminute
      rw [UInt64.toNat_inj.1 hminute, List.Vector.toList_injective hkey, hcontent]

end Signable

/-- What the signature of a record covers. -/
def ofRecord (r : Record) : Signable := .record r.unixMinute r.pubKey r.content

theorem bytes_ofRecord (r : Record) : (ofRecord r).bytes r.topic = r.signatureData := rfl

/-- What the signature of a message covers is the text of its canonical struct. -/
theorem bytes_of_received {r : Received} {b : Bytes} (h : r.canonicalBytes = .ok b) (topic : Bytes32) :
    ∃ c, r.canonical = some c ∧ (Signable.message c).bytes topic = b :=
  Received.canonicalBytes_eq_ok.1 h

/-- `verifying_key.verify_strict` accepts no more than the equation of the scheme does, and no key of small
order. -/
def ChecksStrictly {G : Type} [AddCommGroup G] (curve : Curve G) (P : Primitives) : Prop :=
  ∀ key b sig, P.verifyStrict key b sig → curve.Accepts key b (signatureR sig) (signatureS sig) ∧
    ∃ A, curve.decode key = some A ∧ ¬curve.SmallOrder A

/-- **Signatures are kept apart**: where the hash of the topic does not begin with a brace, the signature of
a verified record verifies for no other record of its key, and for no message under its key, unless the
challenges collide. -/
theorem signatures_apart {G : Type} [AddCommGroup G] (curve : Curve G) (P : Primitives) (ed : Ed25519)
    (hP : ChecksStrictly curve P) (hed : Checks curve ed) (topic : Bytes32) (htopic : topic.head ≠ 123)
    (r : Record) (minute : UInt64) (hr : Yields (r.verify P topic minute) ()) :
    (∀ (r' : Record) (minute' : UInt64), Yields (r'.verify P topic minute') () →
        r'.signature = r.signature → r'.pubKey = r.pubKey →
        r' = r ∨ curve.Collide (signatureR r.signature) r.pubKey r.signatureData r'.signatureData) ∧
      ∀ (x : Received) (b : Bytes), x.HasKeys ed (r.pubKey, r.signature) → x.canonicalBytes = .ok b →
        ¬curve.Collide (signatureR r.signature) r.pubKey r.signatureData b →
        x.verify ed ≠ .ok (.ok true) := by
  have hverified := Dtt.Crypto.verify_yields.1 hr
  obtain ⟨haccepts, A, hA, hsmall⟩ := hP _ _ _ hverified.signature
  constructor
  · intro r' minute' hr' hsig hkey
    have hverified' := Dtt.Crypto.verify_yields.1 hr'
    have haccepts' := (hP _ _ _ hverified'.signature).1
    rw [hsig, hkey] at haccepts'
    by_cases hdata : r.signatureData = r'.signatureData
    · refine .inl ?_
      have htopics : r'.topic = r.topic := hverified'.topic.trans hverified.topic.symm
      have hbytes : (ofRecord r').bytes topic = (ofRecord r).bytes topic := by
        rw [← hverified'.topic, bytes_ofRecord, hverified'.topic, ← hverified.topic, bytes_ofRecord]
        exact hdata.symm
      obtain ⟨hminute, hkeys, hcontent⟩ := Signable.record.inj (Signable.bytes_injective htopic hbytes)
      cases r
      cases r'
      simp only at hminute hkeys hcontent htopics hsig
      subst hminute hkeys hcontent htopics hsig
      rfl
    · exact .inr ⟨hdata, haccepts.challenge_eq haccepts' hA hsmall⟩
  · intro x b hkeys hb hno hx
    obtain ⟨keys, b', hkeys', hbytes, hverify⟩ := Received.verify_eq_true hx
    cases hkeys'.unique hkeys
    cases hbytes.symm.trans hb
    refine hno ⟨fun hdata => ?_, haccepts.challenge_eq (hed _ _ _ hverify) hA hsmall⟩
    obtain ⟨c, -, hc⟩ := bytes_of_received hb topic
    have hsame : (Signable.message c).bytes topic = (ofRecord r).bytes topic := by
      rw [hc, ← hdata, ← hverified.topic, bytes_ofRecord]
    cases Signable.bytes_injective htopic hsame

/-- The signature of the record below. -/
def recordSignature : Bytes64 :=
  ⟨[172, 232, 126, 104, 161, 218, 107, 75, 172, 3, 192, 81, 203, 217, 7, 47, 238, 56, 229, 240, 161, 67,
    162, 71, 131, 219, 225, 160, 214, 255, 9, 181, 83, 30, 141, 161, 136, 203, 89, 18, 138, 135, 179, 228,
    199, 241, 228, 131, 69, 210, 153, 166, 1, 244, 124, 125, 83, 114, 202, 86, 66, 207, 43, 15], rfl⟩

/-- A record of the node. -/
def signedRecord : Record :=
  { Dtt.Crypto.plainRecord [9] with pubKey := signerKey, signature := recordSignature }

/-- A suggestion of the node, under the signature of the record. -/
def recordSuggest : Listener.PeerSuggest :=
  { plainSuggest with signature := Hex.encode recordSignature.toList }

/-- The five points, with the point of the signature among them. -/
def recordPoints : Curve (ZMod 5) :=
  { fivePoints with
    encode := fun P => if P = 1 then signatureR recordSignature else .replicate 32 (UInt8.ofNat P.val)
    encode_injective := by decide
    challenge := fun _ _ b => if b = signedRecord.signatureData then 1 else 3
    challenge_lt := fun _ _ b => by
      change (if b = signedRecord.signatureData then 1 else 3) < 5
      split_ifs <;> decide }

/-- An ed25519 that accepts the signature of the record only. -/
def recordEd25519 : Ed25519 where
  verifyingKey key := key = signerKey
  verify key b sig := key = signerKey ∧ b = signedRecord.signatureData ∧ sig = recordSignature

theorem recordEd25519_verify {key : Bytes32} {b : Bytes} {sig : Bytes64} :
    recordEd25519.verify key b sig ↔
      key = signerKey ∧ b = signedRecord.signatureData ∧ sig = recordSignature := decide_eq_true_iff

theorem recordPoints_challenge (r key : Bytes32) (b : Bytes) :
    recordPoints.challenge r key b = if b = signedRecord.signatureData then 1 else 3 := rfl

theorem recordEd25519_accepts {key : Bytes32} {b : Bytes} {sig : Bytes64}
    (h : recordEd25519.verify key b sig) :
    recordPoints.Accepts key b (signatureR sig) (signatureS sig) ∧
      ∃ A, recordPoints.decode key = some A ∧ ¬recordPoints.SmallOrder A := by
  obtain ⟨rfl, rfl, rfl⟩ := recordEd25519_verify.1 h
  refine ⟨⟨2, rfl, ?_⟩, 2, rfl, ?_⟩
  · have hscalar : signatureS recordSignature • recordPoints.base = 3 := nsmul_one_mod (by decide)
    rw [hscalar, recordPoints_challenge, if_pos rfl]
    decide
  · change ¬(8 • (2 : ZMod 5) = 0)
    decide

/-- The suggestion does not verify. -/
theorem signatures_apart_one : (Received.suggest recordSuggest).verify recordEd25519 ≠ .ok (.ok true) := by
  refine (signatures_apart recordPoints
    { Dtt.Crypto.plainPrimitives with verifyStrict := recordEd25519.verify } recordEd25519
    (fun _ _ _ h => recordEd25519_accepts h) (fun _ _ _ h => (recordEd25519_accepts h).1)
    (.replicate 32 1) (by decide) signedRecord 7 ?_).2 (.suggest recordSuggest) recordSuggest.canonicalBytes
    ⟨_, _, rfl, rfl, Listener.keyAndSignature_encode (by decide) _⟩ rfl ?_
  · exact Dtt.Crypto.verify_yields.2
      ⟨rfl, rfl, rfl, recordEd25519_verify.2 ⟨rfl, rfl, rfl⟩⟩
  · rintro ⟨hne, h⟩
    rw [recordPoints_challenge, recordPoints_challenge, if_pos rfl, if_neg (Ne.symm hne)] at h
    revert h
    decide

end PodpingAlpha.Wire
