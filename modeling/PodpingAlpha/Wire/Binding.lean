import PodpingAlpha.Library.Schnorr
import PodpingAlpha.Monitor.Suggest
import PodpingAlpha.Writer.Messages
import Mathlib.Data.ZMod.Basic

/-!
# A signature covers one message

The messages that the listener and the writer verify, each with the bytes under its signature. The
bytes are those of a canonical struct, and these determine the struct and its fields: whoever makes
two messages verify with one signature has made ed25519 accept it for two texts.

The crates verify with `VerifyingKey::verify`, which does not refuse keys of small order. Of it we assume
that it accepts no more than the equation of the scheme (`Checks`): curve, hash and encodings are any.

* `signature_covers_one_message` — two messages that verify with one signature are one message, or their
  challenges meet; under a key that is not of small order they collide.
* `small_order_signs_both` — under a key of small order, one signature verifies for two messages.
-/

namespace PodpingAlpha.Wire

open Listener (Ed25519 VerifyError keyAndSignature verified)
open Outcome

/-- A message whose signature a receiver checks. -/
inductive Received where
  | notification (n : Listener.GossipNotification)
  | endorse (a : Listener.PeerAnnounce)
  | suggest (m : Listener.PeerSuggest)
  | writerEndorse (a : Writer.PeerAnnounce)
  | writerSuggest (m : Writer.PeerSuggest)

namespace Received

/-- The bytes under the signature. -/
def canonicalBytes : Received → Rust Bytes
  | .notification n => .ok n.canonicalBytes
  | .endorse a => a.canonicalEndorseBytes
  | .suggest m => .ok m.canonicalBytes
  | .writerEndorse a => a.canonicalEndorseBytes
  | .writerSuggest m => .ok m.canonicalBytes

/-- The fields under the signature. -/
def canonical : Received → Option Canonical
  | .notification n => some (.notification n.canonical)
  | .endorse a => a.canonical.map .endorse
  | .suggest m => some (.suggest m.canonical)
  | .writerEndorse a => a.canonical.map .endorse
  | .writerSuggest m => some (.suggest m.canonical)

/-- The check of the signature. -/
def verify (ed : Ed25519) : Received → Rust (Except VerifyError Bool)
  | .notification n => .ok (n.verifySignature ed)
  | .endorse a => a.verifyEndorseSignature ed
  | .suggest m => .ok (m.verifySignature ed)
  | .writerEndorse a => a.verifyEndorseSignature ed
  | .writerSuggest m => .ok (m.verifySignature ed)

/-- The text of the signer's key. -/
def sender : Received → Option String
  | .notification n => some n.sender
  | .endorse a => a.sender
  | .suggest m => some m.sender
  | .writerEndorse a => a.sender
  | .writerSuggest m => some m.sender

/-- The text of the signature. -/
def signature : Received → Option String
  | .notification n => n.signature
  | .endorse a => a.signature
  | .suggest m => some m.signature
  | .writerEndorse a => a.signature
  | .writerSuggest m => some m.signature

/-- These are the key and the signature of the message. -/
def HasKeys (ed : Ed25519) (r : Received)
    (keys : List.Vector UInt8 32 × List.Vector UInt8 64) : Prop :=
  ∃ senderHex sigHex, r.sender = some senderHex ∧ r.signature = some sigHex ∧
    keyAndSignature ed senderHex sigHex = .ok keys

/-! ### The bytes -/

/-- The bytes are those of the canonical struct. -/
theorem canonicalBytes_eq_ok {r : Received} {b : Bytes} :
    r.canonicalBytes = .ok b ↔ ∃ c, r.canonical = some c ∧ c.toVec = b := by
  have hok : ∀ c : Canonical, (.ok c.toVec : Rust Bytes) = .ok b ↔ ∃ d, some c = some d ∧ d.toVec = b := by
    simp
  have hendorse : ∀ a : Listener.PeerAnnounce, a.canonicalEndorseBytes = .ok b ↔
      ∃ c, a.canonical.map Canonical.endorse = some c ∧ c.toVec = b := by
    intro a
    rw [Listener.PeerAnnounce.canonicalEndorseBytes_eq_ok]
    simp [Option.map_eq_some_iff]
  cases r with
  | notification n => exact hok (.notification n.canonical)
  | endorse a => exact hendorse a
  | suggest m => exact hok (.suggest m.canonical)
  | writerEndorse a => exact hendorse a.toListener
  | writerSuggest m => exact hok (.suggest m.canonical)

/-- **Equal bytes, equal messages.** -/
theorem canonical_of_bytes {r r' : Received} {b : Bytes} (h : r.canonicalBytes = .ok b)
    (h' : r'.canonicalBytes = .ok b) : ∃ c, r.canonical = some c ∧ r'.canonical = some c := by
  obtain ⟨c, hc, rfl⟩ := canonicalBytes_eq_ok.1 h
  obtain ⟨c', hc', hbytes⟩ := canonicalBytes_eq_ok.1 h'
  exact ⟨c, hc, by rw [hc', Canonical.toVec_injective hbytes]⟩

/-! ### The checks -/

theorem verify_of_verified {ed : Ed25519} {keys : List.Vector UInt8 32 × List.Vector UInt8 64}
    {b : Bytes} (h : verified ed keys b = .ok true) : ed.verify keys.1 b keys.2 := by
  by_contra hfalse
  have herror : verified ed keys b = .error .verificationFailed := if_neg hfalse
  rw [herror] at h
  cases h

/-- The check of bytes that are there. -/
theorem verify_of_bind {ed : Ed25519} {senderHex sigHex : String} {b : Bytes}
    (h : (keyAndSignature ed senderHex sigHex >>= fun keys => verified ed keys b) = .ok true) :
    ∃ keys, keyAndSignature ed senderHex sigHex = .ok keys ∧ ed.verify keys.1 b keys.2 := by
  cases hkeys : keyAndSignature ed senderHex sigHex with
  | error e =>
    rw [hkeys] at h
    cases h
  | ok keys =>
    rw [hkeys] at h
    exact ⟨keys, rfl, verify_of_verified h⟩

/-- What is verified when the check of an endorsement succeeds. -/
theorem verify_of_endorse {ed : Ed25519} {a : Listener.PeerAnnounce}
    (h : a.verifyEndorseSignature ed = .ok (.ok true)) :
    ∃ keys b, (endorse a).HasKeys ed keys ∧ a.canonicalEndorseBytes = .ok b ∧
      ed.verify keys.1 b keys.2 := by
  unfold Listener.PeerAnnounce.verifyEndorseSignature at h
  cases hsig : a.signature with
  | none =>
    rw [hsig] at h
    cases h
  | some sigHex =>
    cases hsender : a.sender with
    | none =>
      rw [hsig, hsender] at h
      cases h
    | some senderHex =>
      rw [hsig, hsender] at h
      cases hkeys : keyAndSignature ed senderHex sigHex with
      | error e =>
        simp only [hkeys] at h
        cases h
      | ok keys =>
        simp only [hkeys] at h
        cases hbytes : a.canonicalEndorseBytes with
        | error e =>
          rw [hbytes] at h
          cases h
        | ok b =>
          rw [hbytes] at h
          have hverified : verified ed keys b = .ok true := Except.ok.inj h
          exact ⟨keys, b, ⟨senderHex, sigHex, hsender, hsig, hkeys⟩, rfl, verify_of_verified hverified⟩

/-- What is verified when a check succeeds. -/
theorem verify_eq_true {ed : Ed25519} {r : Received} (h : r.verify ed = .ok (.ok true)) :
    ∃ keys b, r.HasKeys ed keys ∧ r.canonicalBytes = .ok b ∧ ed.verify keys.1 b keys.2 := by
  cases r with
  | notification n =>
    have hverified : n.verifySignature ed = .ok true := Except.ok.inj h
    unfold Listener.GossipNotification.verifySignature at hverified
    cases hsig : n.signature with
    | none =>
      rw [hsig] at hverified
      cases hverified
    | some sigHex =>
      rw [hsig] at hverified
      obtain ⟨keys, hkeys, hed⟩ := verify_of_bind hverified
      exact ⟨keys, _, ⟨n.sender, sigHex, rfl, hsig, hkeys⟩, rfl, hed⟩
  | endorse a => exact verify_of_endorse h
  | suggest m =>
    obtain ⟨keys, hkeys, hed⟩ := verify_of_bind (Except.ok.inj h)
    exact ⟨keys, _, ⟨m.sender, m.signature, rfl, rfl, hkeys⟩, rfl, hed⟩
  | writerEndorse a => exact verify_of_endorse (a := a.toListener) h
  | writerSuggest m =>
    obtain ⟨keys, hkeys, hed⟩ := verify_of_bind (Except.ok.inj h)
    exact ⟨keys, _, ⟨m.sender, m.signature, rfl, rfl, hkeys⟩, rfl, hed⟩

theorem HasKeys.unique {ed : Ed25519} {r : Received}
    {keys keys' : List.Vector UInt8 32 × List.Vector UInt8 64} (h : r.HasKeys ed keys)
    (h' : r.HasKeys ed keys') : keys = keys' := by
  obtain ⟨senderHex, sigHex, hsender, hsig, hkeys⟩ := h
  obtain ⟨senderHex', sigHex', hsender', hsig', hkeys'⟩ := h'
  cases hsender.symm.trans hsender'
  cases hsig.symm.trans hsig'
  exact Except.ok.inj (hkeys.symm.trans hkeys')

end Received

/-! ### One message -/

/-- The point of a signature, as it is written. -/
def signatureR (sig : List.Vector UInt8 64) : List.Vector UInt8 32 := ⟨sig.toList.take 32, by simp⟩

/-- Its scalar. -/
def signatureS (sig : List.Vector UInt8 64) : ℕ := Bytes.ofLe (sig.toList.drop 32)

/-- An Edwards curve with its hash and encodings. -/
abbrev Curve (G : Type) [AddCommGroup G] :=
  Schnorr G (List.Vector UInt8 32) (List.Vector UInt8 32) Bytes

/-- `verifying_key.verify` accepts no more than the equation of the scheme does. -/
def Checks {G : Type} [AddCommGroup G] (curve : Curve G) (ed : Ed25519) : Prop :=
  ∀ key b sig, ed.verify key b sig → curve.Accepts key b (signatureR sig) (signatureS sig)

/-- **A signature covers one message.** The bytes of the three canonical structs determine which it is
and all its fields; so do the bytes under the signature of any two messages that are checked. Two messages
that verify with one signature are one message, or their challenges take the points of their keys to one
point; and what is verified under a key that is not of small order is not verified with the same signature
for another message, unless their challenges collide. -/
theorem signature_covers_one_message :
    Function.Injective Canonical.toVec ∧
    (∀ (r r' : Received) (b : Bytes), r.canonicalBytes = .ok b → r'.canonicalBytes = .ok b →
      ∃ c, r.canonical = some c ∧ r'.canonical = some c) ∧
    ∀ (G : Type) [AddCommGroup G] (curve : Curve G) (ed : Ed25519), Checks curve ed →
      ∀ (r r' : Received) (b b' : Bytes) (key key' : List.Vector UInt8 32) (sig : List.Vector UInt8 64)
        (A A' : G), r.HasKeys ed (key, sig) → r'.HasKeys ed (key', sig) → curve.decode key = some A →
        curve.decode key' = some A' → r.canonicalBytes = .ok b → r'.canonicalBytes = .ok b' →
        r.verify ed = .ok (.ok true) →
        (r'.verify ed = .ok (.ok true) → r.canonical = r'.canonical ∨
          b ≠ b' ∧ curve.challenge (signatureR sig) key b • A =
            curve.challenge (signatureR sig) key' b' • A') ∧
        (key = key' → ¬curve.SmallOrder A →
          curve.challenge (signatureR sig) key b ≠ curve.challenge (signatureR sig) key b' →
          r'.verify ed ≠ .ok (.ok true)) := by
  refine ⟨Canonical.toVec_injective, fun r r' b h h' => Received.canonical_of_bytes h h', ?_⟩
  intro G _ curve ed hed r r' b b' key key' sig A A' hkeys hkeys' hA hA' hb hb' hverify
  have haccepts : ∀ {x : Received} {k : List.Vector UInt8 32} {c : Bytes}, x.HasKeys ed (k, sig) →
      x.canonicalBytes = .ok c → x.verify ed = .ok (.ok true) →
      curve.Accepts k c (signatureR sig) (signatureS sig) := by
    intro x k c hk hc hx
    obtain ⟨keys, c', hkeys, hbytes, haccepted⟩ := Received.verify_eq_true hx
    cases hkeys.unique hk
    cases hbytes.symm.trans hc
    exact hed _ _ _ haccepted
  have hsame : b = b' → r.canonical = r'.canonical := by
    rintro rfl
    obtain ⟨c, hc, hc'⟩ := Received.canonical_of_bytes hb hb'
    exact hc.trans hc'.symm
  constructor
  · intro hverify'
    by_cases heq : b = b'
    · exact .inl (hsame heq)
    · exact .inr ⟨heq, (haccepts hkeys hb hverify).challenge_nsmul (haccepts hkeys' hb' hverify') hA hA'⟩
  · rintro rfl hsmall hne hverify'
    exact hne ((haccepts hkeys hb hverify).challenge_eq (haccepts hkeys' hb' hverify') hA hsmall)

/-- The key of a node. -/
def signerKey : List.Vector UInt8 32 :=
  ⟨[215, 90, 152, 1, 130, 177, 10, 183, 213, 75, 254, 211, 201, 100, 7, 58, 14, 225, 114, 243, 218, 166,
    35, 37, 175, 2, 26, 104, 247, 7, 81, 26], rfl⟩

/-- The signature of the suggestion below. -/
def suggestSignature : List.Vector UInt8 64 :=
  ⟨[203, 126, 66, 183, 103, 178, 69, 114, 21, 18, 241, 187, 212, 176, 25, 53, 169, 27, 110, 84, 239, 226,
    26, 0, 22, 155, 166, 171, 250, 82, 106, 62, 97, 210, 135, 220, 174, 35, 109, 248, 42, 123, 200, 92,
    224, 190, 249, 67, 145, 185, 28, 249, 242, 242, 200, 113, 225, 60, 254, 195, 174, 146, 148, 5], rfl⟩

/-- A suggestion. -/
def plainSuggest : Listener.PeerSuggest where
  msgType := "peer_suggest"
  sender := Hex.encode signerKey.toList
  targetNodeId := "node"
  suggestedPeers := ["a", "b"]
  reason := "isolated"
  timestamp := 1700000000
  signature := Hex.encode suggestSignature.toList

/-- The suggestion with another target, under the same signature. -/
def alteredSuggest : Listener.PeerSuggest := { plainSuggest with targetNodeId := "other" }

/-- The key that is the point zero. -/
def zeroKey : List.Vector UInt8 32 := ⟨1 :: List.replicate 31 0, rfl⟩

/-- The point zero and the scalar zero. -/
def zeroSignature : List.Vector UInt8 64 := ⟨1 :: List.replicate 63 0, rfl⟩

/-- Five points, with the two keys and the points of the two signatures among them. -/
def fivePoints : Curve (ZMod 5) where
  base := 1
  order := 5
  prime := Nat.prime_five
  cofactor := 8
  torsion := by decide
  encode P := if P = 0 then zeroKey else if P = 4 then signatureR suggestSignature
    else .replicate 32 (UInt8.ofNat P.val)
  encode_injective := by decide
  decode key := if key = zeroKey then some 0 else if key = signerKey then some 2 else none
  challenge _ _ b := if b = plainSuggest.canonicalBytes then 1 else 3
  challenge_lt _ _ b := by split_ifs <;> decide

theorem nsmul_one_mod {n : ℕ} {P : ZMod 5} (h : n % 5 = P.val) : n • (1 : ZMod 5) = P := by
  rw [nsmul_one, ← ZMod.natCast_mod, h, ZMod.natCast_zmod_val]

theorem fivePoints_challenge (r key : List.Vector UInt8 32) (b : Bytes) :
    fivePoints.challenge r key b = if b = plainSuggest.canonicalBytes then 1 else 3 := rfl

/-- An ed25519 that accepts the signature of the suggestion, and under the key zero the signature zero. -/
def suggestEd25519 : Ed25519 where
  verifyingKey key := key = signerKey ∨ key = zeroKey
  verify key b sig := key = signerKey ∧ b = plainSuggest.canonicalBytes ∧ sig = suggestSignature ∨
    key = zeroKey ∧ sig = zeroSignature

theorem suggestEd25519_verify {key : List.Vector UInt8 32} {b : Bytes} {sig : List.Vector UInt8 64} :
    suggestEd25519.verify key b sig ↔
      key = signerKey ∧ b = plainSuggest.canonicalBytes ∧ sig = suggestSignature ∨
        key = zeroKey ∧ sig = zeroSignature := decide_eq_true_iff

theorem suggestEd25519_checks : Checks fivePoints suggestEd25519 := by
  intro key b sig h
  rcases suggestEd25519_verify.1 h with ⟨rfl, rfl, rfl⟩ | ⟨rfl, rfl⟩
  · refine ⟨2, rfl, ?_⟩
    have hscalar : signatureS suggestSignature • fivePoints.base = 1 := nsmul_one_mod (by decide)
    rw [hscalar, fivePoints_challenge, if_pos rfl]
    decide
  · exact Schnorr.accepts_of_zero (S := fivePoints) rfl b

theorem plainSuggest_keys {m : Listener.PeerSuggest} (hsender : m.sender = plainSuggest.sender)
    (hsignature : m.signature = plainSuggest.signature) :
    (Received.suggest m).HasKeys suggestEd25519 (signerKey, suggestSignature) :=
  ⟨_, _, congrArg some hsender, congrArg some hsignature, Listener.keyAndSignature_encode (by decide) _⟩

theorem alteredSuggest_ne : alteredSuggest.canonicalBytes ≠ plainSuggest.canonicalBytes := by
  intro h
  have hbytes : Canonical.toVec (.suggest alteredSuggest.canonical) =
      Canonical.toVec (.suggest plainSuggest.canonical) := h
  have htarget := congrArg CanonicalPeerSuggest.targetNodeId
    (Canonical.suggest.inj (Canonical.toVec_injective hbytes))
  revert htarget
  decide

theorem plainSuggest_verified : plainSuggest.verifySignature suggestEd25519 = .ok true :=
  Listener.PeerSuggest.verifySignature_of_keys (Listener.keyAndSignature_encode (by decide) _)
    (suggestEd25519_verify.2 (.inl ⟨rfl, rfl, rfl⟩))

/-- The signature of the suggestion does not verify for the altered one. -/
theorem plainSuggest_covered :
    (Received.suggest alteredSuggest).verify suggestEd25519 ≠ .ok (.ok true) := by
  refine (signature_covers_one_message.2.2 (ZMod 5) fivePoints suggestEd25519 suggestEd25519_checks
    (.suggest plainSuggest) (.suggest alteredSuggest) plainSuggest.canonicalBytes
    alteredSuggest.canonicalBytes signerKey signerKey suggestSignature 2 2 (plainSuggest_keys rfl rfl)
    (plainSuggest_keys rfl rfl) rfl rfl rfl rfl (congrArg Except.ok plainSuggest_verified)).2 rfl ?_ ?_
  · change ¬(8 • (2 : ZMod 5) = 0)
    decide
  · rw [fivePoints_challenge, fivePoints_challenge, if_pos rfl, if_neg alteredSuggest_ne]
    decide

/-- A suggestion under the key zero. -/
def zeroSuggest : Listener.PeerSuggest :=
  { plainSuggest with sender := Hex.encode zeroKey.toList, signature := Hex.encode zeroSignature.toList }

/-- A notification under the same key and signature. -/
def zeroNotification : Listener.GossipNotification where
  version := "1.0"
  sender := Hex.encode zeroKey.toList
  timestamp := 1700000000
  medium := "podcast"
  reason := "update"
  iris := ["http://a"]
  signature := some (Hex.encode zeroSignature.toList)
  seq := some 7

/-- Under the key zero, one signature verifies for a suggestion and for a notification. -/
theorem small_order_signs_both :
    Checks fivePoints suggestEd25519 ∧
      (Received.suggest zeroSuggest).sender = (Received.notification zeroNotification).sender ∧
      (Received.suggest zeroSuggest).signature = (Received.notification zeroNotification).signature ∧
      (Received.suggest zeroSuggest).verify suggestEd25519 = .ok (.ok true) ∧
      (Received.notification zeroNotification).verify suggestEd25519 = .ok (.ok true) ∧
      (Received.suggest zeroSuggest).canonical ≠ (Received.notification zeroNotification).canonical := by
  have hkeys : keyAndSignature suggestEd25519 (Hex.encode zeroKey.toList)
      (Hex.encode zeroSignature.toList) = .ok (zeroKey, zeroSignature) :=
    Listener.keyAndSignature_encode (by decide) _
  have hverify : ∀ b, suggestEd25519.verify zeroKey b zeroSignature :=
    fun _ => suggestEd25519_verify.2 (.inr ⟨rfl, rfl⟩)
  refine ⟨suggestEd25519_checks, rfl, rfl, ?_, ?_, by simp [Received.canonical]⟩
  · exact congrArg Except.ok (Listener.PeerSuggest.verifySignature_of_keys hkeys (hverify _))
  · exact congrArg Except.ok
      (Listener.GossipNotification.verifySignature_of_keys (n := zeroNotification) rfl hkeys (hverify _))

end PodpingAlpha.Wire
