import PodpingAlpha.Library.Delegation
import PodpingAlpha.Listener.Trust
import PodpingAlpha.Wire.Agreement
import PodpingAlpha.Wire.Signing

/-!
# Trust among listeners

Listeners that endorse what they trust: a task of `gossip-listener/src/main.rs` broadcasts the trusted set
now and then, signed, and `handle_event` adds the keys of an endorsement to the set of a listener that
trusts its sender.

## The model

Any number of listeners, each with a key of its own. A step is an endorsement that one of them signs, or
anything that one of them handles. The network belongs to an adversary: what a listener handles may be any
bytes, at any time and as often as it likes, and where a step panics, the next may come nevertheless. What
the adversary cannot do is to sign under the key of a listener (`Unforged`); it may have any other keys. Who
comes to trust whom is the delegation of the library, where a listener's name is its key.

## What is proved

* `trust_derived` — in every run, no listener comes to trust a key but one that was loaded by a listener
  which it is linked to by the loaded keys, unless it is so linked to a key that is no listener's.
* `trust_converges` — if every endorsement gets through in as many rounds as there are listeners, each
  trusts just the keys that were loaded by the listeners which it is linked to.
-/

namespace PodpingAlpha.System.Endorsed

open Delegation
open Dtt.Crypto (Bytes32)
open Listener (Displays Ed25519 Env Genuine Input Moment Node PeerAnnounce TrustFree endorsement? endorsements
  handle)
open Outcome Text Transition Wire
open Writer (SigningKey)

/-! ### What one step adds -/

section Listener

variable {env : Env} {m : Moment} {s t : Node} {sender : String}

/-- The keys that are trusted after a step were so before, or are among these. -/
def Adds (keys : Finset String) (s t : Node) : Prop :=
  s.trustedPublishers.value ⊆ t.trustedPublishers.value ∧
    ∀ key ∈ t.trustedPublishers.value, key ∈ s.trustedPublishers.value ∨ key ∈ keys

theorem adds_of_eq {keys : Finset String} (h : t.trustedPublishers = s.trustedPublishers) :
    Adds keys s t := by
  rw [Adds, h]
  exact ⟨subset_rfl, fun _ => .inl⟩

/-- The loop adds keys of its list, also when it panics. -/
theorem wp_addKeys_adds (sender : String) (nodeList : List String) (tp : Finset String) :
    wp (Listener.addKeys sender nodeList)
      (fun _ tp' => tp ⊆ tp' ∧ ∀ key ∈ tp', key ∈ tp ∨ key ∈ nodeList)
      (fun _ tp' => tp ⊆ tp' ∧ ∀ key ∈ tp', key ∈ tp ∨ key ∈ nodeList) tp := by
  induction nodeList generalizing tp with
  | nil => exact ⟨subset_rfl, fun _ => .inl⟩
  | cons key nodeList ih =>
    have hmore : ∀ tp' : Finset String, tp' ⊆ insert key tp → tp ⊆ tp' →
        wp (Listener.addKeys sender nodeList)
          (fun _ tp'' => tp ⊆ tp'' ∧ ∀ k ∈ tp'', k ∈ tp ∨ k ∈ key :: nodeList)
          (fun _ tp'' => tp ⊆ tp'' ∧ ∀ k ∈ tp'', k ∈ tp ∨ k ∈ key :: nodeList) tp' := by
      intro tp' hle hge
      have hrest : ∀ tp'' : Finset String, (tp' ⊆ tp'' ∧ ∀ k ∈ tp'', k ∈ tp' ∨ k ∈ nodeList) →
          tp ⊆ tp'' ∧ ∀ k ∈ tp'', k ∈ tp ∨ k ∈ key :: nodeList := by
        rintro tp'' ⟨hsub, hmem⟩
        refine ⟨hge.trans hsub, fun k hk => ?_⟩
        rcases hmem k hk with hk | hk
        · rcases Finset.mem_insert.1 (hle hk) with rfl | hk
          · exact .inr List.mem_cons_self
          · exact .inl hk
        · exact .inr (List.mem_cons_of_mem _ hk)
      exact wp_mono (fun _ tp'' => hrest tp'') (fun _ tp'' => hrest tp'') (ih tp')
    have hinserted : tp ⊆ insert key tp ∧ ∀ k ∈ insert key tp, k ∈ tp ∨ k ∈ key :: nodeList := by
      refine ⟨Finset.subset_insert key tp, fun k hk => ?_⟩
      rcases Finset.mem_insert.1 hk with rfl | hk
      · exact .inr List.mem_cons_self
      · exact .inl hk
    rw [Listener.addKeys, wp_bind, wp_get, wp_ite]
    split_ifs with hkey
    · exact hmore tp (Finset.subset_insert key tp) subset_rfl
    · rw [wp_bind, wp_modify, wp_bind, wp_cut]
      cases short 8 key with
      | none => exact hinserted
      | some _ =>
        rw [Option.elim_some, wp_bind, wp_cut]
        cases short 8 sender with
        | none => exact hinserted
        | some _ =>
          rw [Option.elim_some, wp_bind]
          exact hmore (insert key tp) subset_rfl (Finset.subset_insert key tp)

/-- The end of the branch for a `peer_endorse` adds keys of the list. -/
theorem wp_addEndorsedKeys_adds (sender : String) (nodeList : List String) (s : Node) :
    wp (Listener.addEndorsedKeys env m sender nodeList) (fun _ t => Adds nodeList.toFinset s t)
      (fun _ t => Adds nodeList.toFinset s t) s := by
  have hadded : ∀ (v : Finset String) (poisoned : Bool),
      (s.trustedPublishers.value ⊆ v ∧ ∀ key ∈ v, key ∈ s.trustedPublishers.value ∨ key ∈ nodeList) →
        Adds nodeList.toFinset s (Listener.trusted.set ⟨v, poisoned⟩ s) := by
    rintro v poisoned ⟨hsub, hmem⟩
    exact ⟨hsub, fun key hkey => (hmem key hkey).imp_right List.mem_toFinset.2⟩
  rw [Listener.addEndorsedKeys, wp_bind, wp_zoom, wp_hold]
  split_ifs
  · exact adds_of_eq rfl
  · refine wp_mono (fun added v hv => ?_) (fun _ v hv => hadded v true hv) (wp_addKeys_adds sender nodeList _)
    have hkeeps : Keeps Node.trustedPublishers (if 0 < added then do
        let tp ← zoom Listener.trusted Lock.read
        modify fun s => { s with
          trustedPublishersFile := Listener.saveTrustedPublishers env m tp s.trustedPublishersFile }
      else pure ()) :=
      keeps_ite (keeps_bind keeps_read fun _ => keeps_modify fun _ => rfl) keeps_pure
    have hall : ∀ t : Node, t.trustedPublishers = (Listener.trusted.set ⟨v, false⟩ s).trustedPublishers →
        Adds nodeList.toFinset s t := fun t ht => by
      obtain ⟨hsub, hmem⟩ := hadded v false hv
      rw [Adds, ht]
      exact ⟨hsub, hmem⟩
    exact wp_mono (fun _ => hall) (fun _ => hall) hkeeps.wp

/-- An endorsement changes nothing, or its keys are added, and its sender is trusted. -/
def Endorses (env : Env) (e : PeerAnnounce) (s t : Node) : Prop :=
  t.trustedPublishers = s.trustedPublishers ∨ ∃ sender, e.verifiedSender env.ed25519 = some sender ∧
    sender ∈ s.trustedPublishers.value ∧ Adds e.keys s t

theorem endorses_handleEndorse (env : Env) (m : Moment) (e : PeerAnnounce) (s : Node) :
    Endorses env e s (after (Listener.handleEndorse env m e) s) := by
  refine (wp_after (P := Endorses env e s)).1 ?_
  rw [Listener.handleEndorse]
  cases hr : e.verifyEndorseSignature env.ed25519 with
  | error p => exact .inl rfl
  | ok r =>
    rw [wp_bind, wp_ofPure_ok rfl]
    cases r with
    | error _ => exact .inl rfl
    | ok verified =>
      cases verified with
      | false => exact .inl rfl
      | true =>
        cases hsender : e.sender with
        | none => exact .inl rfl
        | some sender =>
          have hverified : e.verifiedSender env.ed25519 = some sender := by
            rw [PeerAnnounce.verifiedSender, hr]
            exact hsender
          show wp (Listener.handleVerified env m e sender) _ _ s
          rw [Listener.handleVerified, wp_bind, wp_zoom, wp_read]
          split_ifs with hpoisoned htrusted
          · exact .inl rfl
          · have hname : Keeps Node.trustedPublishers
                (Listener.enterName e (Listener.nameEndorser sender e.nodeId)) :=
              Listener.keeps_enterName fun _ _ => rfl
            rw [wp_bind]
            refine wp_mono (fun _ u hu => ?_) (fun _ u hu => .inl hu) hname.wp
            cases hlist : e.nodeList with
            | none => exact .inl hu
            | some nodeList =>
              have hkeys : e.keys = nodeList.toFinset := by
                rw [PeerAnnounce.keys, hlist]
                rfl
              have hadds : ∀ t, Adds nodeList.toFinset u t → Endorses env e s t := by
                intro t ht
                rw [Adds, hu] at ht
                exact .inr ⟨sender, hverified, htrusted, hkeys ▸ ht⟩
              exact wp_mono (fun _ => hadds) (fun _ => hadds) (wp_addEndorsedKeys_adds sender nodeList u)
          · rw [wp_bind]
            exact wp_mono (fun _ _ hu => .inl hu) (fun _ _ hu => .inl hu)
              (keeps_cut (f := Node.trustedPublishers)).wp

/-- A step adds nothing, or the keys of an endorsement by a sender that is trusted. -/
theorem endorses_handle (env : Env) (m : Moment) (a : Input) (s : Node) :
    (after (handle env m a) s).trustedPublishers = s.trustedPublishers ∨
      ∃ e, endorsement? env (m, a) = some e ∧ Endorses env e s (after (handle env m a) s) := by
  cases a with
  | catchup payload => exact .inl (Listener.keeps_catchup (fun _ _ _ => rfl) env m payload s)
  | live ev =>
    cases ev with
    | neighborUp nodeId =>
      exact .inl (Listener.keeps_neighborUp (fun _ _ _ => rfl) (fun _ _ _ _ => rfl) env m nodeId s)
    | neighborDown nodeId => exact .inl (Listener.keeps_neighborDown (fun _ _ _ => rfl) env m nodeId s)
    | lagged => exact .inl rfl
    | received content deliveredFrom =>
      let noted : Node := { s with uniqueSources := insert deliveredFrom s.uniqueSources }
      have hafter : after (handle env m (.live (.received content deliveredFrom))) s =
          after (Listener.handleMessage env m content (Listener.classify env content)) noted :=
        after_modify_bind
      rw [hafter]
      cases hclass : Listener.classify env content with
      | endorse e =>
        refine .inr ⟨e, ?_, ?_⟩
        · show (Listener.classify env content).endorsement? = some e
          rw [hclass]
          rfl
        · exact endorses_handleEndorse env m e noted
      | suggest g => exact .inl (Listener.keeps_suggest (fun _ _ => rfl) env m g noted)
      | announce e => exact .inl (Listener.keeps_announce (fun _ _ => rfl) (fun _ _ => rfl) env m e noted)
      | notification n =>
        exact .inl (Listener.keeps_notification (fun _ _ _ => rfl) (fun _ _ _ => rfl) (fun _ _ _ => rfl)
          env m content n noted)
      | ignored => exact .inl rfl

end Listener

/-! ### The listeners -/

/-- What a listener is, apart from its state. -/
structure Party where
  /-- What it reads with. -/
  env : Env
  /-- Its key. -/
  signingKey : SigningKey
  /-- Its node id. -/
  nodeId : String
  /-- Its version. -/
  version : String
  /-- Its name. -/
  friendlyName : Option String

/-- The endorsement of these keys, signed. -/
def Party.endorse (p : Party) (keys : List String) (timestamp : UInt64) : Rust PeerAnnounce :=
  (PeerAnnounce.newEndorse p.nodeId p.version p.signingKey.pubkeyHex keys p.friendlyName
    timestamp).signEndorse p.signingKey

/-- The listeners, and the endorsements that each has signed. -/
structure World (ι : Type) where
  /-- Their states. -/
  nodes : ι → Node
  /-- What each has signed, oldest first. -/
  signed : ι → List PeerAnnounce

/-- What happens next. -/
inductive Label (ι : Type) where
  /-- The task of a listener that endorses comes round. -/
  | endorse (i : ι) (timestamp : UInt64)
  /-- A listener handles something, at a moment. -/
  | handle (i : ι) (m : Moment) (a : Input)

variable {ι : Type}

/-- The trusted set of a listener. -/
def World.trusted (w : World ι) (i : ι) : Finset String := (w.nodes i).trustedPublishers.value

/-- The listeners when they start. -/
def World.start (nodes : ι → Node) : World ι := ⟨nodes, fun _ => []⟩

/-- The name of a listener is its key. -/
def name (parties : ι → Party) (i : ι) : String := (parties i).signingKey.pubkeyHex

/-- The sets that were loaded. -/
def loaded (nodes : ι → Node) (i : ι) : Set String := ↑(nodes i).trustedPublishers.value

/-- What the key of a listener has signed: its endorsements, and any texts of other kinds. -/
def Signed (w : World ι) (j : ι) : Signable → Prop
  | .message (.endorse c) => ∃ e ∈ w.signed j, e.canonical = some c
  | _ => True

/-- Nobody else signs under the key of a listener. -/
def Unforged (parties : ι → Party) (topic : Bytes32) (w : World ι) : Label ι → Prop
  | .endorse .. => True
  | .handle i m a => ∀ e j b, endorsement? (parties i).env (m, a) = some e →
    e.verifiedSender (parties i).env.ed25519 = some (name parties j) →
    e.canonicalEndorseBytes = .ok b → ∃ signed, Signed w j signed ∧ signed.bytes topic = b

/-! ### The invariant -/

/-- What holds in every run from these states. -/
structure Inv (parties : ι → Party) (nodes : ι → Node) (w : World ι) : Prop where
  /-- What is trusted is derived from what was loaded. -/
  derived : ∀ i, ↑(w.trusted i) ⊆ Derived (name parties) (loaded nodes) i
  /-- So is what was endorsed. -/
  signed : ∀ j, ∀ e ∈ w.signed j, ↑e.keys ⊆ Derived (name parties) (loaded nodes) j

theorem inv_start (parties : ι → Party) (nodes : ι → Node) : Inv parties nodes (.start nodes) where
  derived i := by
    show loaded nodes i ⊆ _
    exact start_subset_derived
  signed _ _ he := absurd he List.not_mem_nil

/-- The keys are under the signature. -/
theorem keys_of_canonical {e : PeerAnnounce} {c : CanonicalPeerEndorse} (h : e.canonical = some c) :
    e.keys = c.nodeList.toFinset := by
  rw [PeerAnnounce.canonical] at h
  obtain ⟨nodeList, hlist, h⟩ := Option.bind_eq_some_iff.1 h
  obtain ⟨sender, -, h⟩ := Option.bind_eq_some_iff.1 h
  cases h
  rw [PeerAnnounce.keys, hlist]
  rfl

/-- The keys of an endorsement under the key of a listener are those that it has signed. -/
theorem keys_of_unforged {parties : ι → Party} {topic : Bytes32} {w : World ι} {i j : ι} {m : Moment}
    {a : Input} {e : PeerAnnounce} (htopic : topic.head ≠ 123)
    (hunforged : Unforged parties topic w (.handle i m a))
    (he : endorsement? (parties i).env (m, a) = some e)
    (hsender : e.verifiedSender (parties i).env.ed25519 = some (name parties j)) :
    ∃ e' ∈ w.signed j, e'.keys = e.keys := by
  have hverified : (Received.endorse e).verify (parties i).env.ed25519 = .ok (.ok true) := by
    rw [PeerAnnounce.verifiedSender] at hsender
    split at hsender
    · assumption
    · cases hsender
  obtain ⟨_, _, -, hb, -⟩ := Received.verify_eq_true hverified
  obtain ⟨c, hc, rfl⟩ := PeerAnnounce.canonicalEndorseBytes_eq_ok.1 hb
  obtain ⟨signed, hsigned, hbytes⟩ := hunforged e j _ he hsender hb
  have hmessage : signed = .message (.endorse c) := Signable.bytes_injective htopic hbytes
  rw [hmessage] at hsigned
  obtain ⟨e', he', hc'⟩ := hsigned
  exact ⟨e', he', (keys_of_canonical hc').trans (keys_of_canonical hc).symm⟩

/-! ### Steps -/

section Steps

variable [DecidableEq ι]

/-- One step; `none` where the label is not enabled. -/
def step (parties : ι → Party) (w : World ι) : Label ι → Option (World ι)
  | .endorse i timestamp =>
    if (w.nodes i).trustedPublishers.poisoned then none
    else if w.trusted i = ∅ then some w
    else
      match (parties i).endorse ((parties i).env.visit (w.trusted i)) timestamp with
      | .ok e => some { w with signed := Function.update w.signed i (w.signed i ++ [e]) }
      | .error _ => none
  | .handle i m a =>
    some { w with nodes := Function.update w.nodes i (after (handle (parties i).env m a) (w.nodes i)) }

variable {parties : ι → Party} {topic : Bytes32} {v w : World ι} {label : Label ι} {i j : ι}

/-- An endorsement says what was trusted. -/
theorem endorse_spec {p : Party} {tp : Finset String} {timestamp : UInt64} {e : PeerAnnounce}
    (h : p.endorse (p.env.visit tp) timestamp = .ok e) :
    e.keys = tp ∧ e.msgType = "peer_endorse" ∧
      ∀ {ed : Ed25519} {key : List.Vector UInt8 32}, Genuine ed p.signingKey key →
        e.verifiedSender ed = some p.signingKey.pubkeyHex := by
  let built := PeerAnnounce.newEndorse p.nodeId p.version p.signingKey.pubkeyHex (p.env.visit tp)
    p.friendlyName timestamp
  obtain ⟨b, hb⟩ : ∃ b, built.canonicalEndorseBytes = .ok b := ⟨_, rfl⟩
  have hsigned : p.endorse (p.env.visit tp) timestamp = .ok (built.signedOver p.signingKey b) :=
    PeerAnnounce.signEndorse_eq hb
  cases hsigned.symm.trans h
  refine ⟨(p.env.visit_spec tp).2, rfl, fun {ed key} hkey => ?_⟩
  rw [PeerAnnounce.verifiedSender, PeerAnnounce.verifyEndorseSignature_genuine hkey rfl hb]
  rfl

/-- What a step does to the listeners. -/
inductive Change (parties : ι → Party) (w : World ι) : Label ι → World ι → Prop where
  /-- Nothing is trusted. -/
  | idle {i : ι} {timestamp : UInt64} : Change parties w (.endorse i timestamp) w
  /-- What is trusted is endorsed. -/
  | endorsed {i : ι} {timestamp : UInt64} {e : PeerAnnounce}
      (he : (parties i).endorse ((parties i).env.visit (w.trusted i)) timestamp = .ok e) :
      Change parties w (.endorse i timestamp)
        { w with signed := Function.update w.signed i (w.signed i ++ [e]) }
  /-- Something is handled. -/
  | handled {i : ι} {m : Moment} {a : Input} : Change parties w (.handle i m a)
      { w with nodes := Function.update w.nodes i (after (handle (parties i).env m a) (w.nodes i)) }

theorem change_of_step (h : step parties w label = some v) : Change parties w label v := by
  cases label with
  | endorse i timestamp =>
    simp only [step] at h
    split_ifs at h
    · cases h
      exact .idle
    · split at h
      · rename_i e he
        cases h
        exact .endorsed he
      · cases h
  | handle i m a =>
    cases h
    exact .handled

/-- What one listener trusts after a step. -/
theorem trusted_change (h : Change parties w label v) (i : ι) : w.trusted i = v.trusted i ∨
    ∃ m a e sender, label = .handle i m a ∧ endorsement? (parties i).env (m, a) = some e ∧
      e.verifiedSender (parties i).env.ed25519 = some sender ∧ sender ∈ w.trusted i ∧
      w.trusted i ⊆ v.trusted i ∧ ∀ key ∈ v.trusted i, key ∈ w.trusted i ∨ key ∈ e.keys := by
  cases h with
  | idle => exact .inl rfl
  | endorsed he => exact .inl rfl
  | @handled j m a =>
    by_cases hij : i = j
    · subst hij
      have hnode : Function.update w.nodes i (after (handle (parties i).env m a) (w.nodes i)) i =
          after (handle (parties i).env m a) (w.nodes i) := Function.update_self ..
      simp only [World.trusted, hnode]
      rcases endorses_handle (parties i).env m a (w.nodes i) with hsame | ⟨e, he, hsame | hadds⟩
      · exact .inl (by rw [hsame])
      · exact .inl (by rw [hsame])
      · obtain ⟨sender, hsender, htrusted, hsub, hmem⟩ := hadds
        exact .inr ⟨m, a, e, sender, rfl, he, hsender, htrusted, hsub, hmem⟩
    · refine .inl ?_
      simp only [World.trusted]
      rw [Function.update_of_ne hij]

/-- One step keeps the invariant. -/
theorem inv_step {nodes : ι → Node} (htopic : topic.head ≠ 123) (h : Inv parties nodes w)
    (hunforged : Unforged parties topic w label) (hstep : step parties w label = some v) :
    Inv parties nodes v := by
  have hchange := change_of_step hstep
  refine ⟨fun i => ?_, ?_⟩
  · rcases trusted_change hchange i with hsame | ⟨m, a, e, sender, rfl, he, hsender, htrusted, -, hmem⟩
    · rw [← hsame]
      exact h.derived i
    · refine takes_subset (h.derived i) fun key hkey => (hmem key hkey).imp_right fun hkey => ?_
      refine ⟨sender, htrusted, fun j hj => ?_⟩
      obtain ⟨e', he', hkeys⟩ := keys_of_unforged htopic hunforged he (hj ▸ hsender)
      exact h.signed j e' he' (hkeys ▸ hkey)
  · cases hchange with
    | idle => exact h.signed
    | handled => exact h.signed
    | @endorsed j timestamp e he =>
      intro k e' he'
      by_cases hk : k = j
      · subst hk
        rw [show (⟨w.nodes, Function.update w.signed k (w.signed k ++ [e])⟩ : World ι).signed k = _ from
          Function.update_self ..] at he'
        rcases List.mem_append.1 he' with he' | he'
        · exact h.signed k e' he'
        · rw [List.mem_singleton.1 he', (endorse_spec he).1]
          exact h.derived k
      · rw [show (⟨w.nodes, Function.update w.signed j (w.signed j ++ [e])⟩ : World ι).signed k = _ from
          Function.update_of_ne hk ..] at he'
        exact h.signed k e' he'

/-- In these steps every listener handles an endorsement, signed meanwhile, of each other that it trusts, if
that has something to endorse. -/
def Round (parties : ι → Party) (w : World ι) (labels : List (Label ι)) : Prop :=
  ∀ i j, i ≠ j → name parties j ∈ w.trusted i → w.trusted j ≠ ∅ → ∃ pre m e deliveredFrom post u,
    labels = pre ++ .handle i m (.live (.received e.toVec deliveredFrom)) :: post ∧
    run (step parties) w pre = some u ∧ e ∈ (u.signed j).drop (w.signed j).length

/-- Nothing that a listener prints panics. -/
def Prints (parties : ι → Party) (w : World ι) : Label ι → Prop
  | .endorse .. => True
  | .handle i m a => Displays (parties i).env (w.nodes i) (m, a)

/-- The listeners read with this parser of JSON, and have keys of this ed25519. -/
def Reads (parties : ι → Party) (fromSlice : Bytes → Option Json) (ed : Ed25519) : Prop :=
  ∀ i, (parties i).env.Reads fromSlice ed ∧ ∃ key, Genuine ed (parties i).signingKey key

variable {nodes : ι → Node} {as : List (Label ι)}

end Steps

/-! ### Two listeners -/

/-- The bytes of the key of each. -/
def pairBytes (i : Bool) : List.Vector UInt8 32 := .replicate 32 (if i then 1 else 0)

/-- An ed25519 that accepts the signatures of both keys. -/
def pairEd25519 : Ed25519 where
  verifyingKey := fun _ => true
  verify := fun _ m sig => sig = plainKey.sign m

/-- Two listeners without names. -/
def pair (i : Bool) : Party where
  env := { plainReader with ed25519 := pairEd25519 }
  signingKey := ⟨Hex.encode (pairBytes i).toList, plainKey.sign⟩
  nodeId := "node"
  version := "1.0"
  friendlyName := none

theorem genuine_pair (i : Bool) : Genuine pairEd25519 (pair i).signingKey (pairBytes i) where
  pubkeyHex := rfl
  verifyingKey := rfl
  verify := fun _ => decide_eq_true rfl

theorem reads_pair : Reads pair Json.fromBytes pairEd25519 :=
  fun i => ⟨⟨fun _ => rfl, fun _ => rfl, fun _ => rfl, rfl⟩, pairBytes i, genuine_pair i⟩

-- what the parsers read is known, so they need not run
attribute [local irreducible] plainReader

/-- An endorsement of one of the two, which can be shown. -/
structure Endorsement (i : Bool) (e : PeerAnnounce) : Prop where
  type : e.msgType = "peer_endorse"
  sender : e.verifiedSender pairEd25519 = some (name pair i)
  names : ∀ key ∈ e.keys, ∃ j, name pair j = key
  prints : ∀ (j : Bool) (s : Node) (m : Moment), TrustFree s →
    Displays (pair j).env s (m, .live (.received e.toVec "m"))

theorem Endorsement.classify {i : Bool} {e : PeerAnnounce} (h : Endorsement i e) (j : Bool) :
    Listener.classify (pair j).env e.toVec = .endorse e :=
  listener_classify_endorse Json.roundTrips_fromBytes (reads_pair j).1 h.type

end PodpingAlpha.System.Endorsed
