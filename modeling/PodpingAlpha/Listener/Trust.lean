import PodpingAlpha.Library.Closure
import PodpingAlpha.Library.Transition
import PodpingAlpha.Listener.Codec
import PodpingAlpha.Listener.Effects

/-!
# The trusted set

An endorsement adds its keys to the trusted set if its signature verifies and its sender is in the
set. One that comes before its sender is trusted is dropped, and counts when it is sent again.

## The model

An endorsement is a rule of `Library.Closure`: its guard is the sender whose signature verifies, and
it gives its keys.

## What is proved

* `run_trusted` — the trusted set after a run is that of its endorsements applied in order.
* `trusted_closure` — it only grows, and is at every moment inside the closure of the set loaded at
  the start; after as many rounds as there are endorsements, it is the closure.
-/

namespace PodpingAlpha.Listener

open Outcome Text Transition

/-- Endorsements as rules. -/
def endorsements (env : Env) : Rules PeerAnnounce String where
  guard := fun a => a.verifiedSender env.ed25519
  gives := PeerAnnounce.keys

/-- The message is an endorsement. -/
def Incoming.endorsement? : Incoming → Option PeerAnnounce
  | .endorse a => some a
  | _ => none

/-- The endorsement that an input is taken for. -/
def endorsement? (env : Env) (a : Moment × Input) : Option PeerAnnounce :=
  match a.2 with
  | .live (.received content _) => (classify env content).endorsement?
  | _ => none

/-- No string that is displayed makes the step panic. -/
def Displays (env : Env) (s : Node) (a : Moment × Input) : Prop :=
  wp (handle env a.1 a.2) (fun _ _ => True) (fun p _ => p ≠ .notCharBoundary) s

/-- The locks that an endorsement takes are free. -/
def TrustFree (s : Node) : Prop :=
  s.trustedPublishers.poisoned = false ∧ s.peerNames.poisoned = false

/-! ### One step -/

variable {env : Env} {s : Node} {m : Moment}

/-- The trusted set after an input. -/
def trustedAfter (env : Env) (tp : Finset String) (a : Moment × Input) : Finset String :=
  (endorsement? env a).elim tp fun e => (endorsements env).apply e tp

theorem trusted_of_standing {t : Node} (hs : TrustFree s) (h : t.standing = s.standing) :
    TrustFree t ∧ t.trustedPublishers.value = s.trustedPublishers.value := by
  obtain ⟨htrusted, hnames⟩ := Prod.mk.inj h
  rw [TrustFree]
  rw [htrusted, hnames]
  exact ⟨hs, rfl⟩

theorem trusted_announce (hs : TrustFree s) {a : PeerAnnounce}
    (h : wp (handleAnnounce env m a) (fun _ _ => True) (fun p _ => p ≠ .notCharBoundary) s) :
    TrustFree (after (handleAnnounce env m a) s) ∧
      (after (handleAnnounce env m a) s).trustedPublishers.value = s.trustedPublishers.value := by
  have hwp : wp (handleAnnounce env m a) (fun _ t => t.status = s.status)
      (fun p _ => p = .notCharBoundary) s := by
    refine (wp_handleAnnounce (P := fun status => status = s.status) hs.2).2 ?_
    split_ifs <;> rfl
  have hstatus := after_of_completes (completes_of_ne hwp h) hwp
  obtain ⟨htrusted, hstatus⟩ := Prod.mk.inj hstatus
  rw [htrusted]
  exact ⟨⟨by rw [htrusted, hs.1], (Prod.mk.inj hstatus).1.trans hs.2⟩, rfl⟩

theorem trusted_endorse (hs : TrustFree s) {a : PeerAnnounce}
    (h : wp (handleEndorse env m a) (fun _ _ => True) (fun p _ => p ≠ .notCharBoundary) s) :
    TrustFree (after (handleEndorse env m a) s) ∧
      (after (handleEndorse env m a) s).trustedPublishers.value =
        (endorsements env).apply a s.trustedPublishers.value := by
  by_cases hkeys : a.NamesKeys env.ed25519
  · have hwp : wp (handleEndorse env m a)
        (fun _ t => t.status = (⟨endorsed env a s.trustedPublishers.value, false⟩, s.status.2))
        (fun p _ => p = .notCharBoundary) s := by
      refine (wp_handleEndorse (P := fun status =>
        status = (⟨endorsed env a s.trustedPublishers.value, false⟩, s.status.2)) hs.1 hs.2 hkeys).2 ?_
      split_ifs <;> rfl
    have hstatus := after_of_completes (completes_of_ne hwp h) hwp
    obtain ⟨htrusted, hstatus⟩ := Prod.mk.inj hstatus
    rw [htrusted]
    exact ⟨⟨by rw [htrusted], (Prod.mk.inj hstatus).1.trans hs.2⟩, rfl⟩
  · -- the check of the signature panics, before anything has changed
    cases hr : a.verifyEndorseSignature env.ed25519 with
    | ok r => exact absurd (verifyEndorseSignature_returns.1 ⟨r, hr⟩) hkeys
    | error p =>
      have hafter : after (handleEndorse env m a) s = s := by
        rw [handleEndorse]
        rw [hr]
        rfl
      have hnone : a.verifiedSender env.ed25519 = none := by simp [PeerAnnounce.verifiedSender, hr]
      rw [hafter]
      refine ⟨hs, ?_⟩
      simp [Rules.apply, endorsements, hnone]

theorem trusted_message (hs : TrustFree s) {raw : Bytes} {msg : Incoming}
    (h : wp (handleMessage env m raw msg) (fun _ _ => True) (fun p _ => p ≠ .notCharBoundary) s) :
    TrustFree (after (handleMessage env m raw msg) s) ∧
      (after (handleMessage env m raw msg) s).trustedPublishers.value =
        msg.endorsement?.elim s.trustedPublishers.value
          fun e => (endorsements env).apply e s.trustedPublishers.value := by
  cases msg with
  | suggest g => exact trusted_of_standing hs (keeps_suggest (fun _ _ => rfl) env m g s)
  | announce a => exact trusted_announce hs h
  | endorse a => exact trusted_endorse hs h
  | notification n =>
    exact trusted_of_standing hs
      (keeps_notification (fun _ _ _ => rfl) (fun _ _ _ => rfl) (fun _ _ _ => rfl) env m raw n s)
  | ignored => exact ⟨hs, rfl⟩

/-- A step on which nothing displayed panics applies its endorsement, if it is one. -/
theorem trusted_handle (hs : TrustFree s) {a : Moment × Input} (h : Displays env s a) :
    TrustFree (after (handle env a.1 a.2) s) ∧
      (after (handle env a.1 a.2) s).trustedPublishers.value =
        trustedAfter env s.trustedPublishers.value a := by
  obtain ⟨m, a⟩ := a
  cases a with
  | live ev =>
    cases ev with
    | received content deliveredFrom => exact trusted_message (by exact hs) (wp_bind.1 h)
    | neighborUp nodeId =>
      exact trusted_of_standing hs
        (keeps_neighborUp (fun _ _ _ => rfl) (fun _ _ _ _ => rfl) env m nodeId s)
    | neighborDown nodeId =>
      exact trusted_of_standing hs (keeps_neighborDown (fun _ _ _ => rfl) env m nodeId s)
    | lagged => exact ⟨hs, rfl⟩
  | catchup payload =>
    exact trusted_of_standing hs (keeps_catchup (fun _ _ _ => rfl) env m payload s)

/-- Handling an endorsement does not panic where its strings can be cut. -/
theorem displays_endorsement (hfree : TrustFree s) {content : Bytes} {deliveredFrom : String}
    {e : PeerAnnounce} (hclass : classify env content = .endorse e) (hkeys : e.NamesKeys env.ed25519)
    (hprints : EndorsePrints env s e) : Displays env s (m, .live (.received content deliveredFrom)) := by
  show wp (receive env m (.received content deliveredFrom)) _ _ s
  refine (wp_bind.trans wp_modify).2 ?_
  rw [hclass]
  show wp (handleEndorse env m e) _ _ _
  refine (wp_handleEndorse (P := fun _ => True) (by exact hfree.1) (by exact hfree.2) hkeys).2 ?_
  exact (if_pos hprints).symm ▸ trivial

/-! ### Runs -/

/-- The endorsements among the inputs. -/
def endorsementsOf (env : Env) (as : List (Moment × Input)) : List PeerAnnounce :=
  as.filterMap (endorsement? env)

/-- **The trusted set after a run** is that of its endorsements applied in order. -/
theorem run_trusted {t : Node} {as : List (Moment × Input)} (hs : TrustFree s)
    (hdisplays : Along (handleStep env) (Displays env) s as)
    (h : run (handleStep env) s as = some t) :
    TrustFree t ∧ t.trustedPublishers.value =
      (endorsements env).applyAll (endorsementsOf env as) s.trustedPublishers.value := by
  induction as generalizing s with
  | nil =>
    cases h
    exact ⟨hs, rfl⟩
  | cons a as ih =>
    obtain ⟨u, hu, hr⟩ := run_cons_eq_some.1 h
    obtain ⟨hfree, htrusted⟩ := trusted_handle hs hdisplays.1
    cases hu
    obtain ⟨ht, hvalue⟩ := ih hfree (hdisplays.2 _ rfl) hr
    refine ⟨ht, ?_⟩
    rw [hvalue, htrusted]
    simp only [endorsementsOf, trustedAfter]
    rw [List.filterMap_cons]
    cases endorsement? env a with
    | none => rfl
    | some e => rfl

/-- Nothing panics in a run of inputs that can be displayed in every state. -/
theorem along_displays {as : List (Moment × Input)}
    (h : ∀ a ∈ as, ∀ t, TrustFree t → Displays env t a) (hs : TrustFree s) :
    Along (handleStep env) (Displays env) s as := by
  have hmem : Along (handleStep env) (fun _ a => a ∈ as) s as :=
    (along_label_iff fun _ _ => ⟨_, rfl⟩).2 fun _ ha => ha
  refine along_of_inv (I := TrustFree) ?_ (fun t a ht ha => h a ha t ht) hs hmem
  intro t a u ht ha hu
  cases hu
  exact (trusted_handle ht (h a ha t ht)).1

theorem mem_endorsementsOf {M : Finset PeerAnnounce} {as : List (Moment × Input)}
    (hM : ∀ a ∈ as, ∀ e, endorsement? env a = some e → e ∈ M) : ∀ e ∈ endorsementsOf env as, e ∈ M := by
  intro e he
  obtain ⟨a, ha, hendorse⟩ := List.mem_filterMap.1 he
  exact hM a ha e hendorse

/-- **The trusted set is the endorsement closure**. In every run from the start that handles, among
anything else, endorsements of `M`, and in which nothing displayed panics: the set only grows; it is
at every moment inside the least set that contains the loaded keys and, for each endorsement of `M`
whose signature verifies and whose sender is in it, the endorsed keys; it stays empty if it was
empty; and once there were as many rounds as `M` has endorsements, each with all of `M` in any order,
it is that least set. -/
theorem trusted_closure (env : Env) (now : UInt64) (trustedFile monitorsFile peersFile : Option String)
    (db : Option Archive) (sseEnabled catchupEnabled : Bool) (M : Finset PeerAnnounce)
    (as : List (Moment × Input)) (hM : ∀ a ∈ as, ∀ e, endorsement? env a = some e → e ∈ M)
    (hdisplays : Along (handleStep env) (Displays env)
      (.start now trustedFile monitorsFile peersFile db sseEnabled catchupEnabled) as) :
    let s : Node := .start now trustedFile monitorsFile peersFile db sseEnabled catchupEnabled
    let loaded := loadTrustedPublishers trustedFile
    (∀ pre mid t u, pre ++ mid <+: as → run (handleStep env) s pre = some t →
        run (handleStep env) t mid = some u →
        t.trustedPublishers.value ⊆ u.trustedPublishers.value) ∧
      (∀ pre t, pre <+: as → run (handleStep env) s pre = some t →
        ↑t.trustedPublishers.value ⊆ (endorsements env).closure M loaded) ∧
      (loaded = ∅ → ∀ pre t, pre <+: as → run (handleStep env) s pre = some t →
        t.trustedPublishers.value = ∅) ∧
      ∀ (rounds : List (List (Moment × Input))) rest t, as = rounds.flatten ++ rest → M.card ≤ rounds.length →
        (∀ round ∈ rounds, ∀ e ∈ M, e ∈ endorsementsOf env round) →
        run (handleStep env) s as = some t →
        ↑t.trustedPublishers.value = (endorsements env).closure M loaded := by
  intro s loaded
  have hfree : TrustFree s := ⟨rfl, rfl⟩
  have hprefixes : ∀ pre t, pre <+: as → run (handleStep env) s pre = some t →
      Along (handleStep env) (Displays env) s pre ∧ ∀ e ∈ endorsementsOf env pre, e ∈ M := by
    rintro pre t ⟨post, rfl⟩ hr
    exact ⟨((along_append hr).1 hdisplays).1,
      mem_endorsementsOf fun a ha => hM a (List.mem_append_left post ha)⟩
  refine ⟨?_, ?_, ?_, ?_⟩
  · intro pre mid t u hpre ht hu
    obtain ⟨hfreet, -⟩ := run_trusted hfree (hprefixes pre t ((List.prefix_append pre mid).trans hpre) ht).1 ht
    have hru : run (handleStep env) s (pre ++ mid) = some u := by rw [run_append, ht]; exact hu
    have hmid := ((along_append ht).1 (hprefixes (pre ++ mid) u hpre hru).1).2
    rw [(run_trusted hfreet hmid hu).2]
    exact Rules.subset_applyAll
  · intro pre t hpre hr
    obtain ⟨halong, hmem⟩ := hprefixes pre t hpre hr
    rw [(run_trusted hfree halong hr).2]
    exact Rules.applyAll_subset Rules.isLeast_closure.1.2 hmem Rules.isLeast_closure.1.1
  · intro hempty pre t hpre hr
    obtain ⟨halong, hmem⟩ := hprefixes pre t hpre hr
    have hclosed : (endorsements env).Closed M ↑(∅ : Finset String) := fun i _ g _ hg => by simp at hg
    rw [(run_trusted hfree halong hr).2]
    show (endorsements env).applyAll _ loaded = ∅
    rw [hempty]
    exact Rules.applyAll_of_closed hclosed hmem
  · rintro rounds rest t rfl hlen hrounds hr
    have hmem := mem_endorsementsOf hM
    have hsplit : endorsementsOf env (rounds.flatten ++ rest) =
        (rounds.map (endorsementsOf env)).flatten ++ endorsementsOf env rest := by
      unfold endorsementsOf
      rw [List.filterMap_append, List.filterMap_flatten]
    rw [hsplit, List.forall_mem_append] at hmem
    have hall : ∀ round ∈ rounds.map (endorsementsOf env), ∀ e ∈ round, e ∈ M :=
      fun round hround e he => hmem.1 e (List.mem_flatten.2 ⟨round, hround, he⟩)
    have heach : ∀ round ∈ rounds.map (endorsementsOf env), ∀ e ∈ M, e ∈ round := by
      intro round hround e he
      obtain ⟨round', hround', rfl⟩ := List.mem_map.1 hround
      exact hrounds round' hround' e he
    have hreached : ↑((endorsements env).applyAll (rounds.map (endorsementsOf env)).flatten loaded) =
        (endorsements env).closure M loaded :=
      Rules.coe_applyAll_rounds hall heach (by rwa [List.length_map])
    -- what comes after the rounds adds nothing
    have hclosed := Rules.isLeast_closure (R := endorsements env) (M := M) (T := loaded) |>.1.2
    rw [← hreached] at hclosed
    have hrest := Rules.applyAll_of_closed hclosed hmem.2
    rw [(run_trusted hfree hdisplays hr).2, hsplit, Rules.applyAll_append]
    exact (congrArg (fun S : Finset String => (S : Set String)) hrest).trans hreached

/-! ### A chain of two endorsements -/

/-- The first of three keys. -/
def firstKey : List.Vector UInt8 32 :=
  ⟨[61, 64, 23, 195, 232, 67, 137, 90, 146, 183, 10, 167, 77, 27, 126, 188, 156, 152, 44, 207, 46, 196,
    150, 140, 192, 205, 85, 241, 42, 244, 102, 12], rfl⟩

/-- The second. -/
def secondKey : List.Vector UInt8 32 :=
  ⟨[252, 81, 205, 142, 98, 24, 161, 163, 141, 164, 126, 208, 2, 48, 240, 88, 8, 22, 237, 19, 186, 51, 3,
    172, 93, 235, 145, 21, 72, 144, 128, 37], rfl⟩

/-- The third. -/
def thirdKey : List.Vector UInt8 32 :=
  ⟨[39, 129, 23, 252, 20, 76, 114, 52, 15, 103, 208, 242, 49, 110, 131, 134, 206, 255, 191, 43, 36, 40,
    201, 197, 31, 239, 124, 89, 127, 29, 66, 110], rfl⟩

/-- The signature of the first endorsement below. -/
def firstSignature : List.Vector UInt8 64 :=
  ⟨[151, 32, 227, 203, 71, 88, 11, 147, 195, 84, 96, 158, 163, 204, 34, 102, 129, 28, 4, 53, 47, 23,
    224, 82, 201, 141, 84, 249, 80, 182, 26, 159, 230, 65, 220, 72, 34, 99, 21, 17, 165, 189, 190, 100,
    250, 109, 218, 188, 116, 201, 28, 238, 33, 210, 134, 84, 81, 83, 66, 147, 181, 127, 246, 13], rfl⟩

/-- The signature of the second. -/
def secondSignature : List.Vector UInt8 64 :=
  ⟨[128, 208, 150, 74, 130, 252, 80, 124, 184, 249, 134, 36, 35, 66, 14, 17, 1, 21, 143, 150, 206, 216,
    154, 103, 181, 30, 199, 82, 19, 144, 13, 35, 3, 79, 188, 218, 118, 193, 8, 227, 25, 71, 161, 102,
    151, 163, 41, 129, 99, 68, 70, 173, 51, 225, 12, 170, 130, 210, 91, 90, 253, 16, 192, 1], rfl⟩

/-- The endorsement of one key by another. -/
def endorsing (nodeId : String) (key endorsed : List.Vector UInt8 32) (sig : List.Vector UInt8 64) :
    PeerAnnounce where
  msgType := "peer_endorse"
  nodeId := nodeId
  version := "1.0"
  timestamp := 7
  sender := some (Hex.encode key.toList)
  nodeList := some [Hex.encode endorsed.toList]
  signature := some (Hex.encode sig.toList)
  friendlyName := none

/-- The first key endorses the second. -/
def firstEndorse : PeerAnnounce := endorsing "node a" firstKey secondKey firstSignature

/-- The second endorses the third. -/
def secondEndorse : PeerAnnounce := endorsing "node b" secondKey thirdKey secondSignature

/-- An ed25519 that accepts the two signatures. -/
def chainEd25519 : Ed25519 where
  verifyingKey key := key = firstKey ∨ key = secondKey
  verify key b sig :=
    key = firstKey ∧ firstEndorse.canonicalEndorseBytes.toOption = some b ∧ sig = firstSignature ∨
      key = secondKey ∧ secondEndorse.canonicalEndorseBytes.toOption = some b ∧ sig = secondSignature

theorem chainEd25519_verifyingKey {key : List.Vector UInt8 32} :
    chainEd25519.verifyingKey key ↔ key = firstKey ∨ key = secondKey := decide_eq_true_iff

theorem chainEd25519_verify {key : List.Vector UInt8 32} {b : Bytes} {sig : List.Vector UInt8 64} :
    chainEd25519.verify key b sig ↔
      key = firstKey ∧ firstEndorse.canonicalEndorseBytes.toOption = some b ∧ sig = firstSignature ∨
        key = secondKey ∧ secondEndorse.canonicalEndorseBytes.toOption = some b ∧ sig = secondSignature :=
  decide_eq_true_iff

/-- A listener that reads endorsements. -/
def chainEnv : Env :=
  { plainEnv ⟨"1.0", "aa", 7, "podcast", "update", [], none, none⟩ with
    parsePeerAnnounce := fun raw => Json.fromBytes raw >>= PeerAnnounce.fromJson
    ed25519 := chainEd25519 }

/-- Both endorsements, the second first. -/
def chainRound : List (Moment × Input) :=
  [(.fine 7, .live (.received secondEndorse.toVec "peer")),
    (.fine 7, .live (.received firstEndorse.toVec "peer"))]

theorem chainEnv_announce (raw : Bytes) :
    chainEnv.parsePeerAnnounce raw = Json.fromBytes raw >>= PeerAnnounce.fromJson := rfl

theorem chainEnv_suggest (raw : Bytes) : chainEnv.parsePeerSuggest raw = none := rfl

theorem chainEnv_ed25519 : chainEnv.ed25519 = chainEd25519 := rfl

-- what is read is known, so the parser need not run
attribute [local irreducible] chainEnv

theorem classify_endorsing {nodeId : String} {key endorsed : List.Vector UInt8 32}
    {sig : List.Vector UInt8 64} :
    classify chainEnv (endorsing nodeId key endorsed sig).toVec =
      .endorse (endorsing nodeId key endorsed sig) := by
  have hjson := Json.roundTrips_fromBytes _ (endorsing nodeId key endorsed sig).flat_fields
  have hread : chainEnv.parsePeerAnnounce (endorsing nodeId key endorsed sig).toVec =
      some (endorsing nodeId key endorsed sig) := by
    rw [chainEnv_announce, PeerAnnounce.toVec, hjson]
    exact (endorsing nodeId key endorsed sig).fromJson_fields
  rw [classify, chainEnv_suggest]
  dsimp only
  rw [classifyEvent, hread]
  rfl

theorem endorsing_verified {nodeId : String} {key endorsed : List.Vector UInt8 32}
    {sig : List.Vector UInt8 64} (hkey : chainEd25519.verifyingKey key)
    (hverify : ∀ b, (endorsing nodeId key endorsed sig).canonicalEndorseBytes.toOption = some b →
      chainEd25519.verify key b sig) :
    (endorsing nodeId key endorsed sig).verifyEndorseSignature chainEd25519 = .ok (.ok true) := by
  obtain ⟨b, hb⟩ : ∃ b, (endorsing nodeId key endorsed sig).canonicalEndorseBytes = .ok b := ⟨_, rfl⟩
  exact PeerAnnounce.verifyEndorseSignature_of_keys rfl rfl (keyAndSignature_encode hkey sig) hb
    (hverify b (by rw [hb]; rfl))

theorem firstEndorse_verified : firstEndorse.verifyEndorseSignature chainEd25519 = .ok (.ok true) :=
  endorsing_verified (chainEd25519_verifyingKey.2 (.inl rfl))
    fun _ hb => chainEd25519_verify.2 (.inl ⟨rfl, hb, rfl⟩)

theorem secondEndorse_verified : secondEndorse.verifyEndorseSignature chainEd25519 = .ok (.ok true) :=
  endorsing_verified (chainEd25519_verifyingKey.2 (.inr rfl))
    fun _ hb => chainEd25519_verify.2 (.inr ⟨rfl, hb, rfl⟩)

theorem guard_endorsing {nodeId : String} {key endorsed : List.Vector UInt8 32}
    {sig : List.Vector UInt8 64}
    (h : (endorsing nodeId key endorsed sig).verifyEndorseSignature chainEd25519 = .ok (.ok true)) :
    (endorsements chainEnv).guard (endorsing nodeId key endorsed sig) = some (Hex.encode key.toList) := by
  show PeerAnnounce.verifiedSender chainEnv.ed25519 _ = _
  rw [chainEnv_ed25519, PeerAnnounce.verifiedSender, h]
  rfl

theorem guard_firstEndorse :
    (endorsements chainEnv).guard firstEndorse = some (Hex.encode firstKey.toList) :=
  guard_endorsing firstEndorse_verified

theorem guard_secondEndorse :
    (endorsements chainEnv).guard secondEndorse = some (Hex.encode secondKey.toList) :=
  guard_endorsing secondEndorse_verified

theorem displays_endorsing {nodeId : String} {key endorsed : List.Vector UInt8 32}
    {sig : List.Vector UInt8 64}
    (h : (endorsing nodeId key endorsed sig).verifyEndorseSignature chainEd25519 = .ok (.ok true))
    (hs : TrustFree s) :
    Displays chainEnv s (m, .live (.received (endorsing nodeId key endorsed sig).toVec "peer")) := by
  rw [← chainEnv_ed25519] at h
  refine displays_endorsement hs classify_endorsing (verifyEndorseSignature_returns.1 ⟨_, h⟩) ?_
  refine fun sender _ _ => ⟨nofun, fun nodeList hlist k hk _ => ?_⟩
  cases hlist
  rw [List.mem_singleton.1 hk]
  exact cuts_of_decode (Hex.decode_encode _) 8

/-- What the listener loads. -/
def chainLoaded : Finset String := loadTrustedPublishers (some (Hex.encode firstKey.toList))

theorem endorsement?_endorsing {nodeId : String} {key endorsed : List.Vector UInt8 32}
    {sig : List.Vector UInt8 64} :
    endorsement? chainEnv (m, .live (.received (endorsing nodeId key endorsed sig).toVec "peer")) =
      some (endorsing nodeId key endorsed sig) := by
  show (classify chainEnv _).endorsement? = _
  rw [classify_endorsing]
  rfl

theorem endorsementsOf_chainRound : endorsementsOf chainEnv chainRound = [secondEndorse, firstEndorse] := by
  have hsecond : endorsement? chainEnv (.fine 7, .live (.received secondEndorse.toVec "peer")) =
      some secondEndorse := endorsement?_endorsing
  have hfirst : endorsement? chainEnv (.fine 7, .live (.received firstEndorse.toVec "peer")) =
      some firstEndorse := endorsement?_endorsing
  rw [endorsementsOf, chainRound, List.filterMap_cons_some hsecond, List.filterMap_cons_some hfirst,
    List.filterMap_nil]

theorem chainLoaded_eq : chainLoaded = {Hex.encode firstKey.toList} := by decide +kernel

theorem applyAll_chainRound : (endorsements chainEnv).applyAll [secondEndorse, firstEndorse] chainLoaded =
    {Hex.encode firstKey.toList, Hex.encode secondKey.toList} := by
  have hne : Hex.encode secondKey.toList ≠ Hex.encode firstKey.toList := by decide +kernel
  have hgives : (endorsements chainEnv).gives firstEndorse = {Hex.encode secondKey.toList} := rfl
  simp [Rules.applyAll, Rules.apply, chainLoaded_eq, guard_secondEndorse, guard_firstEndorse, hgives, hne]

/-- The second endorsement comes before its sender is trusted, and counts in the second round. -/
theorem trusted_closure_chain :
    let s : Node := .start 7 (some (Hex.encode firstKey.toList)) none none none false false
    ∃ t u, run (handleStep chainEnv) s chainRound = some t ∧
      Hex.encode thirdKey.toList ∉ t.trustedPublishers.value ∧
      run (handleStep chainEnv) s (chainRound ++ chainRound) = some u ∧
      Hex.encode thirdKey.toList ∈ u.trustedPublishers.value ∧
      ↑u.trustedPublishers.value =
        (endorsements chainEnv).closure {firstEndorse, secondEndorse} chainLoaded := by
  intro s
  have hdisplays : ∀ a ∈ chainRound, ∀ t, TrustFree t → Displays chainEnv t a := by
    intro a ha t ht
    rcases List.mem_pair.1 ha with rfl | rfl
    · exact displays_endorsing secondEndorse_verified ht
    · exact displays_endorsing firstEndorse_verified ht
  have hfree : TrustFree s := ⟨rfl, rfl⟩
  have hstep : ∀ s a, ∃ t, handleStep chainEnv s a = some t := fun _ _ => ⟨_, rfl⟩
  obtain ⟨t, ht⟩ := exists_run hstep s chainRound
  obtain ⟨u, hu⟩ := exists_run hstep s (chainRound ++ chainRound)
  have hM : ∀ a ∈ chainRound, ∀ e, endorsement? chainEnv a = some e →
      e ∈ ({firstEndorse, secondEndorse} : Finset PeerAnnounce) := by
    intro a ha e he
    have hmem : e ∈ endorsementsOf chainEnv chainRound := List.mem_filterMap.2 ⟨a, ha, he⟩
    rw [endorsementsOf_chainRound] at hmem
    simpa [or_comm] using hmem
  have hboth : ∀ a ∈ chainRound ++ chainRound, a ∈ chainRound := by simp
  have hclosure := (trusted_closure chainEnv 7 (some (Hex.encode firstKey.toList)) none none none false false
    {firstEndorse, secondEndorse} (chainRound ++ chainRound) (fun a ha => hM a (hboth a ha))
    (along_displays (fun a ha => hdisplays a (hboth a ha)) hfree)).2.2.2 [chainRound, chainRound] [] u
    (by simp) Finset.card_le_two (by simp [endorsementsOf_chainRound]) hu
  refine ⟨t, u, ht, ?_, hu, ?_, hclosure⟩
  · have hvalue := (run_trusted hfree (along_displays hdisplays hfree) ht).2
    rw [endorsementsOf_chainRound] at hvalue
    rw [hvalue]
    show Hex.encode thirdKey.toList ∉ (endorsements chainEnv).applyAll _ chainLoaded
    rw [applyAll_chainRound]
    decide +kernel
  · -- the closure is closed under both, and holds the first key
    obtain ⟨hloaded, hclosed⟩ := Rules.isLeast_closure (R := endorsements chainEnv)
      (M := {firstEndorse, secondEndorse}) (T := chainLoaded) |>.1
    have hfirst : Hex.encode firstKey.toList ∈
        (endorsements chainEnv).closure {firstEndorse, secondEndorse} chainLoaded :=
      hloaded (by rw [chainLoaded_eq]; exact Finset.mem_coe.2 (Finset.mem_singleton_self _))
    have hsecond := hclosed firstEndorse (by simp) _ guard_firstEndorse hfirst
      (Finset.mem_coe.2 (Finset.mem_singleton_self (Hex.encode secondKey.toList)))
    have hthird := hclosed secondEndorse (by simp) _ guard_secondEndorse hsecond
      (Finset.mem_coe.2 (Finset.mem_singleton_self (Hex.encode thirdKey.toList)))
    rw [← Finset.mem_coe]
    rw [hclosure]
    exact hthird

end PodpingAlpha.Listener
