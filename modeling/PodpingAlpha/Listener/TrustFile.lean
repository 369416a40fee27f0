import PodpingAlpha.Library.Lines
import PodpingAlpha.Listener.Codec
import PodpingAlpha.Listener.Trust

/-!
# The trusted-publishers file

`save_trusted_publishers` writes the trusted set with one key a line, and `load_trusted_publishers`
trims the lines and drops those that are blank. The keys are what a trusted sender endorses, whatever
that is.

## The model

A run from the start in which the file can be written. Where a message panics on the way the set may
have grown without being saved.

## What is proved

* `load_save_iff` — which sets survive a restart.
* `trust_handle` — what an input does to the set and to its file.
* `trust_persists_iff` — after every input that adds a key the file gives the set, exactly when all the keys
  that are ever added are entries of a file whose log line can be printed.
* `padded_key_lost` — a key with a blank in front.
-/

namespace PodpingAlpha.Listener

open Outcome Text Transition

/-- The trusted set and its file. -/
def Node.trust (s : Node) : Lock (Finset String) × Option String :=
  (s.trustedPublishers, s.trustedPublishersFile)

variable {env : Env} {s : Node} {m : Moment}

/-! ### The file -/

theorem entry_of_mem_load {file : Option String} {key : String}
    (h : key ∈ loadTrustedPublishers file) : Entry key :=
  entry_of_mem (List.mem_toFinset.1 h)

/-- **What survives a restart**: a set of keys each of which is an entry. -/
theorem load_save_iff (hm : m.trustedFileOpens = true) {tp : Finset String} {file : Option String} :
    loadTrustedPublishers (saveTrustedPublishers env m tp file) = tp ↔ ∀ key ∈ tp, Entry key := by
  constructor
  · intro h key hkey
    rw [← h] at hkey
    exact entry_of_mem_load hkey
  · intro h
    obtain ⟨-, hvisit⟩ := env.visit_spec tp
    have hentries : ∀ key ∈ env.visit tp, Entry key := fun key hkey =>
      h key (hvisit ▸ List.mem_toFinset.2 hkey)
    rw [saveTrustedPublishers, if_pos hm]
    show (entries (print (env.visit tp))).toFinset = tp
    rw [entries_print hentries, hvisit]

/-! ### The keys that are added -/

/-- The name of a message, if it has one, can be entered and printed. -/
def NameEnters (s : Node) (keys : List String) (a : PeerAnnounce) : Prop :=
  a.sanitized.isSome → s.peerNames.poisoned = false ∧ NamePrints s keys a

instance (s : Node) (keys : List String) (a : PeerAnnounce) : Decidable (NameEnters s keys a) :=
  inferInstanceAs (Decidable (_ → _ ∧ _))

/-- The keys that an endorsement adds: those that are new, if its signature verifies, its sender is
trusted, and its name can be entered. -/
def newKeys (env : Env) (s : Node) (a : PeerAnnounce) : Finset String :=
  match a.verifiedSender env.ed25519 with
  | some sender =>
    if sender ∈ s.trustedPublishers.value ∧ NameEnters s [sender, a.nodeId] a then
      a.keys \ s.trustedPublishers.value
    else ∅
  | none => ∅

/-- The keys that an input adds. -/
def addedKeys (env : Env) (s : Node) (a : Moment × Input) : Finset String :=
  (endorsement? env a).elim ∅ (newKeys env s)

/-- What becomes of the set and its file when keys are to be added. -/
inductive Added (env : Env) (m : Moment) (s : Node) (new : Finset String) (t : Node) : Prop where
  /-- There are none. -/
  | none (hnew : new = ∅) (h : t.trust = s.trust)
  /-- They are added, and the set is saved. -/
  | saved (hnew : new ≠ ∅) (hcuts : ∀ key ∈ new, Cuts 8 key)
      (h : t.trust = (⟨s.trustedPublishers.value ∪ new, false⟩,
        saveTrustedPublishers env m (s.trustedPublishers.value ∪ new) s.trustedPublishersFile))
  /-- The log line of one of them panics, before the set is saved. -/
  | torn (hcuts : ∃ key ∈ new, ¬Cuts 8 key)
      (hgrown : s.trustedPublishers.value ⊂ t.trustedPublishers.value)
      (hfile : t.trustedPublishersFile = s.trustedPublishersFile)

/-- It does not depend on the rest of the node. -/
theorem Added.congr {new : Finset String} {t u : Node} (h : Added env m t new u)
    (hsame : t.trust = s.trust) : Added env m s new u := by
  obtain ⟨htrusted, hfile⟩ := Prod.mk.inj hsame
  cases h with
  | none hnew h => exact .none hnew (h.trans hsame)
  | saved hnew hcuts h =>
    rw [htrusted, hfile] at h
    exact .saved hnew hcuts h
  | torn hcuts hgrown hu =>
    rw [htrusted] at hgrown
    exact .torn hcuts hgrown (hu.trans hfile)

/-- The loop over the keys: it counts those that are new, or panics having added one. -/
theorem wp_addKeys_count {sender : String} (hsender : Cuts 8 sender) {nodeList : List String}
    {tp : Finset String} :
    wp (addKeys sender nodeList)
      (fun added tp' => (∀ key ∈ nodeList, key ∉ tp → Cuts 8 key) ∧ tp' = tp ∪ nodeList.toFinset ∧
        (0 < added ↔ ∃ key ∈ nodeList, key ∉ tp))
      (fun _ tp' => (∃ key ∈ nodeList, key ∉ tp ∧ ¬Cuts 8 key) ∧ tp ⊂ tp') tp := by
  induction nodeList generalizing tp with
  | nil =>
    refine ⟨fun key h => absurd h List.not_mem_nil, (Finset.union_empty tp).symm, ?_⟩
    exact iff_of_false (lt_irrefl 0) fun ⟨key, h, _⟩ => absurd h List.not_mem_nil
  | cons key nodeList ih =>
    rw [addKeys, wp_bind, wp_get, wp_ite]
    by_cases hkey : key ∈ tp
    · rw [if_pos hkey]
      refine wp_mono (fun added tp' h => ?_) (fun _ tp' h => ?_) ih
      · obtain ⟨hcuts, rfl, hcount⟩ := h
        refine ⟨List.forall_mem_cons.2 ⟨fun h => absurd hkey h, hcuts⟩, ?_, ?_⟩
        · rw [List.toFinset_cons, Finset.union_insert, Finset.insert_eq_of_mem (Finset.mem_union_left _ hkey)]
        · rw [hcount, List.exists_mem_cons_iff, or_iff_right (not_not.2 hkey)]
      · obtain ⟨⟨key', hkey', hnew⟩, hgrown⟩ := h
        exact ⟨⟨key', List.mem_cons_of_mem key hkey', hnew⟩, hgrown⟩
    · have hgrown : tp ⊂ insert key tp := Finset.ssubset_insert hkey
      rw [if_neg hkey, wp_bind, wp_modify, wp_bind, wp_cut_short]
      split_ifs with hcut
      · rw [wp_bind, wp_cut_short, if_pos hsender, wp_bind]
        refine wp_mono (fun added tp' h => ?_) (fun _ tp' h => ?_) ih
        · obtain ⟨hcuts, rfl, -⟩ := h
          refine ⟨List.forall_mem_cons.2 ⟨fun _ => hcut, fun key' hmem hnew => ?_⟩, ?_, ?_⟩
          · by_cases heq : key' = key
            · exact heq ▸ hcut
            · exact hcuts key' hmem fun h => (Finset.mem_insert.1 h).elim heq hnew
          · rw [List.toFinset_cons, Finset.union_insert, Finset.insert_union]
          · exact iff_of_true (Nat.succ_pos added) ⟨key, List.mem_cons_self, hkey⟩
        · obtain ⟨⟨key', hmem, hnew, hnot⟩, hmore⟩ := h
          refine ⟨⟨key', List.mem_cons_of_mem key hmem, fun h => ?_, hnot⟩, hgrown.trans hmore⟩
          exact hnew (Finset.mem_insert_of_mem h)
      · exact ⟨⟨key, List.mem_cons_self, hkey, hcut⟩, hgrown⟩

theorem added_keys (hfree : s.trustedPublishers.poisoned = false) {sender : String}
    (hsender : Cuts 8 sender) (nodeList : List String) :
    wp (addEndorsedKeys env m sender nodeList)
      (fun _ t => Added env m s (nodeList.toFinset \ s.trustedPublishers.value) t)
      (fun _ t => Added env m s (nodeList.toFinset \ s.trustedPublishers.value) t) s := by
  have hmem : ∀ key, key ∈ nodeList.toFinset \ s.trustedPublishers.value ↔
      key ∈ nodeList ∧ key ∉ s.trustedPublishers.value := fun key => by
    rw [Finset.mem_sdiff, List.mem_toFinset]
  have hunion : s.trustedPublishers.value ∪ nodeList.toFinset =
      s.trustedPublishers.value ∪ nodeList.toFinset \ s.trustedPublishers.value :=
    (Finset.union_sdiff_self_eq_union ..).symm
  rw [addEndorsedKeys]
  rw [wp_bind, wp_zoom_hold (l := trusted) hfree]
  refine wp_mono (fun added tp h => ?_) (fun _ tp h => ?_) (wp_addKeys_count hsender)
  · obtain ⟨hcuts, rfl, hcount⟩ := h
    rw [wp_ite, wp_bind, wp_zoom_read rfl, wp_modify]
    split_ifs with hadded
    · obtain ⟨key, hkey, hnew⟩ := hcount.1 hadded
      refine .saved (fun hnone => ?_) (fun key' hkey' => ?_) ?_
      · exact Finset.notMem_empty key (hnone ▸ (hmem key).2 ⟨hkey, hnew⟩)
      · exact hcuts key' ((hmem key').1 hkey').1 ((hmem key').1 hkey').2
      · rw [← hunion]
        rfl
    · have hnone : nodeList.toFinset \ s.trustedPublishers.value = ∅ :=
        Finset.eq_empty_of_forall_notMem fun key hkey => hadded (hcount.2 ⟨key, (hmem key).1 hkey⟩)
      refine .none hnone ?_
      show ((⟨s.trustedPublishers.value ∪ nodeList.toFinset, false⟩ : Lock (Finset String)), _) = s.trust
      rw [hunion, hnone, Finset.union_empty, ← hfree]
      rfl
  · obtain ⟨⟨key, hkey, hnew, hcut⟩, hgrown⟩ := h
    exact .torn ⟨key, (hmem key).2 ⟨hkey, hnew⟩, hcut⟩ hgrown rfl

/-- Entering the name leaves the set and the file alone, and panics unless the name enters. -/
theorem wp_enterName_trust {a : PeerAnnounce} {sender : String} :
    wp (enterName a (nameEndorser sender a.nodeId))
      (fun _ t => NameEnters s [sender, a.nodeId] a ∧ t.trust = s.trust)
      (fun _ t => ¬NameEnters s [sender, a.nodeId] a ∧ t.trust = s.trust) s := by
  have hkeeps : Keeps Node.trust (enterName a (nameEndorser sender a.nodeId)) :=
    keeps_enterName fun _ _ => rfl
  refine wp_and.2 ⟨?_, hkeeps.wp⟩
  cases hpoisoned : s.peerNames.poisoned with
  | false =>
    have henters : NameEnters s [sender, a.nodeId] a ↔ NamePrints s [sender, a.nodeId] a := by
      refine ⟨fun h sanitized hname => ?_, fun h _ => ⟨hpoisoned, h⟩⟩
      exact (h (Option.isSome_iff_exists.2 ⟨sanitized, hname⟩)).2 sanitized hname
    refine (wp_enterName hpoisoned (fun _ _ _ _ => wp_nameEndorser) (Q := fun _ => NameEnters s _ a)
      (F := fun _ => ¬NameEnters s _ a) fun _ => Iff.rfl).2 ?_
    split_ifs with hprints
    · exact henters.2 hprints
    · exact mt henters.1 hprints
  | true =>
    have hnot : a.sanitized.isSome → ¬NameEnters s [sender, a.nodeId] a := fun hname h =>
      absurd (hpoisoned.symm.trans (h hname).1) (by decide)
    rw [enterName]
    cases hname : a.sanitized with
    | none => exact fun h => by simp [hname] at h
    | some sanitized =>
      rw [wp_zoom, wp_hold]
      exact (if_pos hpoisoned).symm ▸ hnot (Option.isSome_iff_exists.2 ⟨sanitized, hname⟩)

/-- What an endorsement with a verified signature does. -/
theorem added_verified (hfree : s.trustedPublishers.poisoned = false) {a : PeerAnnounce} {sender : String}
    (hverified : a.verifiedSender env.ed25519 = some sender) (hsender : Cuts 8 sender) :
    wp (handleVerified env m a sender) (fun _ t => Added env m s (newKeys env s a) t)
      (fun _ t => Added env m s (newKeys env s a) t) s := by
  rw [handleVerified]
  rw [wp_bind, wp_zoom_read (l := trusted) hfree, wp_ite]
  show (if sender ∈ s.trustedPublishers.value then _ else _)
  by_cases hmem : sender ∈ s.trustedPublishers.value
  · rw [if_pos hmem, wp_bind]
    refine wp_mono (fun _ t h => ?_) (fun _ t h => ?_) wp_enterName_trust
    · obtain ⟨henters, hsame⟩ := h
      obtain ⟨htrusted, hfile⟩ := Prod.mk.inj hsame
      have hnew : newKeys env s a = (a.nodeList.getD []).toFinset \ s.trustedPublishers.value := by
        rw [newKeys, hverified]
        exact if_pos ⟨hmem, henters⟩
      rw [hnew]
      cases hlist : a.nodeList with
      | none => exact .none (Finset.empty_sdiff _) hsame
      | some nodeList =>
        have hfreet : t.trustedPublishers.poisoned = false := by rw [htrusted, hfree]
        have hkeys : wp (addEndorsedKeys env m sender nodeList) _ _ t := added_keys hfreet hsender nodeList
        rw [htrusted] at hkeys
        exact wp_mono (fun _ u hu => hu.congr hsame) (fun _ u hu => hu.congr hsame) hkeys
    · obtain ⟨henters, hsame⟩ := h
      have hnone : newKeys env s a = ∅ := by
        rw [newKeys, hverified]
        exact if_neg fun h => henters h.2
      exact .none hnone hsame
  · have hnone : newKeys env s a = ∅ := by
      rw [newKeys, hverified]
      exact if_neg fun h => hmem h.1
    rw [if_neg hmem, wp_bind, wp_cut_short, if_pos hsender]
    exact .none hnone rfl

/-- What an endorsement does. -/
theorem added_endorse (hfree : s.trustedPublishers.poisoned = false) (a : PeerAnnounce) :
    Added env m s (newKeys env s a) (after (handleEndorse env m a) s) := by
  refine (wp_after (P := Added env m s (newKeys env s a))).1 ?_
  have hnone : a.verifiedSender env.ed25519 = none → Added env m s (newKeys env s a) s := fun h =>
    .none (by rw [newKeys, h]) rfl
  rw [handleEndorse]
  rw [wp_bind]
  cases hr : a.verifyEndorseSignature env.ed25519 with
  | error p => exact hnone (by simp [PeerAnnounce.verifiedSender, hr])
  | ok r =>
    rw [wp_ofPure_ok rfl]
    cases r with
    | error e => exact hnone (by simp [PeerAnnounce.verifiedSender, hr])
    | ok valid =>
      cases valid with
      | false => exact hnone (by simp [PeerAnnounce.verifiedSender, hr])
      | true =>
        obtain ⟨sender, hsender, b, hb, -⟩ := PeerAnnounce.decode_of_verified hr
        have hverified : a.verifiedSender env.ed25519 = some sender := by
          simp [PeerAnnounce.verifiedSender, hr, hsender]
        dsimp only
        rw [hsender]
        exact added_verified hfree hverified (cuts_of_decode hb 8)

/-- **What an input does** to the set and its file. -/
theorem trust_handle (hfree : s.trustedPublishers.poisoned = false) (a : Moment × Input) :
    Added env a.1 s (addedKeys env s a) (after (handle env a.1 a.2) s) := by
  obtain ⟨m, a⟩ := a
  cases a with
  | live ev =>
    cases ev with
    | neighborUp nodeId =>
      exact .none rfl (keeps_neighborUp (fun _ _ _ => rfl) (fun _ _ _ _ => rfl) env m nodeId s)
    | neighborDown nodeId =>
      exact .none rfl (keeps_neighborDown (fun _ _ _ => rfl) env m nodeId s)
    | lagged => exact .none rfl rfl
    | received content deliveredFrom =>
      let u : Node := { s with uniqueSources := insert deliveredFrom s.uniqueSources }
      show Added env m s ((classify env content).endorsement?.elim ∅ (newKeys env u))
        (after (handleMessage env m content (classify env content)) u)
      cases classify env content with
      | suggest g => exact .none rfl (keeps_suggest (fun _ _ => rfl) env m g u)
      | announce a => exact .none rfl (keeps_announce (fun _ _ => rfl) (fun _ _ => rfl) env m a u)
      | endorse a => exact (added_endorse (by exact hfree) a).congr rfl
      | notification n =>
        exact .none rfl (keeps_notification (fun _ _ _ => rfl) (fun _ _ _ => rfl) (fun _ _ _ => rfl)
          env m content n u)
      | ignored => exact .none rfl rfl
  | catchup payload => exact .none rfl (keeps_catchup (fun _ _ _ => rfl) env m payload s)

/-! ### Runs -/

/-- When the input adds a key, the file then gives the set. -/
def Persists (env : Env) (s : Node) (a : Moment × Input) : Prop :=
  let t := after (handle env a.1 a.2) s
  t.trustedPublishers.value ≠ s.trustedPublishers.value →
    loadTrustedPublishers t.trustedPublishersFile = t.trustedPublishers.value

/-- The keys that the input adds are entries of a file, and their log lines can be printed. -/
def AddsEntries (env : Env) (s : Node) (a : Moment × Input) : Prop :=
  ∀ key ∈ addedKeys env s a, Entry key ∧ Cuts 8 key

/-- The lock is free, and the file gives the set. -/
structure Saved (s : Node) : Prop where
  /-- The lock is free. -/
  free : s.trustedPublishers.poisoned = false
  /-- The file gives the set. -/
  load : loadTrustedPublishers s.trustedPublishersFile = s.trustedPublishers.value

/-- What the set has is then entries. -/
theorem Saved.entry (h : Saved s) {key : String} (hkey : key ∈ s.trustedPublishers.value) : Entry key :=
  entry_of_mem_load (h.load ▸ hkey)

theorem Saved.persists_iff (h : Saved s) {a : Moment × Input} (hm : a.1.trustedFileOpens = true) :
    Persists env s a ↔ AddsEntries env s a := by
  have hadded : Added env a.1 s (addedKeys env s a) _ := trust_handle h.free a
  unfold Persists AddsEntries
  generalize after (handle env a.1 a.2) s = t at hadded
  generalize addedKeys env s a = new at hadded
  cases hadded with
  | none hnew hsame =>
    obtain ⟨htrusted, -⟩ := Prod.mk.inj hsame
    subst hnew
    exact iff_of_true (fun hne => absurd (congrArg Lock.value htrusted) hne)
      fun key hkey => absurd hkey (Finset.notMem_empty key)
  | saved hnew hcuts hsaved =>
    obtain ⟨htrusted, hfile⟩ := Prod.mk.inj hsaved
    have hsaves : loadTrustedPublishers t.trustedPublishersFile = t.trustedPublishers.value ↔
        ∀ key ∈ new, Entry key := by
      rw [htrusted, hfile, load_save_iff hm]
      exact ⟨fun hall key hkey => hall key (Finset.mem_union_right _ hkey), fun hall key hkey =>
        (Finset.mem_union.1 hkey).elim h.entry (hall key)⟩
    constructor
    · intro hload key hkey
      refine ⟨?_, hcuts key hkey⟩
      by_cases hold : key ∈ s.trustedPublishers.value
      · exact h.entry hold
      · refine hsaves.1 (hload fun hsame => hold ?_) key hkey
        rw [← hsame, htrusted]
        exact Finset.mem_union_right _ hkey
    · exact fun hall _ => hsaves.2 fun key hkey => (hall key hkey).1
  | torn hcuts hgrown hfile =>
    obtain ⟨key, hkey, hcut⟩ := hcuts
    refine iff_of_false (fun hload => hgrown.ne ?_) fun hall => hcut (hall key hkey).2
    rw [← hload hgrown.ne', hfile, h.load]

/-- An input that adds entries keeps the file up to date. -/
theorem Saved.step (h : Saved s) {a : Moment × Input} (hm : a.1.trustedFileOpens = true)
    (ha : AddsEntries env s a) : Saved (after (handle env a.1 a.2) s) := by
  have hpersists : Persists env s a := (h.persists_iff hm).2 ha
  have hadded : Added env a.1 s (addedKeys env s a) _ := trust_handle h.free a
  unfold Persists at hpersists
  unfold AddsEntries at ha
  generalize after (handle env a.1 a.2) s = t at hadded hpersists
  generalize addedKeys env s a = new at hadded ha
  cases hadded with
  | none _ hsame =>
    obtain ⟨htrusted, hfile⟩ := Prod.mk.inj hsame
    exact ⟨by rw [htrusted, h.free], by rw [htrusted, hfile, h.load]⟩
  | saved _ _ hsaved =>
    obtain ⟨htrusted, hfile⟩ := Prod.mk.inj hsaved
    refine ⟨by rw [htrusted], ?_⟩
    rw [htrusted, hfile, load_save_iff hm]
    exact fun key hkey => (Finset.mem_union.1 hkey).elim h.entry fun hnew => (ha key hnew).1
  | torn hcuts _ _ =>
    obtain ⟨key, hkey, hcut⟩ := hcuts
    exact absurd (ha key hkey).2 hcut

/-- **The trusted set survives a restart**: in every run from the start in which the file can be
written, after each input that adds a key the file gives the set, if and only if every key that is
added is an entry of a file, not empty, without white space around it and of one line, and its log
line can be printed. -/
theorem trust_persists_iff (env : Env) (now : UInt64)
    (trustedFile monitorsFile peersFile : Option String) (db : Option Archive)
    (sseEnabled catchupEnabled : Bool) (as : List (Moment × Input))
    (hopens : ∀ a ∈ as, a.1.trustedFileOpens = true) :
    let s : Node := .start now trustedFile monitorsFile peersFile db sseEnabled catchupEnabled
    Along (handleStep env) (Persists env) s as ↔ Along (handleStep env) (AddsEntries env) s as := by
  refine along_iff_of_inv (I := Saved) (A := fun a => a.1.trustedFileOpens = true)
    (fun s a t hs hm ha h => ?_) (fun s a hs hm => hs.persists_iff hm) ⟨rfl, rfl⟩ hopens
  cases h
  exact hs.step hm ha

/-! ### A key with a blank in front -/

/-- The trusted key of the small world. -/
def plainSender : String := Hex.encode (List.Vector.replicate 32 0).toList

/-- It endorses one key. -/
def plainEndorsement (key : String) : PeerAnnounce :=
  ⟨"peer_endorse", "node", "1.0", 7, some plainSender, some [key],
    some (Hex.encode (List.Vector.replicate 64 0).toList), none⟩

/-- A world in which its signature verifies. -/
def endorsingEnv (key : String) : Env :=
  { plainEnv ⟨"1.0", "aa", 7, "podcast", "update", [], none, none⟩ with
    parsePeerAnnounce := fun raw => if raw = [2] then some (plainEndorsement key) else none
    ed25519 := ⟨fun _ => true, fun _ _ _ => true⟩ }

theorem verifiedSender_plain (key : String) :
    (plainEndorsement key).verifiedSender (endorsingEnv key).ed25519 = some plainSender := by
  have hvalid : (endorsingEnv key).ed25519.verifyingKey (.replicate 32 0) := rfl
  have hkeys : keyAndSignature (endorsingEnv key).ed25519 plainSender _ = .ok (_, .replicate 64 0) :=
    keyAndSignature_encode hvalid (.replicate 64 0)
  have hverify : (plainEndorsement key).verifyEndorseSignature (endorsingEnv key).ed25519 =
      .ok (.ok true) := by
    rw [PeerAnnounce.verifyEndorseSignature]
    simp only [plainEndorsement, hkeys]
    rfl
  have hsender : (plainEndorsement key).sender = some plainSender := rfl
  simp only [PeerAnnounce.verifiedSender, hverify, hsender]

theorem addedKeys_plain (key : String) :
    addedKeys (endorsingEnv key) (.start 7 (some plainSender) none none none false false)
      (.fine 7, .live (.received [2] "peer")) = {key} \ {plainSender} := by
  have hendorse : endorsement? (endorsingEnv key) (.fine 7, .live (.received [2] "peer")) =
      some (plainEndorsement key) := rfl
  have hloaded : loadTrustedPublishers (some plainSender) = {plainSender} := by decide
  have hmem : plainSender ∈ loadTrustedPublishers (some plainSender) :=
    hloaded ▸ Finset.mem_singleton_self plainSender
  rw [addedKeys, hendorse, Option.elim_some, newKeys, verifiedSender_plain]
  refine (if_pos ⟨hmem, fun h => absurd h Bool.false_ne_true⟩).trans ?_
  show [key].toFinset \ loadTrustedPublishers (some plainSender) = _
  rw [hloaded]
  rfl

theorem trust_persists_iff_one :
    Along (handleStep (endorsingEnv "bb")) (Persists (endorsingEnv "bb"))
      (.start 7 (some plainSender) none none none false false)
      [(.fine 7, .live (.received [2] "peer"))] := by
  refine (trust_persists_iff (endorsingEnv "bb") 7 (some plainSender) none none none false false _ ?_).2 ?_
  · decide
  · refine ⟨?_, fun _ _ => trivial⟩
    rw [AddsEntries, addedKeys_plain]
    decide

/-- The set has the key with the blank, the file gives it without. -/
theorem padded_key_lost :
    ¬Along (handleStep (endorsingEnv " bb")) (Persists (endorsingEnv " bb"))
      (.start 7 (some plainSender) none none none false false)
      [(.fine 7, .live (.received [2] "peer"))] := by
  rintro ⟨h, -⟩
  have hsaved : Saved (.start 7 (some plainSender) none none none false false) := ⟨rfl, rfl⟩
  have hadds := (hsaved.persists_iff rfl).1 h
  rw [AddsEntries, addedKeys_plain] at hadds
  exact absurd hadds (by decide)

end PodpingAlpha.Listener
