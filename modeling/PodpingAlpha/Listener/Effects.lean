import PodpingAlpha.Listener.HandleEvent

/-!
# What the handlers do

For each part of the receive step, what it leaves alone and, where the locks it takes are free, when
it returns and with what.

## What is proved

* `keeps_suggest`, `keeps_neighborUp`, `keeps_neighborDown`, `keeps_announce`, `keeps_endorse`,
  `keeps_notification`, `keeps_catchup` — a handler leaves alone what does not depend on the fields it
  writes.
* `wp_printPeerTable`, `wp_nameNode`, `wp_nameEndorser`, `wp_addKeys`, `wp_trackSeq` — the programs
  that run under a lock.
* `wp_handleAnnounce`, `wp_handleEndorse`, `completes_handleNotification`, `completes_handleSuggest`
  — when the handlers return, and with what.
-/

namespace PodpingAlpha.Listener

open Outcome Text

/-! ### What is left alone -/

/-- What the listener keeps of the notifications. -/
def Node.sinks (s : Node) : Option Archive × Option (List String) × Seqs :=
  (s.db, s.sseTx, s.lastSeqPerSender.value)

/-- What messages are judged and shown by. -/
def Node.standing (s : Node) : Lock (Finset String) × Lock Names :=
  (s.trustedPublishers, s.peerNames)

section Kept

variable {α : Type} {f : Node → α}

theorem keeps_suggest (hjoined : ∀ s joined, f { s with joined } = f s) (env : Env) (m : Moment)
    (g : PeerSuggest) : Keeps f (handleSuggest env m g) :=
  keeps_bind keeps_get fun _ => keeps_ite
    (keeps_bind keeps_cut fun _ => keeps_modify fun _ => hjoined _ _) keeps_pure

theorem keeps_neighborUp
    (hcount : ∀ s neighborCount neighborIds, f { s with neighborCount, neighborIds } = f s)
    (hfile : ∀ s peersFile neighborTx neighborRx,
      f { s with peersFile, neighborTx, neighborRx } = f s)
    (env : Env) (m : Moment) (nodeId : String) : Keeps f (receive env m (.neighborUp nodeId)) :=
  keeps_bind (keeps_modify fun _ => hcount _ _ _) fun _ =>
    keeps_bind keeps_read fun _ => keeps_modify fun _ => hfile _ _ _ _

theorem keeps_neighborDown
    (hcount : ∀ s neighborCount neighborIds, f { s with neighborCount, neighborIds } = f s)
    (env : Env) (m : Moment) (nodeId : String) : Keeps f (receive env m (.neighborDown nodeId)) :=
  keeps_bind (keeps_modify fun _ => hcount _ _ _) fun _ => keeps_bind keeps_read fun _ => keeps_pure

theorem keeps_enterName {a : PeerAnnounce} {enter : String → Program Names Unit}
    (hnames : ∀ s peerNames, f { s with peerNames } = f s) : Keeps f (enterName a enter) := by
  rw [enterName]
  split
  · exact keeps_zoom fun lock s => hnames s lock
  · exact keeps_pure

theorem keeps_announce (hfile : ∀ s peersFile, f { s with peersFile } = f s)
    (hnames : ∀ s peerNames, f { s with peerNames } = f s) (env : Env) (m : Moment)
    (a : PeerAnnounce) : Keeps f (handleAnnounce env m a) := by
  refine keeps_bind ?_ fun _ => keeps_enterName hnames
  rw [savePeer]
  split
  · exact keeps_modify fun _ => hfile _ _
  · exact keeps_pure

theorem keeps_endorse (htrusted : ∀ s trustedPublishers, f { s with trustedPublishers } = f s)
    (hfile : ∀ s trustedPublishersFile, f { s with trustedPublishersFile } = f s)
    (hnames : ∀ s peerNames, f { s with peerNames } = f s) (env : Env) (m : Moment)
    (a : PeerAnnounce) : Keeps f (handleEndorse env m a) := by
  have hkeys : ∀ sender nodeList, Keeps f (addEndorsedKeys env m sender nodeList) :=
    fun sender nodeList => keeps_bind (keeps_zoom fun lock s => htrusted s lock) fun _ =>
      keeps_ite (keeps_bind keeps_read fun _ => keeps_modify fun _ => hfile _ _) keeps_pure
  have hverified : ∀ sender, Keeps f (handleVerified env m a sender) := by
    refine fun sender => keeps_bind keeps_read fun tp => keeps_ite ?_ ?_
    · refine keeps_bind (keeps_enterName hnames) fun _ => ?_
      cases a.nodeList with
      | none => exact keeps_pure
      | some nodeList => exact hkeys sender nodeList
    · exact keeps_bind keeps_cut fun _ => keeps_pure
  refine keeps_bind keeps_ofPure fun r => ?_
  split
  · split
    · exact hverified _
    · exact keeps_pure
  · exact keeps_pure
  · exact keeps_pure

theorem keeps_gated {n : GossipNotification} {body : Program Node Unit} (h : Keeps f body) :
    Keeps f (gated n body) :=
  keeps_bind keeps_read fun _ => keeps_ite h keeps_pure

theorem keeps_recordSeq
    (hseq : ∀ s lastSeqPerSender gaps, f { s with lastSeqPerSender, gaps } = f s) (env : Env)
    (n : GossipNotification) : Keeps f (recordSeq env n) := by
  rw [recordSeq]
  split
  · exact keeps_bind (keeps_zoom fun lock s => hseq s lock s.gaps) fun gap =>
      keeps_modify fun s => hseq s s.lastSeqPerSender (s.gaps ++ gap.toList)
  · exact keeps_pure

theorem keeps_showNotification (hdeliver : ∀ s sseTx db, f { s with sseTx, db } = f s) (env : Env)
    (m : Moment) (raw : Bytes) (n : GossipNotification) : Keeps f (showNotification env m raw n) :=
  keeps_bind keeps_read fun _ => keeps_bind keeps_cut fun _ => keeps_modify fun _ => hdeliver _ _ _

theorem keeps_notification
    (hcount : ∀ s lastNotificationTime notificationsReceived,
      f { s with lastNotificationTime, notificationsReceived } = f s)
    (hseq : ∀ s lastSeqPerSender gaps, f { s with lastSeqPerSender, gaps } = f s)
    (hdeliver : ∀ s sseTx db, f { s with sseTx, db } = f s) (env : Env) (m : Moment) (raw : Bytes)
    (n : GossipNotification) : Keeps f (handleNotification env m raw n) :=
  keeps_bind (keeps_modify fun _ => hcount _ _ _) fun _ => keeps_gated <|
    keeps_bind (keeps_recordSeq hseq env n) fun _ => keeps_showNotification hdeliver env m raw n

theorem keeps_catchup (hdeliver : ∀ s sseTx db, f { s with sseTx, db } = f s) (env : Env) (m : Moment)
    (payload : Bytes) : Keeps f (catchupPayload env m payload) := by
  rw [catchupPayload]
  split
  · exact keeps_gated (keeps_bind keeps_cut fun _ => keeps_modify fun _ => hdeliver _ _ _)
  · exact keeps_pure

end Kept

/-! ### Under the lock of the names -/

variable {F : Panic → Prop}

/-- The names after a message. -/
def named (known : Names) (keys : List String) (sanitized : String) : Names :=
  keys.foldl (fun names key => names.insert key sanitized) known

/-- The table is printed only if some name changes, and then every key in it can be cut. -/
def TablePrints (known : Names) (keys : List String) (sanitized : String) : Prop :=
  (∃ key ∈ keys, known.lookup key ≠ some sanitized) →
    (∀ key ∈ keys, Cuts 16 key) ∧ ∀ key ∈ known.keys, Cuts 16 key

instance (known : Names) (keys : List String) (sanitized : String) :
    Decidable (TablePrints known keys sanitized) :=
  inferInstanceAs (Decidable (_ → _))

theorem insert_of_lookup {known : Names} {key sanitized : String}
    (h : known.lookup key = some sanitized) : known.insert key sanitized = known := by
  refine Finmap.ext_lookup fun key' => ?_
  by_cases hkey : key' = key
  · subst hkey
    rw [Finmap.lookup_insert, h]
  · rw [Finmap.lookup_insert_of_ne _ hkey]

theorem wp_printPeerTable {known : Names} {P : Names → Prop} :
    wp printPeerTable (fun _ => P) (fun p _ => F p) known ↔
      if ∀ key ∈ known.keys, Cuts 16 key then P known else F .notCharBoundary := by
  rw [printPeerTable]
  rw [wp_bind, wp_get, wp_ite]
  exact Iff.rfl

theorem mem_named {keys : List String} {known : Names} {sanitized key : String} :
    key ∈ named known keys sanitized ↔ key ∈ keys ∨ key ∈ known := by
  rw [named]
  induction keys generalizing known with
  | nil => simp
  | cons key' keys ih => rw [List.foldl_cons, ih, Finmap.mem_insert, List.mem_cons]; tauto

/-- Printing the table after a change. -/
theorem printed_iff {known : Names} {keys : List String} {sanitized : String} {P Q : Prop} :
    (if ∃ key ∈ keys, known.lookup key ≠ some sanitized then
        if ∀ key ∈ (named known keys sanitized).keys, Cuts 16 key then P else Q
      else P) ↔ if TablePrints known keys sanitized then P else Q := by
  have hcuts : (∀ key ∈ (named known keys sanitized).keys, Cuts 16 key) ↔
      (∀ key ∈ keys, Cuts 16 key) ∧ ∀ key ∈ known.keys, Cuts 16 key := by
    simp only [Finmap.mem_keys, mem_named, or_imp, forall_and]
  by_cases hnew : ∃ key ∈ keys, known.lookup key ≠ some sanitized
  · have hprints : TablePrints known keys sanitized ↔
        ∀ key ∈ (named known keys sanitized).keys, Cuts 16 key :=
      ⟨fun h => hcuts.2 (h hnew), fun h _ => hcuts.1 h⟩
    simp only [hnew, if_true, hprints]
  · have hprints : TablePrints known keys sanitized := fun h => absurd h hnew
    rw [if_neg hnew, if_pos hprints]

theorem wp_nameNode {known : Names} {nodeId sanitized : String} {P : Names → Prop} :
    wp (nameNode nodeId sanitized) (fun _ => P) (fun p _ => F p) known ↔
      if TablePrints known [nodeId] sanitized then P (named known [nodeId] sanitized)
      else F .notCharBoundary := by
  rw [← printed_iff]
  rw [nameNode]
  simp only [wp_bind, wp_get, wp_modify, wp_ite, wp_printPeerTable, wp_pure, List.mem_singleton,
    exists_eq_left]
  exact Iff.rfl

theorem wp_insertName {known : Names} {key sanitized : String} {Q : Bool → Names → Prop}
    {E : Panic → Names → Prop} :
    wp (insertName key sanitized) Q E known ↔
      Q (known.lookup key ≠ some sanitized) (known.insert key sanitized) := by
  rw [insertName]
  simp only [wp_bind, wp_get, wp_ite, wp_modify, wp_pure]
  split_ifs with h
  · simp [h]
  · rw [not_not] at h
    simp [h, insert_of_lookup]

theorem wp_nameEndorser {known : Names} {sender nodeId sanitized : String} {P : Names → Prop} :
    wp (nameEndorser sender nodeId sanitized) (fun _ => P) (fun p _ => F p) known ↔
      if TablePrints known [sender, nodeId] sanitized then P (named known [sender, nodeId] sanitized)
      else F .notCharBoundary := by
  -- the second name is looked up after the first was entered, which makes no difference
  have hchanged : (known.lookup sender ≠ some sanitized ∨
      (known.insert sender sanitized).lookup nodeId ≠ some sanitized) ↔
        ∃ key ∈ [sender, nodeId], known.lookup key ≠ some sanitized := by
    simp only [List.exists_mem_cons_iff, List.not_mem_nil, false_and, exists_false, or_false]
    by_cases hsender : known.lookup sender = some sanitized
    · rw [insert_of_lookup hsender]
    · exact iff_of_true (.inl hsender) (.inl hsender)
  rw [← printed_iff]
  rw [nameEndorser]
  simp only [wp_bind, wp_insertName, wp_ite, wp_printPeerTable, wp_pure, Bool.or_eq_true,
    decide_eq_true_eq, hchanged]
  exact Iff.rfl

/-! ### Under the lock of the trusted set -/

theorem wp_addKeys {sender : String} (hsender : Cuts 8 sender) {nodeList : List String}
    {tp : Finset String} {P : Finset String → Prop} :
    wp (addKeys sender nodeList) (fun _ => P) (fun p _ => F p) tp ↔
      if ∀ key ∈ nodeList, key ∉ tp → Cuts 8 key then P (tp ∪ nodeList.toFinset)
      else F .notCharBoundary := by
  induction nodeList generalizing tp with
  | nil => simp [addKeys]
  | cons key nodeList ih =>
    rw [addKeys, wp_bind, wp_get, wp_ite]
    by_cases hkey : key ∈ tp
    · have hrest : (∀ key' ∈ key :: nodeList, key' ∉ tp → Cuts 8 key') ↔
          ∀ key' ∈ nodeList, key' ∉ tp → Cuts 8 key' := by
        rw [List.forall_mem_cons, and_iff_right fun h => absurd hkey h]
      simp only [hkey, if_true, ih, hrest, List.toFinset_cons, Finset.union_insert,
        Finset.insert_eq_of_mem (Finset.mem_union_left _ hkey)]
    · simp only [hkey, if_false, wp_bind, wp_modify, wp_cut_short, hsender, if_true, wp_pure, ih]
      have hrest : (∀ key' ∈ key :: nodeList, key' ∉ tp → Cuts 8 key') ↔
          Cuts 8 key ∧ ∀ key' ∈ nodeList, key' ∉ insert key tp → Cuts 8 key' := by
        rw [List.forall_mem_cons, forall_prop_of_true hkey]
        refine and_congr_right fun hcut => forall₂_congr fun key' _ => ?_
        rw [Finset.mem_insert, not_or, and_imp]
        exact ⟨fun h _ => h, fun h hmem => (eq_or_ne key' key).elim (· ▸ hcut) fun hne => h hne hmem⟩
      by_cases hcut : Cuts 8 key
      · simp only [hrest, hcut, true_and, if_true, List.toFinset_cons, Finset.union_insert,
          Finset.insert_union]
      · simp only [hrest, hcut, false_and, if_false]

/-! ### Under the lock of the sequence numbers -/

/-- The successor of the sender's last number overflows. -/
def Overflows (env : Env) (seqs : Seqs) (sender : String) : Prop :=
  env.overflowChecks ∧ ∃ last ∈ seqs.lookup sender, last.toNat = 2 ^ 64 - 1

instance (env : Env) (seqs : Seqs) (sender : String) : Decidable (Overflows env seqs sender) :=
  inferInstanceAs (Decidable (_ ∧ _))

theorem wp_trackSeq {env : Env} {sender : String} (hsender : Cuts 8 sender) {seq : UInt64}
    {seqs : Seqs} {P : Seqs → Prop} :
    wp (trackSeq env sender seq) (fun _ => P) (fun p _ => F p) seqs ↔
      if Overflows env seqs sender then F .overflow else P (seqs.insert sender seq) := by
  rw [trackSeq]
  rw [wp_bind, wp_get]
  cases hlast : seqs.lookup sender with
  | none =>
    have hover : ¬Overflows env seqs sender := by simp [Overflows, hlast]
    rw [if_neg hover]
    exact Iff.rfl
  | some last =>
    have hiff : Overflows env seqs sender ↔ env.overflowChecks ∧ last.toNat = 2 ^ 64 - 1 := by
      simp [Overflows, hlast]
    by_cases hover : Overflows env seqs sender
    · have hnext : nextSeq env last = .error .overflow := if_pos (hiff.1 hover)
      show wp (ofPure (nextSeq env last) >>= _) _ _ _ ↔ _
      rw [hnext, if_pos hover]
      exact Iff.rfl
    · have hnext : nextSeq env last = .ok (last + 1) := if_neg (mt hiff.2 hover)
      simp only [if_neg hover, wp_bind, wp_ofPure_ok hnext, wp_ite, wp_cut_short, if_pos hsender,
        wp_modify, wp_pure, ite_self]

/-! ### The handlers -/

/-- The trusted set, and whether the other two locks are poisoned. -/
def Node.status (s : Node) : Lock (Finset String) × Bool × Bool :=
  (s.trustedPublishers, s.peerNames.poisoned, s.lastSeqPerSender.poisoned)

/-- No lock is poisoned. -/
def Unpoisoned (s : Node) : Prop :=
  s.trustedPublishers.poisoned = false ∧ s.peerNames.poisoned = false ∧
    s.lastSeqPerSender.poisoned = false

/-- If the message has a name for these keys, the table of names can be printed. -/
def NamePrints (s : Node) (keys : List String) (a : PeerAnnounce) : Prop :=
  ∀ sanitized ∈ a.sanitized, TablePrints s.peerNames.value keys sanitized

/-- The new keys of an endorsement can be printed. -/
def KeysPrint (tp : Finset String) (a : PeerAnnounce) : Prop :=
  ∀ nodeList ∈ a.nodeList, ∀ key ∈ nodeList, key ∉ tp → Cuts 8 key

instance (s : Node) (keys : List String) (a : PeerAnnounce) : Decidable (NamePrints s keys a) :=
  inferInstanceAs (Decidable (∀ _ ∈ _, _))

instance (tp : Finset String) (a : PeerAnnounce) : Decidable (KeysPrint tp a) :=
  inferInstanceAs (Decidable (∀ _ ∈ _, _))

variable {s : Node} {P : Lock (Finset String) × Bool × Bool → Prop}

theorem wp_enterName (hfree : s.peerNames.poisoned = false) {a : PeerAnnounce} {keys : List String}
    {enter : String → Program Names Unit}
    (henter : ∀ sanitized (P : Names → Prop) (F : Panic → Prop) known,
      wp (enter sanitized) (fun _ => P) (fun p _ => F p) known ↔
        if TablePrints known keys sanitized then P (named known keys sanitized)
        else F .notCharBoundary) {Q : Node → Prop}
    (hQ : ∀ known, Q (names.set ⟨known, false⟩ s) ↔ Q s) :
    wp (enterName a enter) (fun _ => Q) (fun p _ => F p) s ↔
      if NamePrints s keys a then Q s else F .notCharBoundary := by
  rw [enterName]
  cases hname : a.sanitized with
  | none =>
    have hprints : NamePrints s keys a := by simp [NamePrints, hname]
    rw [if_pos hprints]
    exact Iff.rfl
  | some sanitized =>
    have hprints : NamePrints s keys a ↔ TablePrints s.peerNames.value keys sanitized := by
      simp [NamePrints, hname]
    simp only [wp_zoom_hold (l := names) hfree, hprints, henter, hQ]
    exact Iff.rfl

theorem status_named (hfree : s.peerNames.poisoned = false) (known : Names) :
    (names.set ⟨known, false⟩ s).status = s.status :=
  congrArg (s.trustedPublishers, ·, s.lastSeqPerSender.poisoned) hfree.symm

theorem wp_handleAnnounce (hfree : s.peerNames.poisoned = false) {env : Env} {m : Moment}
    {a : PeerAnnounce} :
    wp (handleAnnounce env m a) (fun _ t => P t.status) (fun p _ => F p) s ↔
      if NamePrints s [a.nodeId] a then P s.status else F .notCharBoundary := by
  have hname : ∀ s' : Node, s'.peerNames = s.peerNames → s'.status = s.status →
      (wp (enterName a (nameNode a.nodeId)) (fun _ t => P t.status) (fun p _ => F p) s' ↔
        if NamePrints s [a.nodeId] a then P s.status else F .notCharBoundary) := by
    intro s' hnames hstatus
    have hfree' : s'.peerNames.poisoned = false := by rw [hnames, hfree]
    have hprints : NamePrints s' [a.nodeId] a ↔ NamePrints s [a.nodeId] a := by
      simp only [NamePrints]
      rw [hnames]
    rw [wp_enterName hfree' (fun _ _ _ _ => wp_nameNode) fun known => by
      rw [status_named hfree' known]]
    simp only [hprints, hstatus]
  rw [handleAnnounce, savePeer]
  rw [wp_bind]
  cases env.parseNodeId a.nodeId with
  | none => exact hname s rfl rfl
  | some nodeId => exact hname _ rfl rfl

/-- The keys of an endorsement. -/
def PeerAnnounce.keys (a : PeerAnnounce) : Finset String := (a.nodeList.getD []).toFinset

/-- The trusted set after an endorsement with a verified signature of `sender`. -/
def endorsedBy (a : PeerAnnounce) (sender : String) (tp : Finset String) : Finset String :=
  if sender ∈ tp then tp ∪ a.keys else tp

theorem wp_addEndorsedKeys (hfree : s.trustedPublishers.poisoned = false) {env : Env} {m : Moment}
    {sender : String} (hsender : Cuts 8 sender) {nodeList : List String} :
    wp (addEndorsedKeys env m sender nodeList) (fun _ t => P t.status) (fun p _ => F p) s ↔
      if ∀ key ∈ nodeList, key ∉ s.trustedPublishers.value → Cuts 8 key then
        P (⟨s.trustedPublishers.value ∪ nodeList.toFinset, false⟩, s.status.2)
      else F .notCharBoundary := by
  have hsave : ∀ (added : ℕ) (tp : Finset String),
      wp (if 0 < added then do
          let tp ← zoom trusted Lock.read
          modify fun s =>
            { s with trustedPublishersFile := saveTrustedPublishers env m tp s.trustedPublishersFile }
        else pure () : Program Node Unit) (fun _ t => P t.status) (fun p _ => F p)
        (trusted.set ⟨tp, false⟩ s) ↔ P (⟨tp, false⟩, s.status.2) := by
    intro added tp
    rw [wp_ite, wp_bind, wp_zoom_read rfl]
    split_ifs <;> exact Iff.rfl
  rw [addEndorsedKeys]
  simp only [wp_bind, wp_zoom_hold (l := trusted) hfree, hsave]
  exact wp_addKeys hsender

theorem wp_handleVerified (htrusted : s.trustedPublishers.poisoned = false)
    (hnames : s.peerNames.poisoned = false) {env : Env} {m : Moment} {a : PeerAnnounce}
    {sender : String} (hsender : Cuts 8 sender) :
    wp (handleVerified env m a sender) (fun _ t => P t.status) (fun p _ => F p) s ↔
      if sender ∈ s.trustedPublishers.value →
          NamePrints s [sender, a.nodeId] a ∧ KeysPrint s.trustedPublishers.value a then
        P (⟨endorsedBy a sender s.trustedPublishers.value, false⟩, s.status.2)
      else F .notCharBoundary := by
  have hlock : s.trustedPublishers = ⟨s.trustedPublishers.value, false⟩ := by rw [← htrusted]
  have hkeys : ∀ s' : Node, s'.trustedPublishers = s.trustedPublishers → s'.status = s.status →
      (wp (a.nodeList.elim (pure ()) (addEndorsedKeys env m sender)) (fun _ t => P t.status)
          (fun p _ => F p) s' ↔
        if KeysPrint s.trustedPublishers.value a then
          P (⟨s.trustedPublishers.value ∪ a.keys, false⟩, s.status.2)
        else F .notCharBoundary) := by
    intro s' htp hstatus
    cases hlist : a.nodeList with
    | none =>
      have hprint : KeysPrint s.trustedPublishers.value a := by simp [KeysPrint, hlist]
      have hnone : a.keys = ∅ := by simp [PeerAnnounce.keys, hlist]
      rw [if_pos hprint, hnone, Finset.union_empty, ← hlock]
      show P s'.status ↔ P s.status
      rw [hstatus]
    | some nodeList =>
      have hprint : KeysPrint s.trustedPublishers.value a ↔
          ∀ key ∈ nodeList, key ∉ s.trustedPublishers.value → Cuts 8 key := by
        simp [KeysPrint, hlist]
      have hsome : a.keys = nodeList.toFinset := by simp [PeerAnnounce.keys, hlist]
      rw [Option.elim_some, wp_addEndorsedKeys (htp ▸ htrusted) hsender, htp, hstatus, hsome]
      simp only [hprint]
  rw [handleVerified, endorsedBy]
  rw [wp_bind, wp_zoom_read (l := trusted) htrusted, wp_ite]
  show (if sender ∈ s.trustedPublishers.value then _ else _) ↔ _
  by_cases hmem : sender ∈ s.trustedPublishers.value
  · rw [if_pos hmem, wp_bind, wp_enterName hnames (fun _ _ _ _ => wp_nameEndorser) fun known =>
      (hkeys (names.set ⟨known, false⟩ s) rfl (status_named hnames known)).trans
        (hkeys s rfl rfl).symm, hkeys s rfl rfl]
    simp only [hmem, forall_true_left, if_true, ite_and]
  · simp only [hmem, if_false, false_imp_iff, if_true, wp_bind, wp_cut_short, hsender, wp_pure,
      ← hlock]
    exact Iff.rfl

/-- The sender of an endorsement whose signature verifies. -/
def PeerAnnounce.verifiedSender (ed : Ed25519) (a : PeerAnnounce) : Option String :=
  match a.verifyEndorseSignature ed with
  | .ok (.ok true) => a.sender
  | _ => none

/-- The trusted set after an endorsement. -/
def endorsed (env : Env) (a : PeerAnnounce) (tp : Finset String) : Finset String :=
  (a.verifiedSender env.ed25519).elim tp fun sender => endorsedBy a sender tp

/-- What an endorsement that is accepted has printed can be printed. -/
def EndorsePrints (env : Env) (s : Node) (a : PeerAnnounce) : Prop :=
  ∀ sender ∈ a.verifiedSender env.ed25519, sender ∈ s.trustedPublishers.value →
    NamePrints s [sender, a.nodeId] a ∧ KeysPrint s.trustedPublishers.value a

instance (env : Env) (s : Node) (a : PeerAnnounce) : Decidable (EndorsePrints env s a) :=
  inferInstanceAs (Decidable (∀ _ ∈ _, _))

theorem wp_handleEndorse (htrusted : s.trustedPublishers.poisoned = false)
    (hnames : s.peerNames.poisoned = false) {env : Env} {m : Moment} {a : PeerAnnounce}
    (hkeys : a.NamesKeys env.ed25519) :
    wp (handleEndorse env m a) (fun _ t => P t.status) (fun p _ => F p) s ↔
      if EndorsePrints env s a then
        P (⟨endorsed env a s.trustedPublishers.value, false⟩, s.status.2)
      else F .notCharBoundary := by
  have hlock : s.trustedPublishers = ⟨s.trustedPublishers.value, false⟩ := by rw [← htrusted]
  have hnone : a.verifiedSender env.ed25519 = none →
      (P s.status ↔ if EndorsePrints env s a then
        P (⟨endorsed env a s.trustedPublishers.value, false⟩, s.status.2) else F .notCharBoundary) := by
    intro hsender
    have hprints : EndorsePrints env s a := by simp [EndorsePrints, hsender]
    have hsame : endorsed env a s.trustedPublishers.value = s.trustedPublishers.value := by
      simp [endorsed, hsender]
    rw [if_pos hprints, hsame, ← hlock]
    exact Iff.rfl
  obtain ⟨r, hr⟩ := verifyEndorseSignature_returns.2 hkeys
  rw [handleEndorse]
  rw [wp_bind, wp_ofPure_ok hr]
  match r with
  | .error e => exact hnone (by simp [PeerAnnounce.verifiedSender, hr])
  | .ok false => exact hnone (by simp [PeerAnnounce.verifiedSender, hr])
  | .ok true =>
    obtain ⟨sender, hsender, b, hb, -⟩ := PeerAnnounce.decode_of_verified hr
    have hverified : a.verifiedSender env.ed25519 = some sender := by
      simp [PeerAnnounce.verifiedSender, hr, hsender]
    have hprints : EndorsePrints env s a ↔ (sender ∈ s.trustedPublishers.value →
        NamePrints s [sender, a.nodeId] a ∧ KeysPrint s.trustedPublishers.value a) := by
      simp [EndorsePrints, hverified]
    have hset : endorsed env a s.trustedPublishers.value =
        endorsedBy a sender s.trustedPublishers.value := by simp [endorsed, hverified]
    simp only [hsender, hprints, hset]
    exact wp_handleVerified htrusted hnames (cuts_of_decode hb 8)

/-- An endorsement without keys, but with a key and a signature. -/
theorem not_completes_handleEndorse {env : Env} {m : Moment} {a : PeerAnnounce} {Q : Node → Prop}
    (hkeys : ¬a.NamesKeys env.ed25519) : ¬Completes (handleEndorse env m a) Q s := by
  rw [Completes, handleEndorse]
  rw [wp_bind]
  cases hr : a.verifyEndorseSignature env.ed25519 with
  | error p => exact id
  | ok r => exact absurd (verifyEndorseSignature_returns.1 ⟨r, hr⟩) hkeys

/-- The panics of a notification. -/
def NotificationPrints (env : Env) (s : Node) (n : GossipNotification) : Prop :=
  Admitted s.trustedPublishers.value n → Cuts 8 n.sender ∧
    (n.seq.isSome → ¬Overflows env s.lastSeqPerSender.value n.sender)

instance (env : Env) (s : Node) (n : GossipNotification) :
    Decidable (NotificationPrints env s n) :=
  inferInstanceAs (Decidable (_ → _))

theorem wp_gated {n : GossipNotification} {body : Program Node Unit} {Q : Unit → Node → Prop}
    {E : Panic → Node → Prop} :
    wp (gated n body) Q E s ↔
      if s.trustedPublishers.poisoned then E .poisoned s
      else if Admitted s.trustedPublishers.value n then wp body Q E s else Q () s := by
  rw [gated]
  rw [wp_bind, wp_zoom, wp_read]
  simp only [wp_ite, wp_pure]
  exact Iff.rfl

/-- Before a notification is shown, two locks are taken and a number may overflow. -/
def Shown (env : Env) (s : Node) (n : GossipNotification) : Prop :=
  s.peerNames.poisoned = false ∧ (n.seq.isSome →
    s.lastSeqPerSender.poisoned = false ∧ ¬Overflows env s.lastSeqPerSender.value n.sender)

theorem completes_showNotification {env : Env} {m : Moment} {raw : Bytes} {n : GossipNotification} :
    Completes (showNotification env m raw n) (fun t => P t.status) s ↔
      s.peerNames.poisoned = false ∧ Cuts 8 n.sender ∧ P s.status := by
  rw [Completes, showNotification]
  cases hnames : s.peerNames.poisoned with
  | true =>
    rw [wp_bind, wp_zoom, wp_read, if_pos (by exact hnames)]
    exact iff_of_false id fun h => Bool.false_ne_true h.1.symm
  | false =>
    rw [wp_bind, wp_zoom_read (l := names) hnames, wp_bind, and_iff_right rfl]
    show wp (cut (short 8 n.sender)) (fun _ t => P t.status) (fun _ _ => False) s ↔ _
    rw [wp_cut_short]
    split_ifs with hcut
    · exact (and_iff_right hcut).symm
    · exact iff_of_false id fun h => hcut h.1

theorem completes_recordSeq {env : Env} {n : GossipNotification} (hcut : Cuts 8 n.sender)
    {Q : Node → Prop} (hQ : s.lastSeqPerSender.poisoned = false → ∀ seqs gaps,
      Q { s with lastSeqPerSender := ⟨seqs, false⟩, gaps } ↔ Q s) :
    Completes (recordSeq env n) Q s ↔
      (n.seq.isSome → s.lastSeqPerSender.poisoned = false ∧
        ¬Overflows env s.lastSeqPerSender.value n.sender) ∧ Q s := by
  rw [Completes, recordSeq]
  cases n.seq with
  | none => exact (and_iff_right fun h => absurd h Bool.false_ne_true).symm
  | some seq =>
    rw [Option.isSome_some, forall_prop_of_true rfl]
    cases hfree : s.lastSeqPerSender.poisoned with
    | true =>
      rw [wp_bind, wp_zoom, wp_hold, if_pos (by exact hfree)]
      exact iff_of_false id fun h => Bool.false_ne_true h.1.1.symm
    | false =>
      rw [wp_bind, wp_zoom_hold (l := lastSeqs) hfree, and_iff_right rfl]
      simp only [wp_modify, lastSeqs, hQ hfree, wp_trackSeq hcut]
      split_ifs with hover
      · exact iff_of_false id fun h => h.1 hover
      · exact (and_iff_right hover).symm

/-- When a notification is handled. -/
theorem completes_handleNotification {env : Env} {m : Moment} {raw : Bytes} {n : GossipNotification} :
    Completes (handleNotification env m raw n) (fun t => P t.status) s ↔
      s.trustedPublishers.poisoned = false ∧
        (Admitted s.trustedPublishers.value n → Cuts 8 n.sender ∧ Shown env s n) ∧ P s.status := by
  have hadmitted : ∀ t : Node, t.peerNames = s.peerNames →
      t.lastSeqPerSender = s.lastSeqPerSender → t.status = s.status →
      (Completes (do recordSeq env n; showNotification env m raw n) (fun t => P t.status) t ↔
        (Cuts 8 n.sender ∧ Shown env s n) ∧ P s.status) := by
    intro t hnames hseqs hstatus
    have hbind : Completes (do recordSeq env n; showNotification env m raw n)
        (fun t => P t.status) t ↔
        Completes (recordSeq env n)
          (fun t => Completes (showNotification env m raw n) (fun t => P t.status) t) t := wp_bind
    rw [hbind]
    by_cases hcut : Cuts 8 n.sender
    · have hrecorded : t.lastSeqPerSender.poisoned = false → ∀ seqs gaps,
          Completes (showNotification env m raw n) (fun t => P t.status)
              { t with lastSeqPerSender := ⟨seqs, false⟩, gaps } ↔
            Completes (showNotification env m raw n) (fun t => P t.status) t := by
        intro hfree seqs gaps
        have hsame : ({ t with lastSeqPerSender := ⟨seqs, false⟩, gaps } : Node).status = t.status :=
          congrArg (t.trustedPublishers, t.peerNames.poisoned, ·) hfree.symm
        refine completes_showNotification.trans ?_
        rw [hsame, completes_showNotification]
      rw [completes_recordSeq hcut hrecorded, completes_showNotification, hnames, hseqs, hstatus,
        and_iff_right hcut, and_iff_right hcut, Shown, ← and_assoc]
      exact and_congr_left fun _ => and_comm
    · refine iff_of_false (fun h => wp_false (wp_mono (fun _ t ht => ?_) (fun _ _ => id) h))
        fun h => hcut h.1.1
      exact hcut (completes_showNotification.1 ht).2.1
  rw [Completes, handleNotification]
  rw [wp_bind, wp_modify, wp_gated]
  split_ifs with hpoisoned hadm
  · exact iff_of_false id fun h => Bool.false_ne_true (h.1.symm.trans hpoisoned)
  · rw [and_iff_right (Bool.eq_false_of_not_eq_true hpoisoned), forall_prop_of_true hadm]
    exact hadmitted _ rfl rfl rfl
  · rw [and_iff_right (Bool.eq_false_of_not_eq_true hpoisoned)]
    exact (and_iff_right fun h => absurd h hadm).symm

/-- Where the locks are free, only the text and the number matter. -/
theorem notificationPrints_iff (hs : Unpoisoned s) {env : Env} {n : GossipNotification} :
    NotificationPrints env s n ↔ s.trustedPublishers.poisoned = false ∧
      (Admitted s.trustedPublishers.value n → Cuts 8 n.sender ∧ Shown env s n) := by
  obtain ⟨htrusted, hnames, hseqs⟩ := hs
  rw [NotificationPrints, Shown, and_iff_right htrusted, and_iff_right hnames, hseqs]
  simp only [true_and]

/-- The sender of a suggestion whose signature verifies can be cut. -/
theorem completes_handleSuggest {env : Env} {m : Moment} {g : PeerSuggest} :
    Completes (handleSuggest env m g) (fun t => P t.status) s ↔ P s.status := by
  rw [Completes, handleSuggest]
  rw [wp_bind, wp_get]
  dsimp only
  rw [wp_ite]
  split_ifs with hjoin
  · obtain ⟨b, hb, hlen⟩ := PeerSuggest.decode_of_verified hjoin.2.1
    obtain ⟨hascii, hchars⟩ := decodeChars_spec hb
    obtain ⟨p, hp⟩ := slice_ascii hascii (n := 8) (by omega)
    rw [wp_bind, wp_cut, hp]
    exact Iff.rfl
  · exact Iff.rfl

end PodpingAlpha.Listener
