import PodpingAlpha.Library.Transition
import PodpingAlpha.Listener.HandleEvent
import PodpingAlpha.Writer.Messages

/-!
# The writer's receive task

`spawn_receive_task` of `gossip-writer/src/main.rs`. The task reads what comes from the network as
one message type after another and prints the first bytes of what it finds; where it panics it ends,
and no reconnect is asked for.

## The model

As for the listener, the parser of JSON, ed25519 and the parser of node ids are parameters, a node id
is its text, the clock stands still during a step, and of the log lines only the slices are kept. The
event type is the listener's. Locks under which nothing can panic are locks here too, where the task
unwraps them. A `Moment` also says what the task reads of the rest of the process: whether a newer
task was started, and whether the process shuts down.

## What is proved

* `completes_receive` — an event is handled without a panic exactly when it is harmless.
* `task_survives_iff` — the task goes through a run, and ends only where it asks for a reconnect, the
  process shuts down or a newer task has taken over, exactly when every event it handles is harmless.
* `short_sender_panics` — a notification with a sender of three characters.
-/

namespace PodpingAlpha.Writer.Receive

open Outcome Text Transition
open Listener (Ed25519 Event Names readLines writeLines maxKnownPeers)

/-! ### The world and the state -/

/-- What the task takes from elsewhere. -/
structure Env where
  /-- `serde_json::from_slice`, as far as the shape of the text goes. -/
  fromSlice : Bytes → Option Json
  /-- The node id in a text. -/
  parseNodeId : String → Option String
  /-- ed25519. -/
  ed25519 : Ed25519
  /-- `my_node_id`. -/
  myNodeId : String
  /-- `auto_trust_endorsements`. -/
  autoTrustEndorsements : Bool
  /-- The order in which a set is visited. -/
  visit : Finset String → List String

/-- What the world is like during a step. -/
structure Moment where
  /-- The clock, in seconds. -/
  now : UInt64
  /-- The known-peers file can be opened. -/
  peersFileOpens : Bool
  /-- The trusted-publishers file can be opened. -/
  trustedFileOpens : Bool
  /-- The generation is still that of the task when it has received something. -/
  current : Bool
  /-- So it is when the task ends. -/
  currentAtEnd : Bool
  /-- `shutdown`, when the task ends. -/
  shutdown : Bool

/-- The state that the task works on. -/
structure Node where
  /-- `trusted_publishers`. -/
  trustedPublishers : Lock (Finset String)
  /-- `peer_names`. -/
  peerNames : Lock Names
  /-- `neighbor_ids`. -/
  neighborIds : Lock (Finset String)
  /-- `trusted_monitors`. -/
  trustedMonitors : Lock (Finset String)
  /-- `unique_sources`. -/
  uniqueSources : Finset String
  /-- `last_notification_time`. -/
  lastNotificationTime : UInt64
  /-- `msgs_received`. -/
  msgsReceived : UInt64
  /-- `neighbor_count`. -/
  neighborCount : UInt32
  /-- The text of the trusted-publishers file, if it exists. -/
  trustedPublishersFile : Option String
  /-- The text of the known-peers file, if it exists. -/
  peersFile : Option String
  /-- What `join_peers_direct` was called with, oldest first. -/
  joined : List (List String)

/-- `trusted_publishers`. -/
def trusted : Lens Node (Lock (Finset String)) :=
  ⟨Node.trustedPublishers, fun lock s => { s with trustedPublishers := lock }, fun _ => rfl⟩

/-- `peer_names`. -/
def names : Lens Node (Lock Names) :=
  ⟨Node.peerNames, fun lock s => { s with peerNames := lock }, fun _ => rfl⟩

/-- `neighbor_ids`. -/
def neighbors : Lens Node (Lock (Finset String)) :=
  ⟨Node.neighborIds, fun lock s => { s with neighborIds := lock }, fun _ => rfl⟩

/-- `trusted_monitors`. -/
def monitors : Lens Node (Lock (Finset String)) :=
  ⟨Node.trustedMonitors, fun lock s => { s with trustedMonitors := lock }, fun _ => rfl⟩

/-- `save_trusted_publishers`. -/
def saveTrustedPublishers (env : Env) (m : Moment) (peers : Finset String) (file : Option String) :
    Option String :=
  if m.trustedFileOpens then some (writeLines (env.visit peers)) else file

/-- `save_peer_if_new`. -/
def savePeerIfNew (env : Env) (m : Moment) (nodeId : String) (file : Option String) : Option String :=
  if nodeId = env.myNodeId then file
  else
    let peers := readLines file
    if nodeId ∈ peers then file
    else
      let peers := peers ++ [nodeId]
      if m.peersFileOpens then some (writeLines (peers.drop (peers.length - maxKnownPeers))) else file

/-! ### Messages -/

/-- The branch for a `peer_suggest`. -/
def handleSuggest (env : Env) (m : Moment) (suggest : PeerSuggest) : Program Node Unit :=
  if suggest.targetNodeId = env.myNodeId ∧ suggest.verifySignature env.ed25519 = .ok true then do
    let trustedMonitors ← zoom monitors Lock.read
    let peers := suggest.suggestedPeers.filterMap env.parseNodeId
    if suggest.sender ∈ trustedMonitors ∧ m.now.toNat - suggest.timestamp.toNat < 300 ∧
        peers ≠ [] then
      let _ ← Text.cut (slice 8 suggest.sender)
      modify fun s => { s with joined := s.joined ++ [peers] }
    else pure ()
  else pure ()

/-- The name of a node, if it has one, is entered into `peer_names`. -/
def enterName (announce : PeerAnnounce) : Program Node Unit :=
  match announce.friendlyName with
  | some name => zoom names (Lock.hold (modify (·.insert announce.nodeId name)))
  | none => pure ()

/-- The node that announces itself is saved as a peer. -/
def savePeer (env : Env) (m : Moment) (announce : PeerAnnounce) : Program Node Unit :=
  match env.parseNodeId announce.nodeId with
  | some nodeId => modify fun s => { s with peersFile := savePeerIfNew env m nodeId s.peersFile }
  | none => pure ()

/-- The branch for a `peer_announce`. -/
def handleAnnounce (env : Env) (m : Moment) (announce : PeerAnnounce) : Program Node Unit := do
  enterName announce
  savePeer env m announce

/-- The loop over the endorsed keys. Returns how many were new. -/
def addKeys : List String → Program (Finset String) ℕ
  | [] => pure 0
  | key :: nodeList => do
    let tp ← get
    if key ∈ tp then addKeys nodeList
    else do
      modify (insert key ·)
      -- the log line, printed while the lock is held
      let _ ← Text.cut (short 8 key)
      let added ← addKeys nodeList
      pure (added + 1)

/-- The endorsed keys are added and, if one was new, saved. -/
def addEndorsedKeys (env : Env) (m : Moment) (nodeList : List String) : Program Node Unit := do
  let added ← zoom trusted (Lock.hold (addKeys nodeList))
  if 0 < added then
    let tp ← zoom trusted Lock.read
    modify fun s =>
      { s with trustedPublishersFile := saveTrustedPublishers env m tp s.trustedPublishersFile }
  else pure ()

/-- What follows the verification of an endorsement by `sender`. -/
def handleVerified (env : Env) (m : Moment) (announce : PeerAnnounce) (sender : String) :
    Program Node Unit := do
  let _ ← Text.cut (short 8 sender)
  let tp ← zoom trusted Lock.read
  if sender ∈ tp then announce.nodeList.elim (pure ()) (addEndorsedKeys env m) else pure ()

/-- The branch for a `peer_endorse`. -/
def handleEndorse (env : Env) (m : Moment) (announce : PeerAnnounce) : Program Node Unit :=
  if env.autoTrustEndorsements then do
    match ← ofPure (announce.verifyEndorseSignature env.ed25519) with
    | .ok true => announce.sender.elim (pure ()) (handleVerified env m announce)
    | .ok false => pure ()
    | .error _ => pure ()
  else pure ()

/-- The branch for a notification, which is only printed. -/
def handleNotification (notif : GossipNotification) : Program Node Unit := do
  let _ ← Text.cut (slice 8 notif.sender)
  pure ()

/-- The handling of a message. -/
def handleMessage (env : Env) (m : Moment) : Incoming → Program Node Unit
  | .suggest suggest => handleSuggest env m suggest
  | .announce announce => handleAnnounce env m announce
  | .endorse announce => handleEndorse env m announce
  | .notification notif => handleNotification notif
  | .ignored => pure ()

/-- The handling of a gossip event. -/
def receive (env : Env) (m : Moment) : Event → Program Node Unit
  | .received content deliveredFrom => do
    modify fun s =>
      { s with
        lastNotificationTime := m.now
        msgsReceived := s.msgsReceived + 1
        uniqueSources := insert deliveredFrom s.uniqueSources }
    handleMessage env m (classify env.fromSlice content)
  | .neighborUp nodeId => do
    modify fun s => { s with neighborCount := s.neighborCount + 1 }
    zoom neighbors (Lock.hold (modify (insert nodeId ·)))
    let _ ← zoom names Lock.read
    modify fun s => { s with peersFile := savePeerIfNew env m nodeId s.peersFile }
  | .neighborDown nodeId => do
    modify fun s => { s with neighborCount := s.neighborCount - 1 }
    zoom neighbors (Lock.hold (modify (·.erase nodeId)))
    let _ ← zoom names Lock.read
    pure ()
  | .lagged => pure ()

/-! ### The task -/

/-- What the wait for an event comes to. -/
inductive Arrival where
  /-- An event. -/
  | event (ev : Event)
  /-- An error of the receiver. -/
  | failed
  /-- The channel is closed. -/
  | closed
  /-- Nothing, for 30 seconds. -/
  | timeout

/-- How the task ended. -/
inductive End where
  /-- A newer task was started. -/
  | superseded
  /-- The process shuts down. -/
  | shutdown
  /-- It asked for a reconnect. -/
  | reconnect
  deriving DecidableEq

/-- The task. -/
structure Task where
  /-- What it works on. -/
  node : Node
  /-- How it ended, if it did. -/
  ended : Option End
  /-- `reconnect_failures`. -/
  reconnectFailures : ℕ
  /-- `reconnect_requested`. -/
  reconnectRequested : Bool

/-- `REBOOTSTRAP_TIMEOUT`. -/
def rebootstrapTimeout : ℕ := 180

/-- `RECONNECT_AFTER_FAILURES`. -/
def reconnectAfterFailures : ℕ := 5

/-- What follows the loop. -/
def Task.leave (s : Task) (m : Moment) : Task :=
  if m.shutdown then { s with ended := some .shutdown }
  else if m.currentAtEnd then
    { s with
      ended := some .reconnect, reconnectFailures := reconnectAfterFailures
      reconnectRequested := true }
  else { s with ended := some .superseded }

/-- One iteration of the loop; `none` if it panics. A task that ended does nothing. -/
def step (env : Env) (s : Task) (a : Moment × Arrival) : Option Task :=
  if s.ended.isSome then some s
  else
    match a.2 with
    | .closed => some (s.leave a.1)
    | .timeout =>
      if rebootstrapTimeout * 2 < a.1.now.toNat - s.node.lastNotificationTime.toNat then
        some (s.leave a.1)
      else some s
    | .failed => if a.1.current then some (s.leave a.1) else some { s with ended := some .superseded }
    | .event ev =>
      if a.1.current then
        (returned (receive env a.1 ev) s.node).map fun node => { s with node := node }
      else some { s with ended := some .superseded }

/-- The task as it is spawned, on sets that may be any. -/
def Task.spawn (trustedPublishers neighborIds trustedMonitors uniqueSources : Finset String)
    (peerNames : Names) (now : UInt64) (trustedFile peersFile : Option String) : Task where
  node :=
    { trustedPublishers := .new trustedPublishers
      peerNames := .new peerNames
      neighborIds := .new neighborIds
      trustedMonitors := .new trustedMonitors
      uniqueSources := uniqueSources
      lastNotificationTime := now
      msgsReceived := 0
      neighborCount := 0
      trustedPublishersFile := trustedFile
      peersFile := peersFile
      joined := [] }
  ended := none
  reconnectFailures := 0
  reconnectRequested := false

/-! ### The property and the condition -/

/-- The task ended on purpose, if it did. -/
def Task.EndsOnPurpose (s : Task) : Prop :=
  ∀ e, s.ended = some e → e = .superseded ∨ e = .shutdown ∨
    e = .reconnect ∧ s.reconnectRequested = true ∧ s.reconnectFailures = reconnectAfterFailures

/-- An endorsement that does not make the task panic. -/
structure HarmlessEndorse (env : Env) (s : Node) (announce : PeerAnnounce) : Prop where
  /-- With a sound key and signature it has keys. -/
  namesKeys : announce.toListener.NamesKeys env.ed25519
  /-- The new keys of one that is accepted can be printed. -/
  keysPrint : announce.verifyEndorseSignature env.ed25519 = .ok (.ok true) →
    ∀ sender ∈ announce.sender, sender ∈ s.trustedPublishers.value →
      ∀ nodeList ∈ announce.nodeList, ∀ key ∈ nodeList, key ∉ s.trustedPublishers.value → Cuts 8 key

/-- A message that does not make the task panic. -/
def HarmlessMessage (env : Env) (s : Node) : Incoming → Prop
  | .suggest _ | .announce _ | .ignored => True
  | .endorse announce => env.autoTrustEndorsements = true → HarmlessEndorse env s announce
  | .notification notif => (slice 8 notif.sender).isSome

/-- An event that does not make the task panic. -/
def HarmlessEvent (env : Env) (s : Node) : Event → Prop
  | .received content _ => HarmlessMessage env s (classify env.fromSlice content)
  | _ => True

/-- An event that the task handles is harmless. -/
def Harmless (env : Env) (s : Task) (a : Moment × Arrival) : Prop :=
  s.ended = none → a.1.current = true → ∀ ev, a.2 = .event ev → HarmlessEvent env s.node ev

/-! ### The handlers -/

/-- No lock is poisoned. -/
structure Free (s : Node) : Prop where
  /-- `trusted_publishers`. -/
  trusted : s.trustedPublishers.poisoned = false
  /-- `peer_names`. -/
  names : s.peerNames.poisoned = false
  /-- `neighbor_ids`. -/
  neighbors : s.neighborIds.poisoned = false
  /-- `trusted_monitors`. -/
  monitors : s.trustedMonitors.poisoned = false

section
variable {env : Env} {m : Moment} {s : Node} {P : Node → Prop}

/-- The sender of a verified suggestion can be cut: it is the hexadecimal text of 32 bytes. -/
theorem slice_of_verified {suggest : PeerSuggest}
    (h : suggest.verifySignature env.ed25519 = .ok true) : ∃ p, slice 8 suggest.sender = some p := by
  obtain ⟨b, hb, hlen⟩ := Listener.PeerSuggest.decode_of_verified (m := suggest.toListener) h
  obtain ⟨hascii, hdigits⟩ := decodeChars_spec hb
  have hsender : suggest.toListener.sender = suggest.sender := rfl
  rw [hsender] at hascii hdigits
  exact slice_ascii hascii (by omega)

/-- A suggestion is handled. -/
theorem completes_handleSuggest (hP : ∀ t, Free t → P t) (hs : Free s) {suggest : PeerSuggest} :
    Completes (handleSuggest env m suggest) P s := by
  rw [Completes, handleSuggest, wp_ite]
  split_ifs with h
  · rw [wp_bind, wp_zoom_read (l := monitors) hs.monitors, wp_ite]
    split_ifs
    · obtain ⟨p, hp⟩ := slice_of_verified h.2
      rw [wp_bind, wp_cut, hp]
      exact hP _ ⟨hs.trusted, hs.names, hs.neighbors, hs.monitors⟩
    · exact hP s hs
  · exact hP s hs

/-- An announcement is handled. -/
theorem completes_handleAnnounce (hP : ∀ t, Free t → P t) (hs : Free s) {announce : PeerAnnounce} :
    Completes (handleAnnounce env m announce) P s := by
  have hsave : ∀ t, Free t →
      wp (savePeer env m announce) (fun _ => P) (fun _ _ => False) t := by
    intro t ht
    rw [savePeer]
    cases env.parseNodeId announce.nodeId with
    | none => exact hP t ht
    | some nodeId => exact hP _ ⟨ht.trusted, ht.names, ht.neighbors, ht.monitors⟩
  rw [Completes, handleAnnounce, wp_bind, enterName]
  cases announce.friendlyName with
  | none => exact hsave s hs
  | some name =>
    rw [wp_zoom_hold (l := names) hs.names]
    exact hsave _ ⟨hs.trusted, rfl, hs.neighbors, hs.monitors⟩

/-- The loop goes through when the new keys can be printed. -/
theorem completes_addKeys {nodeList : List String} {tp : Finset String} {Q : Finset String → Prop}
    (hQ : ∀ tp, Q tp) : wp (addKeys nodeList) (fun _ => Q) (fun _ _ => False) tp ↔
      ∀ key ∈ nodeList, key ∉ tp → Cuts 8 key := by
  induction nodeList generalizing tp with
  | nil => exact iff_of_true (hQ tp) nofun
  | cons key nodeList ih =>
    rw [addKeys, wp_bind, wp_get, wp_ite]
    by_cases hkey : key ∈ tp
    · rw [if_pos hkey, ih, List.forall_mem_cons, and_iff_right fun h => absurd hkey h]
    · simp only [if_neg hkey, wp_bind, wp_modify, wp_cut_short, wp_pure, ih]
      rw [List.forall_mem_cons, forall_prop_of_true hkey]
      split_ifs with hcut
      · rw [and_iff_right hcut]
        refine forall₂_congr fun key' _ => ?_
        rw [Finset.mem_insert, not_or, and_imp]
        exact ⟨fun h hmem => (eq_or_ne key' key).elim (· ▸ hcut) fun hne => h hne hmem, fun h _ => h⟩
      · exact iff_of_false id fun h => hcut h.1

/-- The endorsed keys are added when the new ones can be printed. -/
theorem completes_addEndorsedKeys (hP : ∀ t, Free t → P t) (hs : Free s) {nodeList : List String} :
    Completes (addEndorsedKeys env m nodeList) P s ↔
      ∀ key ∈ nodeList, key ∉ s.trustedPublishers.value → Cuts 8 key := by
  rw [Completes, addEndorsedKeys, wp_bind, wp_zoom_hold (l := trusted) hs.trusted]
  have hsave : ∀ (added : ℕ) (tp : Finset String),
      wp (if 0 < added then do
          let tp ← zoom trusted Lock.read
          modify fun s =>
            { s with trustedPublishersFile := saveTrustedPublishers env m tp s.trustedPublishersFile }
        else pure () : Program Node Unit) (fun _ => P) (fun _ _ => False)
        (trusted.set ⟨tp, false⟩ s) := by
    intro added tp
    rw [wp_ite, wp_bind, wp_zoom_read rfl]
    split_ifs
    · exact hP _ ⟨rfl, hs.names, hs.neighbors, hs.monitors⟩
    · exact hP _ ⟨rfl, hs.names, hs.neighbors, hs.monitors⟩
  have hloop : wp (addKeys nodeList) (fun _ _ => True) (fun _ _ => False)
      s.trustedPublishers.value ↔ _ := completes_addKeys fun _ => trivial
  refine Iff.trans ⟨wp_mono (fun _ _ _ => trivial) fun _ _ => id, ?_⟩ hloop
  exact wp_mono (fun added tp _ => hsave added tp) fun _ _ => id

/-- What follows the verification of an endorsement goes through when the new keys of a trusted
sender can be printed. -/
theorem completes_handleVerified (hP : ∀ t, Free t → P t) (hs : Free s) {announce : PeerAnnounce}
    {sender : String} (hsender : Cuts 8 sender) :
    Completes (handleVerified env m announce sender) P s ↔
      (sender ∈ s.trustedPublishers.value → ∀ nodeList ∈ announce.nodeList, ∀ key ∈ nodeList,
        key ∉ s.trustedPublishers.value → Cuts 8 key) := by
  rw [Completes, handleVerified, wp_bind, wp_cut_short, if_pos hsender, wp_bind,
    wp_zoom_read (l := trusted) hs.trusted, wp_ite]
  show (if sender ∈ s.trustedPublishers.value then _ else _) ↔ _
  by_cases hmem : sender ∈ s.trustedPublishers.value
  · rw [if_pos hmem, forall_prop_of_true hmem]
    cases announce.nodeList with
    | none => exact iff_of_true (hP s hs) fun _ h => by cases h
    | some nodeList =>
      simp only [Option.mem_some_iff, forall_eq']
      exact completes_addEndorsedKeys hP hs
  · rw [if_neg hmem]
    exact iff_of_true (hP s hs) fun h => absurd h hmem

/-- An endorsement is handled when it is harmless. -/
theorem completes_handleEndorse (hP : ∀ t, Free t → P t) (hs : Free s) {announce : PeerAnnounce} :
    Completes (handleEndorse env m announce) P s ↔
      (env.autoTrustEndorsements = true → HarmlessEndorse env s announce) := by
  rw [Completes, handleEndorse, wp_ite]
  by_cases hauto : env.autoTrustEndorsements = true
  · rw [if_pos hauto, forall_prop_of_true hauto, wp_bind]
    cases hr : announce.verifyEndorseSignature env.ed25519 with
    | error p =>
      refine iff_of_false id fun h => ?_
      obtain ⟨r, hr'⟩ := Listener.verifyEndorseSignature_returns.2 h.namesKeys
      cases hr.symm.trans hr'
    | ok r =>
      have hkeys := Listener.verifyEndorseSignature_returns.1
        ⟨r, (announce.verifyEndorseSignature_toListener env.ed25519).trans hr⟩
      rw [wp_ofPure_ok rfl]
      cases r with
      | error e => exact iff_of_true (hP s hs) ⟨hkeys, fun h => by cases hr.symm.trans h⟩
      | ok verified =>
        cases verified with
        | false => exact iff_of_true (hP s hs) ⟨hkeys, fun h => by cases hr.symm.trans h⟩
        | true =>
          obtain ⟨sender, hsender, b, hb, -⟩ := Listener.PeerAnnounce.decode_of_verified
            ((announce.verifyEndorseSignature_toListener env.ed25519).trans hr)
          have hsender' : announce.sender = some sender := hsender
          simp only [hsender', Option.elim_some]
          refine (completes_handleVerified hP hs (cuts_of_decode hb 8)).trans ?_
          constructor
          · intro h
            refine ⟨hkeys, fun _ sender' hmem => ?_⟩
            cases hsender'.symm.trans hmem
            exact h
          · intro h
            exact h.keysPrint hr sender hsender'
  · rw [if_neg hauto]
    exact iff_of_true (hP s hs) fun h => absurd h hauto

/-- A notification is printed when its sender has a slice of eight bytes. -/
theorem completes_handleNotification (hP : ∀ t, Free t → P t) (hs : Free s)
    {notif : GossipNotification} :
    Completes (handleNotification notif) P s ↔ (slice 8 notif.sender).isSome := by
  rw [Completes, handleNotification, wp_bind, wp_cut]
  cases slice 8 notif.sender with
  | none => exact iff_of_false id Bool.false_ne_true
  | some p => exact iff_of_true (hP s hs) rfl

/-- The set of neighbors changes, and the names are read. -/
theorem completes_neighbors (hs : Free s) (change : Finset String → Finset String)
    {next : Names → Program Node Unit} (hnext : ∀ known t, Free t → Completes (next known) P t) :
    Completes (do
      zoom neighbors (Lock.hold (modify change))
      let known ← zoom names Lock.read
      next known) P s := by
  rw [Completes, wp_bind, wp_zoom_hold (l := neighbors) hs.neighbors, wp_modify, wp_bind,
    wp_zoom_read]
  case h => exact hs.names
  exact hnext _ _ ⟨hs.trusted, hs.names, rfl, hs.monitors⟩

/-- **An event is handled without a panic exactly when it is harmless.** -/
theorem completes_receive (hP : ∀ t, Free t → P t) (hs : Free s) (ev : Event) :
    Completes (receive env m ev) P s ↔ HarmlessEvent env s ev := by
  cases ev with
  | received content deliveredFrom =>
    refine (wp_bind.trans wp_modify).trans ?_
    set t : Node := { s with
      lastNotificationTime := m.now
      msgsReceived := s.msgsReceived + 1
      uniqueSources := insert deliveredFrom s.uniqueSources }
    have ht : Free t := ⟨hs.trusted, hs.names, hs.neighbors, hs.monitors⟩
    show Completes (handleMessage env m (classify env.fromSlice content)) P t ↔
      HarmlessMessage env s (classify env.fromSlice content)
    cases classify env.fromSlice content with
    | suggest suggest => exact iff_of_true (completes_handleSuggest hP ht) trivial
    | announce announce => exact iff_of_true (completes_handleAnnounce hP ht) trivial
    | endorse announce =>
      refine (completes_handleEndorse hP ht).trans (imp_congr_right fun _ => ?_)
      exact ⟨fun h => ⟨h.namesKeys, h.keysPrint⟩, fun h => ⟨h.namesKeys, h.keysPrint⟩⟩
    | notification notif => exact completes_handleNotification hP ht
    | ignored => exact iff_of_true (hP t ht) trivial
  | neighborUp nodeId =>
    exact iff_of_true (completes_neighbors (s := { s with neighborCount := s.neighborCount + 1 })
      ⟨hs.trusted, hs.names, hs.neighbors, hs.monitors⟩ _ fun _ t ht =>
        hP _ ⟨ht.trusted, ht.names, ht.neighbors, ht.monitors⟩) trivial
  | neighborDown nodeId =>
    exact iff_of_true (completes_neighbors (s := { s with neighborCount := s.neighborCount - 1 })
      ⟨hs.trusted, hs.names, hs.neighbors, hs.monitors⟩ _ fun _ t ht => hP t ht) trivial
  | lagged => exact iff_of_true (hP s hs) trivial

end

/-! ### Runs -/

variable {env : Env} {s t : Task} {a : Moment × Arrival}

/-- After the loop the task has ended on purpose. -/
theorem endsOnPurpose_leave (s : Task) (m : Moment) :
    (s.leave m).node = s.node ∧ (s.leave m).EndsOnPurpose := by
  unfold Task.leave
  split_ifs
  · exact ⟨rfl, fun e he => .inr (.inl (Option.some.inj he).symm)⟩
  · exact ⟨rfl, fun e he => .inr (.inr ⟨(Option.some.inj he).symm, rfl, rfl⟩)⟩
  · exact ⟨rfl, fun e he => .inl (Option.some.inj he).symm⟩

/-- An iteration handles an event, or leaves the state but for the end of the task. -/
theorem step_cases (env : Env) (s : Task) (a : Moment × Arrival) :
    (∃ ev, s.ended = none ∧ a.1.current = true ∧ a.2 = .event ev ∧
      step env s a = (returned (receive env a.1 ev) s.node).map fun node => { s with node := node }) ∨
    (∃ t, step env s a = some t ∧ t.node = s.node ∧ (s.EndsOnPurpose → t.EndsOnPurpose)) ∧
      Harmless env s a := by
  obtain ⟨m, arrival⟩ := a
  set stale : Task := { s with ended := some .superseded } with hstale
  have hsuperseded : stale.EndsOnPurpose := fun e he => .inl (Option.some.inj he).symm
  obtain ⟨hnode, hleave⟩ := endsOnPurpose_leave s m
  cases hended : s.ended with
  | some e => exact .inr ⟨⟨s, by simp [step, hended], rfl, id⟩, fun h => by cases hended.symm.trans h⟩
  | none =>
    cases arrival with
    | closed => exact .inr ⟨⟨s.leave m, by simp [step, hended], hnode, fun _ => hleave⟩, nofun⟩
    | timeout =>
      by_cases hlong : rebootstrapTimeout * 2 < m.now.toNat - s.node.lastNotificationTime.toNat
      · exact .inr ⟨⟨s.leave m, by simp [step, hended, hlong], hnode, fun _ => hleave⟩, nofun⟩
      · exact .inr ⟨⟨s, by simp [step, hended, hlong], rfl, id⟩, nofun⟩
    | failed =>
      by_cases hcurrent : m.current = true
      · exact .inr ⟨⟨s.leave m, by simp [step, hended, hcurrent], hnode, fun _ => hleave⟩, nofun⟩
      · exact .inr ⟨⟨stale, by simp [step, hended, hcurrent, hstale], rfl, fun _ => hsuperseded⟩,
          nofun⟩
    | event ev =>
      by_cases hcurrent : m.current = true
      · exact .inl ⟨ev, rfl, hcurrent, rfl, by simp [step, hended, hcurrent]⟩
      · refine .inr ⟨⟨stale, by simp [step, hended, hcurrent, hstale], rfl, fun _ => hsuperseded⟩, ?_⟩
        exact fun _ h => absurd h hcurrent

/-- An iteration goes through exactly when what it handles is harmless. -/
theorem step_isSome (hs : Free s.node) : (step env s a).isSome ↔ Harmless env s a := by
  obtain ⟨ev, hended, hcurrent, hev, hstep⟩ | ⟨⟨t, ht, -⟩, hharmless⟩ := step_cases env s a
  · have hreturns : Completes (receive env a.1 ev) (fun _ => True) s.node ↔
        HarmlessEvent env s.node ev := completes_receive (fun _ _ => trivial) hs ev
    rw [completes_iff] at hreturns
    have hharmless : Harmless env s a ↔ HarmlessEvent env s.node ev := by
      refine ⟨fun h => h hended hcurrent ev hev, fun h _ _ ev' hev' => ?_⟩
      cases hev.symm.trans hev'
      exact h
    rw [hstep, Option.isSome_map, hharmless, ← hreturns, Option.isSome_iff_exists]
    simp
  · rw [ht]
    exact iff_of_true rfl hharmless

/-- An iteration leaves the locks free, and ends the task on purpose if at all. -/
theorem step_keeps (hs : Free s.node) (hp : s.EndsOnPurpose) (h : step env s a = some t) :
    Free t.node ∧ t.EndsOnPurpose := by
  have hharmless : Harmless env s a := (step_isSome hs).1 (by rw [h]; rfl)
  obtain ⟨ev, hended, hcurrent, hev, hstep⟩ | ⟨⟨u, hu, hnode, hends⟩, -⟩ := step_cases env s a
  · obtain ⟨node, hnode, hfree⟩ := completes_iff.1
      ((completes_receive (m := a.1) (P := Free) (fun _ ht => ht) hs ev).2
        (hharmless hended hcurrent ev hev))
    rw [hstep, hnode] at h
    cases h
    exact ⟨hfree, hp⟩
  · cases hu.symm.trans h
    exact ⟨hnode ▸ hs, hends hp⟩

/-- **The task survives** a run, and ends only where it asks for a reconnect, the process shuts down
or a newer task has taken over, if and only if every event that it handles is harmless. -/
theorem task_survives_iff (env : Env)
    (trustedPublishers neighborIds trustedMonitors uniqueSources : Finset String) (peerNames : Names)
    (now : UInt64) (trustedFile peersFile : Option String) (as : List (Moment × Arrival)) :
    let s := Task.spawn trustedPublishers neighborIds trustedMonitors uniqueSources peerNames now
      trustedFile peersFile
    (∃ t, run (step env) s as = some t ∧ t.EndsOnPurpose) ↔ Along (step env) (Harmless env) s as := by
  intro s
  have hs : Free s.node ∧ s.EndsOnPurpose := ⟨⟨rfl, rfl, rfl, rfl⟩, nofun⟩
  have hkeeps : ∀ s a t, Free s.node ∧ s.EndsOnPurpose → step env s a = some t →
      Free t.node ∧ t.EndsOnPurpose := fun _ _ _ h => step_keeps h.1 h.2
  rw [← run_isSome_iff_along hkeeps (fun _ _ h => step_isSome h.1) hs, Option.isSome_iff_exists]
  exact exists_congr fun t => and_iff_left_of_imp fun h => (inv_run hkeeps hs h).2

/-! ### A message that ends the task -/

/-- A notification is taken for what it is. -/
theorem classify_notification {fromSlice : Bytes → Option Json} (hserde : Json.RoundTrips fromSlice)
    (n : GossipNotification) : classify fromSlice n.toVec = .notification n := by
  have hread : fromSlice n.toVec = some (.obj n.fields) := hserde _ n.flat_fields
  have htype : n.fields.lookup "type" = none := by
    simp [GossipNotification.fields, List.lookup_append, Json.lookup_field]
  have hsuggest : PeerSuggest.fromJson (.obj n.fields) = none := by
    rw [PeerSuggest.fromJson, Json.entries_obj n.nodup_fields]
    show (Json.must Json.str? (n.fields.lookup "type") >>= _) = none
    rw [htype]
    rfl
  have hannounce : PeerAnnounce.fromJson (.obj n.fields) = none := by
    rw [PeerAnnounce.fromJson, Json.entries_obj n.nodup_fields]
    show (Json.must Json.str? (n.fields.lookup "type") >>= _) = none
    rw [htype]
    rfl
  have hnotification : GossipNotification.fromJson (.obj n.fields) = some n := by
    rw [GossipNotification.fromJson, Json.entries_obj n.nodup_fields]
    simp [GossipNotification.fields, List.lookup_append, Json.lookup_field]
  simp [classify, classifyOther, hread, hsuggest, hannounce, hnotification]

/-- A notification whose sender has no slice of eight bytes ends the task. -/
theorem step_notification_eq_none {env : Env} (hserde : Json.RoundTrips env.fromSlice) {s : Task}
    (hs : Free s.node) (hended : s.ended = none) {m : Moment} (hcurrent : m.current = true)
    {n : GossipNotification} (hn : slice 8 n.sender = none) (deliveredFrom : String) :
    step env s (m, .event (.received n.toVec deliveredFrom)) = none := by
  by_contra hsome
  have hharmless := (step_isSome hs).1 (Option.isSome_iff_ne_none.2 hsome) hended hcurrent _ rfl
  rw [HarmlessEvent, classify_notification hserde, HarmlessMessage, hn] at hharmless
  cases hharmless

/-- A task with no valid key around. -/
def plainEnv : Env where
  fromSlice := Json.fromBytes
  parseNodeId := fun _ => none
  ed25519 := ⟨fun _ => false, fun _ _ _ => false⟩
  myNodeId := "node"
  autoTrustEndorsements := false
  visit := (Listener.plainEnv ⟨"1.0", "", 0, "podcast", "update", [], none, none⟩).visit

/-- A notification with a sender of three characters. -/
theorem short_sender_panics :
    let n : GossipNotification := ⟨"1.0", "abc", 7, "podcast", "update", [], none, none⟩
    ¬∃ t, run (step plainEnv) (.spawn ∅ ∅ ∅ ∅ ∅ 7 none none)
      [(⟨7, true, true, true, true, false⟩, .event (.received n.toVec "peer"))] = some t ∧
        t.EndsOnPurpose := by
  rintro n ⟨t, h, -⟩
  rw [run_cons, step_notification_eq_none Json.roundTrips_fromBytes ⟨rfl, rfl, rfl, rfl⟩ rfl rfl
    (by decide)] at h
  cases h

end PodpingAlpha.Writer.Receive
