import PodpingAlpha.Library.Text
import PodpingAlpha.Listener.Archive
import PodpingAlpha.Listener.Messages
import Mathlib.Data.Finmap
import Mathlib.Data.Finset.Sort
import Mathlib.Data.String.Basic

/-!
# The listener's receive step

`handle_event` of `gossip-listener/src/main.rs` with what `spawn_receive_task` does before it, and
the loop body of `run_catchup`, which handles the payloads a peer sends from its archive.

## The model

The three parsers, ed25519, blake3 and the parser of node ids are parameters; a node id is its text.
The clock stands still during a step. Locks under which nothing can panic are left out; a file that
can be opened can be written. Of the log lines only the slices are kept, which may panic, and the
reports of sequence gaps.

A run is any sequence of gossip events and catch-up payloads, each with its moment. A step that
panics leaves what it did until then, and the next one goes on from there.
-/

namespace PodpingAlpha.Listener

open Outcome Text

/-! ### The world and the state -/

/-- What the listener takes from elsewhere. -/
structure Env where
  /-- `serde_json::from_slice::<PeerSuggest>`. -/
  parsePeerSuggest : Bytes → Option PeerSuggest
  /-- `serde_json::from_slice::<PeerAnnounce>`. -/
  parsePeerAnnounce : Bytes → Option PeerAnnounce
  /-- `serde_json::from_slice::<GossipNotification>`. -/
  parseGossipNotification : Bytes → Option GossipNotification
  /-- The node id in a text. -/
  parseNodeId : String → Option String
  /-- ed25519. -/
  ed25519 : Ed25519
  /-- `blake3::hash`, in hexadecimal. -/
  blake3 : Bytes → String
  /-- The build checks arithmetic for overflows. -/
  overflowChecks : Bool
  /-- The listener's own node id. -/
  myNodeId : String
  /-- The order in which a set is visited. -/
  visit : Finset String → List String
  /-- It visits all of it, once. -/
  visit_spec : ∀ s, (visit s).Nodup ∧ (visit s).toFinset = s

/-- What the world is like during a step. -/
structure Moment where
  /-- The clock, in seconds. -/
  now : UInt64
  /-- Whether the statements of `store` run. -/
  sql : Sql
  /-- The known-peers file can be opened. -/
  peersFileOpens : Bool
  /-- The trusted-publishers file can be opened. -/
  trustedFileOpens : Bool

/-- `peer_names`. -/
abbrev Names := Finmap fun _ : String => String

/-- `last_seq_per_sender`. -/
abbrev Seqs := Finmap fun _ : String => UInt64

/-- A reported gap in the numbers of a sender. -/
structure Gap where
  /-- The first bytes of the sender. -/
  sender : String
  /-- The number that was due. -/
  expected : UInt64
  /-- The number received. -/
  got : UInt64
  /-- How many are missing. -/
  missed : UInt64
  deriving DecidableEq

/-- A node: the state of one listener. -/
structure Node where
  /-- `trusted_publishers`. -/
  trustedPublishers : Lock (Finset String)
  /-- `peer_names`. -/
  peerNames : Lock Names
  /-- `last_seq_per_sender`. -/
  lastSeqPerSender : Lock Seqs
  /-- `trusted_monitors`. -/
  trustedMonitors : Finset String
  /-- `last_notification_time`. -/
  lastNotificationTime : UInt64
  /-- `notifications_received`. -/
  notificationsReceived : UInt64
  /-- The archive, if it is enabled. -/
  db : Option Archive
  /-- What was sent on the SSE channel, oldest first, if it is enabled. -/
  sseTx : Option (List String)
  /-- The text of the trusted-publishers file, if it exists. -/
  trustedPublishersFile : Option String
  /-- The text of the known-peers file, if it exists. -/
  peersFile : Option String
  /-- The catch-up waits for a neighbor. -/
  neighborTx : Bool
  /-- The neighbor that was handed to it. -/
  neighborRx : Option String
  /-- `neighbor_count`. -/
  neighborCount : UInt32
  /-- `neighbor_ids`. -/
  neighborIds : Finset String
  /-- `unique_sources`. -/
  uniqueSources : Finset String
  /-- What `join_peers_direct` was called with, oldest first. -/
  joined : List (List String)
  /-- The reported gaps, oldest first. -/
  gaps : List Gap

/-- A gossip event. -/
inductive Event where
  /-- A message from a neighbor. -/
  | received (content : Bytes) (deliveredFrom : String)
  | neighborUp (nodeId : String)
  | neighborDown (nodeId : String)
  | lagged

/-- `trusted_publishers`. -/
def trusted : Lens Node (Lock (Finset String)) :=
  ⟨Node.trustedPublishers, fun lock s => { s with trustedPublishers := lock }, fun _ => rfl⟩

/-- `peer_names`. -/
def names : Lens Node (Lock Names) :=
  ⟨Node.peerNames, fun lock s => { s with peerNames := lock }, fun _ => rfl⟩

/-- `last_seq_per_sender`. -/
def lastSeqs : Lens Node (Lock Seqs) :=
  ⟨Node.lastSeqPerSender, fun lock s => { s with lastSeqPerSender := lock }, fun _ => rfl⟩

/-! ### Files -/

/-- `MAX_KNOWN_PEERS`. -/
def maxKnownPeers : ℕ := 15

/-- The lines of a file, trimmed and without the blank ones. -/
def readLines (file : Option String) : List String :=
  ((lines (file.getD "")).map trim).filter (· ≠ "")

/-- A `writeln!` for each line. -/
def writeLines (lines : List String) : String := String.join (lines.map (· ++ "\n"))

/-- `load_trusted_keys`. -/
def loadTrustedKeys (file : Option String) : Finset String :=
  ((readLines file).filter fun l => l.toList.head? ≠ some '#').toFinset

/-- `load_trusted_publishers`. -/
def loadTrustedPublishers (file : Option String) : Finset String := (readLines file).toFinset

/-- `save_trusted_publishers`. -/
def saveTrustedPublishers (env : Env) (m : Moment) (peers : Finset String) (file : Option String) :
    Option String :=
  if m.trustedFileOpens then some (writeLines (env.visit peers)) else file

/-- `save_peer_if_new`. -/
def savePeerIfNew (env : Env) (m : Moment) (nodeId : String) (file : Option String) : Option String :=
  if nodeId = env.myNodeId then file
  else
    let peers := readLines file
    if nodeId ∈ peers then file
    else
      let peers := peers ++ [nodeId]
      if m.peersFileOpens then some (writeLines (peers.drop (peers.length - maxKnownPeers))) else file

/-- The state `main` sets up, from what it finds at its start. -/
def Node.start (now : UInt64) (trustedFile monitorsFile peersFile : Option String)
    (db : Option Archive) (sseEnabled catchupEnabled : Bool) : Node where
  trustedPublishers := .new (loadTrustedPublishers trustedFile)
  peerNames := .new ∅
  lastSeqPerSender := .new ∅
  trustedMonitors := loadTrustedKeys monitorsFile
  lastNotificationTime := now
  notificationsReceived := 0
  db := db
  sseTx := if sseEnabled then some [] else none
  trustedPublishersFile := trustedFile
  peersFile := peersFile
  neighborTx := catchupEnabled
  neighborRx := none
  neighborCount := 0
  neighborIds := ∅
  uniqueSources := ∅
  joined := []
  gaps := []

/-! ### Names -/

/-- `sanitize_friendly_name`. -/
def sanitizeFriendlyName (name : String) : String :=
  String.ofList (trimChars ((name.toList.filter fun c => !isControl c).take 64))

/-- `print_peer_table`. -/
def printPeerTable : Program Names Unit := do
  let names ← get
  if ∀ key ∈ names.keys, Cuts 16 key then pure () else throw .notCharBoundary

/-- A node announces a name for itself. -/
def nameNode (key sanitized : String) : Program Names Unit := do
  let names ← get
  modify (·.insert key sanitized)
  if names.lookup key ≠ some sanitized then printPeerTable else pure ()

/-- Insert a name unless it is there. Returns whether it was not. -/
def insertName (key sanitized : String) : Program Names Bool := do
  let names ← get
  if names.lookup key ≠ some sanitized then
    modify (·.insert key sanitized)
    pure true
  else pure false

/-- An endorser announces a name for itself, under its key and under its node. -/
def nameEndorser (sender nodeId sanitized : String) : Program Names Unit := do
  let senderChanged ← insertName sender sanitized
  let nodeChanged ← insertName nodeId sanitized
  if senderChanged || nodeChanged then printPeerTable else pure ()

/-- The name of a message, if it has one that is not blank. -/
def PeerAnnounce.sanitized (a : PeerAnnounce) : Option String :=
  (a.friendlyName.map sanitizeFriendlyName).filter (· ≠ "")

/-! ### Messages -/

/-- The node that announces itself is saved as a peer. -/
def savePeer (env : Env) (m : Moment) (a : PeerAnnounce) : Program Node Unit :=
  match env.parseNodeId a.nodeId with
  | some nodeId => modify fun s => { s with peersFile := savePeerIfNew env m nodeId s.peersFile }
  | none => pure ()

/-- The name of a message, if it has one, is entered into `peer_names`. -/
def enterName (a : PeerAnnounce) (enter : String → Program Names Unit) : Program Node Unit :=
  match a.sanitized with
  | some sanitized => zoom names (Lock.hold (enter sanitized))
  | none => pure ()

/-- The branch of `handle_event` for a `peer_announce`. -/
def handleAnnounce (env : Env) (m : Moment) (a : PeerAnnounce) : Program Node Unit := do
  savePeer env m a
  enterName a (nameNode a.nodeId)

/-- The loop over the endorsed keys. Returns how many were new. -/
def addKeys (sender : String) : List String → Program (Finset String) ℕ
  | [] => pure 0
  | key :: nodeList => do
    let tp ← get
    if key ∈ tp then addKeys sender nodeList
    else do
      modify (insert key ·)
      -- the log line, printed while the lock is held
      let _ ← cut (short 8 key)
      let _ ← cut (short 8 sender)
      let added ← addKeys sender nodeList
      pure (added + 1)

/-- The end of the branch for a `peer_endorse`. -/
def addEndorsedKeys (env : Env) (m : Moment) (sender : String) (nodeList : List String) :
    Program Node Unit := do
  let added ← zoom trusted (Lock.hold (addKeys sender nodeList))
  if 0 < added then
    let tp ← zoom trusted Lock.read
    modify fun s =>
      { s with trustedPublishersFile := saveTrustedPublishers env m tp s.trustedPublishersFile }
  else pure ()

/-- What `handle_event` does with a verified endorsement. -/
def handleVerified (env : Env) (m : Moment) (a : PeerAnnounce) (sender : String) :
    Program Node Unit := do
  let tp ← zoom trusted Lock.read
  if sender ∈ tp then
    enterName a (nameEndorser sender a.nodeId)
    a.nodeList.elim (pure ()) (addEndorsedKeys env m sender)
  else
    let _ ← cut (short 8 sender)
    pure ()

/-- The branch of `handle_event` for a `peer_endorse`. -/
def handleEndorse (env : Env) (m : Moment) (a : PeerAnnounce) : Program Node Unit := do
  match ← ofPure (a.verifyEndorseSignature env.ed25519) with
  | .ok true =>
    match a.sender with
    | some sender => handleVerified env m a sender
    | none => pure ()
  | .ok false => pure ()
  | .error _ => pure ()

/-- An empty trusted set lets everybody pass. -/
def Admitted (tp : Finset String) (n : GossipNotification) : Prop := tp = ∅ ∨ n.sender ∈ tp

instance (tp : Finset String) (n : GossipNotification) : Decidable (Admitted tp n) :=
  inferInstanceAs (Decidable (_ ∨ _))

/-- The gate of a notification: `body` runs if its sender passes. -/
def gated (n : GossipNotification) (body : Program Node Unit) : Program Node Unit := do
  let tp ← zoom trusted Lock.read
  if Admitted tp n then body else pure ()

/-- `last + 1`. -/
def nextSeq (env : Env) (last : UInt64) : Rust UInt64 :=
  if env.overflowChecks ∧ last.toNat = 2 ^ 64 - 1 then .error .overflow else .ok (last + 1)

/-- The detection of sequence gaps. Returns the gap it reports. -/
def trackSeq (env : Env) (sender : String) (seq : UInt64) : Program Seqs (Option Gap) := do
  let seqs ← get
  match seqs.lookup sender with
  | some last => do
    let expected ← ofPure (nextSeq env last)
    if expected < seq then
      let display ← cut (short 8 sender)
      modify (·.insert sender seq)
      pure (some ⟨display, expected, seq, seq - last - 1⟩)
    else
      modify (·.insert sender seq)
      pure none
  | none =>
    modify (·.insert sender seq)
    pure none

/-- `sender_display`, with the first bytes of the sender. -/
def showSender (names : Names) (sender display : String) : String :=
  match names.lookup sender with
  | some name => "\"" ++ name ++ "\" (" ++ display ++ ")"
  | none => display

/-- The status of a signature. -/
def sigStatus (env : Env) (n : GossipNotification) : String :=
  match n.verifySignature env.ed25519 with
  | .ok true => "VALID"
  | .ok false => "UNSIGNED"
  | .error _ => "INVALID"

/-- `print_notification`, with the fields in alphabetical order. -/
def printNotification (env : Env) (n : GossipNotification) (display : String) : String :=
  String.ofList (Json.render (.obj [("iris", .arr (n.iris.map .str)), ("medium", .str n.medium),
    ("reason", .str n.reason), ("sender", .str n.sender), ("sender_name", .str display),
    ("seq", n.seq.elim .null .u64), ("sig_status", .str (sigStatus env n)),
    ("signature", n.signature.elim .null .str), ("timestamp", .u64 n.timestamp),
    ("version", .str n.version)]))

/-- `store` of a notification. -/
def Archive.keep (env : Env) (m : Moment) (raw : Bytes) (n : GossipNotification) (db : Archive) :
    Archive :=
  (db.store m.sql m.now (env.blake3 raw) raw n.sender n.medium n.reason n.timestamp n.iris.length).2

/-- A notification is sent on the SSE channel and stored. -/
def deliver (env : Env) (m : Moment) (raw : Bytes) (n : GossipNotification) (display : String) :
    Program Node Unit :=
  modify fun s =>
    { s with
      sseTx := s.sseTx.map (· ++ [printNotification env n display])
      db := s.db.map (·.keep env m raw n) }

/-- The sequence number of a notification. -/
def recordSeq (env : Env) (n : GossipNotification) : Program Node Unit :=
  match n.seq with
  | some seq => do
    let gap ← zoom lastSeqs (Lock.hold (trackSeq env n.sender seq))
    modify fun s => { s with gaps := s.gaps ++ gap.toList }
  | none => pure ()

/-- A notification is shown, sent and stored. -/
def showNotification (env : Env) (m : Moment) (raw : Bytes) (n : GossipNotification) :
    Program Node Unit := do
  let names ← zoom names Lock.read
  let display ← cut (short 8 n.sender)
  deliver env m raw n (showSender names n.sender display)

/-- The branch of `handle_event` for a notification. -/
def handleNotification (env : Env) (m : Moment) (raw : Bytes) (n : GossipNotification) :
    Program Node Unit := do
  modify fun s =>
    { s with
      lastNotificationTime := m.now
      notificationsReceived := s.notificationsReceived + 1 }
  gated n do
    recordSeq env n
    showNotification env m raw n

/-- The body of the loop of `run_catchup`, for one payload. -/
def catchupPayload (env : Env) (m : Moment) (payload : Bytes) : Program Node Unit :=
  match env.parseGossipNotification payload with
  | some n => gated n do
    let display ← cut (short 8 n.sender)
    deliver env m payload n display
  | none => pure ()

/-- A `peer_suggest`. -/
def handleSuggest (env : Env) (m : Moment) (g : PeerSuggest) : Program Node Unit := do
  let s ← get
  let peers := g.suggestedPeers.filterMap env.parseNodeId
  if g.targetNodeId = env.myNodeId ∧ g.verifySignature env.ed25519 = .ok true ∧
      g.sender ∈ s.trustedMonitors ∧ m.now.toNat - g.timestamp.toNat < 300 ∧ peers ≠ [] then
    let _ ← cut (slice 8 g.sender)
    modify fun s => { s with joined := s.joined ++ [peers] }
  else pure ()

/-- `handle_event`, when a neighbor appears. -/
def handleNeighborUp (env : Env) (m : Moment) (nodeId : String) : Program Node Unit := do
  let _ ← zoom names Lock.read
  modify fun s =>
    { s with
      peersFile := savePeerIfNew env m nodeId s.peersFile
      neighborRx := if s.neighborTx then some nodeId else s.neighborRx
      neighborTx := false }

/-- What a message is taken for. -/
inductive Incoming where
  | suggest (g : PeerSuggest)
  | announce (a : PeerAnnounce)
  | endorse (a : PeerAnnounce)
  | notification (n : GossipNotification)
  | ignored

/-- `handle_event` takes a `PeerAnnounce` of another type for nothing, and only what is no
`PeerAnnounce` for a notification. -/
def classifyEvent (env : Env) (raw : Bytes) : Incoming :=
  match env.parsePeerAnnounce raw with
  | some a =>
    if a.msgType = "peer_announce" then .announce a
    else if a.msgType = "peer_endorse" then .endorse a
    else .ignored
  | none =>
    match env.parseGossipNotification raw with
    | some n => .notification n
    | none => .ignored

/-- `spawn_receive_task` tries a `PeerSuggest` first, and passes on what is not of its type. -/
def classify (env : Env) (raw : Bytes) : Incoming :=
  match env.parsePeerSuggest raw with
  | some g => if g.msgType = "peer_suggest" then .suggest g else classifyEvent env raw
  | none => classifyEvent env raw

/-- The handling of a message. -/
def handleMessage (env : Env) (m : Moment) (raw : Bytes) : Incoming → Program Node Unit
  | .suggest g => handleSuggest env m g
  | .announce a => handleAnnounce env m a
  | .endorse a => handleEndorse env m a
  | .notification n => handleNotification env m raw n
  | .ignored => pure ()

/-- One event in the loop of `spawn_receive_task`. -/
def receive (env : Env) (m : Moment) : Event → Program Node Unit
  | .neighborUp nodeId => do
    modify fun s =>
      { s with neighborCount := s.neighborCount + 1, neighborIds := insert nodeId s.neighborIds }
    handleNeighborUp env m nodeId
  | .neighborDown nodeId => do
    modify fun s =>
      { s with neighborCount := s.neighborCount - 1, neighborIds := s.neighborIds.erase nodeId }
    let _ ← zoom names Lock.read
    pure ()
  | .lagged => pure ()
  | .received content deliveredFrom => do
    modify fun s => { s with uniqueSources := insert deliveredFrom s.uniqueSources }
    handleMessage env m content (classify env content)

/-! ### Runs -/

/-- Something the listener handles. -/
inductive Input where
  /-- A gossip event. -/
  | live (ev : Event)
  /-- A payload from the archive of a peer. -/
  | catchup (payload : Bytes)

/-- The handling of an input. -/
def handle (env : Env) (m : Moment) : Input → Program Node Unit
  | .live ev => receive env m ev
  | .catchup payload => catchupPayload env m payload

/-- One step. -/
def handleStep (env : Env) (s : Node) (a : Moment × Input) : Option Node :=
  some (after (handle env a.1 a.2) s)

/-! ### A small world -/

/-- What a test takes from elsewhere: one notification, in the payload `[1]`, and no valid key. -/
def plainEnv (n : GossipNotification) : Env where
  parsePeerSuggest := fun _ => none
  parsePeerAnnounce := fun _ => none
  parseGossipNotification := fun raw => if raw = [1] then some n else none
  parseNodeId := fun _ => none
  ed25519 := ⟨fun _ => false, fun _ _ _ => false⟩
  blake3 := Hex.encode
  overflowChecks := false
  myNodeId := "node"
  visit := fun s => s.sort (· ≤ ·)
  visit_spec := fun s => ⟨Finset.sort_nodup s _, Finset.sort_toFinset s _⟩

/-- A moment at which everything works. -/
def Moment.fine (now : UInt64) : Moment := ⟨now, ⟨true, true⟩, true, true⟩

end PodpingAlpha.Listener
