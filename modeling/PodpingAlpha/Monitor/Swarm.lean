import PodpingAlpha.Library.Deque
import PodpingAlpha.Library.Table
import Mathlib.Data.Finset.Dedup
import Mathlib.Data.Prod.Lex
import Mathlib.Data.String.Basic

/-!
# The registry of peers

`PeerRegistry` of `gossip-monitor/src/swarm.rs`: what the monitor knows of the nodes that have
announced themselves. The figures of a peer and its samples are in two tables, which an announce, a
snapshot and a prune keep in step.

## The model

A figure of the processor is an element of any type, as it is only copied. The clock gives any number
of seconds at each call. The order in which a table is visited is open, and so is `to_lowercase`.

* `Registry.update`, `Registry.snapshot`, `Registry.pruneStale` — the calls.
* `after` — the registry after a log of calls.
* `Slot` — a node with all of its samples, one step for each call in the log.

## What is proved

* `Refines.step` — the two tables together are the table of the slots.
* `slot_eq_some` — a slot is filled by the latest announce that no prune has removed since.
* `slot_samples` — it has the samples since it was last filled when it was empty.
* `registry_refines` — a snapshot in terms of the log.
-/

namespace PodpingAlpha.Monitor.Swarm

variable {F : Type}

/-! ### The data -/

/-- What is read of a `PeerAnnounce`. -/
structure PeerAnnounce (F : Type) where
  /-- `peer_announce`, or another kind of message of this shape. -/
  msgType : String
  /-- The node. -/
  nodeId : String
  /-- Its name. -/
  friendlyName : Option String := none
  /-- The version of its program. -/
  version : String
  /-- The load of its processor. -/
  cpuPercent : Option F := none
  /-- Its memory. -/
  memoryMb : Option UInt64 := none
  /-- Its threads. -/
  threadCount : Option UInt32 := none
  /-- How many neighbours it has. -/
  neighborCount : Option UInt32 := none
  /-- For how long it has been up. -/
  uptimeSecs : Option UInt64 := none
  /-- What it has received. -/
  msgsReceived : Option UInt64 := none
  /-- What it has sent. -/
  msgsSent : Option UInt64 := none
  /-- When it last received a message. -/
  lastMsgAgeSecs : Option UInt64 := none
  /-- How often it has connected anew. -/
  reconnectCount : Option UInt64 := none
  /-- Its system. -/
  os : Option String := none
  /-- How it was built. -/
  buildType : Option String := none
  /-- Its neighbours. -/
  neighbors : Option (List String) := none

/-- A `MetricSample`. -/
structure MetricSample (F : Type) where
  /-- When it was taken. -/
  timestamp : UInt64
  /-- The load of the processor. -/
  cpuPercent : Option F
  /-- The memory. -/
  memoryMb : Option UInt64
  deriving DecidableEq

/-- A `PeerState`. -/
structure PeerState (F : Type) where
  /-- The node. -/
  nodeId : String
  /-- Its name. -/
  friendlyName : Option String
  /-- The version of its program. -/
  version : String
  /-- When it was last announced. -/
  lastSeen : UInt64
  /-- That was long ago. -/
  stale : Bool
  /-- The load of its processor. -/
  cpuPercent : Option F
  /-- Its memory. -/
  memoryMb : Option UInt64
  /-- Its threads. -/
  threadCount : Option UInt32
  /-- How many neighbours it has. -/
  neighborCount : Option UInt32
  /-- For how long it has been up. -/
  uptimeSecs : Option UInt64
  /-- What it has received. -/
  msgsReceived : Option UInt64
  /-- What it has sent. -/
  msgsSent : Option UInt64
  /-- When it last received a message. -/
  lastMsgAgeSecs : Option UInt64
  /-- How often it has connected anew. -/
  reconnectCount : Option UInt64
  /-- Its system. -/
  os : Option String
  /-- How it was built. -/
  buildType : Option String
  /-- Its neighbours. -/
  neighbors : List String
  /-- Its last samples. -/
  history : List (MetricSample F)

/-- A `TopologyEdge`. -/
structure TopologyEdge where
  /-- The lower end. -/
  source : String
  /-- The upper end. -/
  target : String
  deriving DecidableEq

/-- A `SwarmSnapshot`. -/
structure SwarmSnapshot (F : Type) where
  /-- The peers, sorted by name. -/
  peers : List (PeerState F)
  /-- The edges, sorted. -/
  edges : List TopologyEdge
  /-- How many peers there are. -/
  totalPeers : ℕ
  /-- How many are not stale. -/
  activePeers : ℕ
  /-- How many are. -/
  stalePeers : ℕ
  /-- When it was taken. -/
  timestamp : UInt64

/-- A `PeerRegistry`. -/
structure Registry (F : Type) where
  /-- `peers`. -/
  peers : Table (PeerState.nodeId (F := F))
  /-- `history`. -/
  history : Table (Prod.fst : String × List (MetricSample F) → String)

/-- `PeerRegistry::new`. -/
def Registry.new : Registry F := ⟨Table.empty, Table.empty⟩

/-- What the snapshot leaves open. -/
structure Visits (F : Type) where
  /-- `map.values()`. -/
  peers : List (PeerState F) → List (PeerState F)
  /-- `edge_set.into_iter()`. -/
  edges : Finset (String × String) → List (String × String)
  /-- `str::to_lowercase`. -/
  toLowercase : String → String
  /-- Every value comes up once. -/
  perm_peers : ∀ rows, (peers rows).Perm rows
  /-- No pair comes up twice. -/
  nodup_edges : ∀ set, (edges set).Nodup
  /-- The pairs come up, and nothing else. -/
  mem_edges : ∀ set pair, pair ∈ edges set ↔ pair ∈ set

instance : Nonempty (Visits F) :=
  ⟨⟨id, Finset.toList, id, fun _ => .refl _, Finset.nodup_toList, fun _ _ => Finset.mem_toList⟩⟩

/-! ### The calls -/

def staleThresholdSecs : ℕ := 600

def pruneThresholdSecs : ℕ := 1800

def maxHistorySamples : ℕ := 60

/-- `now.saturating_sub(seen)`. -/
def age (now seen : UInt64) : ℕ := now.toNat - seen.toNat

/-- The state that `update` builds. -/
def PeerAnnounce.state (announce : PeerAnnounce F) (now : UInt64) : PeerState F where
  nodeId := announce.nodeId
  friendlyName := announce.friendlyName
  version := announce.version
  lastSeen := now
  stale := false
  cpuPercent := announce.cpuPercent
  memoryMb := announce.memoryMb
  threadCount := announce.threadCount
  neighborCount := announce.neighborCount
  uptimeSecs := announce.uptimeSecs
  msgsReceived := announce.msgsReceived
  msgsSent := announce.msgsSent
  lastMsgAgeSecs := announce.lastMsgAgeSecs
  reconnectCount := announce.reconnectCount
  os := announce.os
  buildType := announce.buildType
  neighbors := announce.neighbors.getD []
  history := []

/-- The sample of an announce with figures of the processor or the memory. -/
def PeerAnnounce.sample? (announce : PeerAnnounce F) (now : UInt64) : Option (MetricSample F) :=
  if announce.cpuPercent.isSome || announce.memoryMb.isSome then
    some ⟨now, announce.cpuPercent, announce.memoryMb⟩
  else none

/-- A sample is pushed, and what is over the limit is drained. -/
def pushSample (samples : List (MetricSample F)) (sample : MetricSample F) : List (MetricSample F) :=
  let samples := samples ++ [sample]
  if samples.length > maxHistorySamples then samples.drop (samples.length - maxHistorySamples)
  else samples

/-- `PeerRegistry::update`. -/
def Registry.update (registry : Registry F) (now : UInt64) (announce : PeerAnnounce F) : Registry F :=
  if announce.msgType ≠ "peer_announce" then registry
  else
    let hist := registry.history
    { peers := registry.peers.put (announce.state now)
      history := match announce.sample? now with
        | some sample =>
          let samples := (hist.find? announce.nodeId).elim [] Prod.snd
          hist.put (announce.nodeId, pushSample samples sample)
        | none => hist }

/-- `stale` is set. -/
def PeerState.mark (now : UInt64) (peer : PeerState F) : PeerState F :=
  { peer with stale := age now peer.lastSeen > staleThresholdSecs }

/-- `history` is set, if there are samples. -/
def PeerState.populate (hist : Table (Prod.fst : String × List (MetricSample F) → String))
    (peer : PeerState F) : PeerState F :=
  match hist.find? peer.nodeId with
  | some (_, samples) => { peer with history := samples }
  | none => peer

@[simp] theorem nodeId_mark (now : UInt64) (peer : PeerState F) : (peer.mark now).nodeId = peer.nodeId := rfl

@[simp] theorem nodeId_populate (hist : Table (Prod.fst : String × List (MetricSample F) → String))
    (peer : PeerState F) : (peer.populate hist).nodeId = peer.nodeId := by
  unfold PeerState.populate
  split <;> rfl

/-- What a peer is sorted by. -/
def PeerState.name (visits : Visits F) (peer : PeerState F) : String :=
  visits.toLowercase (peer.friendlyName.getD peer.nodeId)

/-- The ends of an edge in order. -/
def pair (a b : String) : String × String := if a < b then (a, b) else (b, a)

/-- `edge_set`. -/
def edgeSet (peers : List (PeerState F)) : Finset (String × String) :=
  (peers.flatMap fun peer => peer.neighbors.map (pair peer.nodeId)).toFinset

/-- `PeerRegistry::snapshot`, which also leaves what it has set in the table. -/
def Registry.snapshot (visits : Visits F) (registry : Registry F) (now : UInt64) :
    SwarmSnapshot F × Registry F :=
  let map := registry.peers.map (PeerState.mark now) (nodeId_mark now)
  let map := map.map (PeerState.populate registry.history) (nodeId_populate registry.history)
  let peers := (visits.peers map.rows).mergeSort fun a b => a.name visits ≤ b.name visits
  let edges := (visits.edges (edgeSet peers)).mergeSort fun a b => toLex a ≤ toLex b
  let stale := (peers.filter PeerState.stale).length
  ({ peers := peers
     edges := edges.map fun e => ⟨e.1, e.2⟩
     totalPeers := peers.length
     activePeers := peers.length - stale
     stalePeers := stale
     timestamp := now },
   { registry with peers := map })

/-- `PeerRegistry::prune_stale`. -/
def Registry.pruneStale (registry : Registry F) (now : UInt64) : ℕ × Registry F :=
  let map := registry.peers.retain fun peer => age now peer.lastSeen ≤ pruneThresholdSecs
  let removed := registry.peers.rows.length - map.rows.length
  let hist := if removed > 0 then registry.history.retain fun row => (map.find? row.1).isSome
    else registry.history
  (removed, ⟨map, hist⟩)

/-- A call. -/
inductive Call (F : Type)
  /-- `update`. -/
  | update (announce : PeerAnnounce F)
  /-- `snapshot`. -/
  | snapshot
  /-- `prune_stale`. -/
  | pruneStale

/-- The calls so far, each with the time it reads. -/
abbrev Log (F : Type) := List (UInt64 × Call F)

/-- The registry after a call. -/
def Registry.step (visits : Visits F) (registry : Registry F) (x : UInt64 × Call F) : Registry F :=
  match x.2 with
  | .update announce => registry.update x.1 announce
  | .snapshot => (registry.snapshot visits x.1).2
  | .pruneStale => (registry.pruneStale x.1).2

/-- The registry after the calls. -/
def after (visits : Visits F) (log : Log F) : Registry F := log.foldl (Registry.step visits) .new

/-! ### The log -/

/-- The announce of a node, if the call is one. -/
def Call.announceOf? (id : String) : Call F → Option (PeerAnnounce F)
  | .update announce =>
    if announce.msgType = "peer_announce" ∧ announce.nodeId = id then some announce else none
  | _ => none

/-- The call leaves in place what was announced at `seen`. -/
def Spares (seen : UInt64) (x : UInt64 × Call F) : Prop :=
  x.2 = .pruneStale → age x.1 seen ≤ pruneThresholdSecs

/-- The latest announce of a node, which has not been removed by a prune since. -/
def Present (log : Log F) (id : String) (seen : UInt64) (announce : PeerAnnounce F) : Prop :=
  ∃ before call later, log = before ++ (seen, call) :: later ∧ call.announceOf? id = some announce ∧
    ∀ x ∈ later, x.2.announceOf? id = none ∧ Spares seen x

/-- The calls from the one on that last filled the slot of a node when it was empty. -/
def Since (log : Log F) (id : String) (since : Log F) : Prop :=
  ∃ before x later, since = x :: later ∧ log = before ++ since ∧ (x.2.announceOf? id).isSome ∧
    (¬∃ seen announce, Present before id seen announce) ∧
    ∀ mid y rest, later = mid ++ y :: rest → (y.2.announceOf? id).isSome →
      ∃ seen announce, Present (before ++ x :: mid) id seen announce

/-- The samples of a node. -/
def samplesOf (id : String) (log : Log F) : List (MetricSample F) :=
  log.filterMap fun x => (x.2.announceOf? id).bind fun announce => announce.sample? x.1

/-! ### Slots -/

/-- A node in the log. -/
structure Slot (F : Type) where
  /-- When it was last announced. -/
  seen : UInt64
  /-- What was announced. -/
  announce : PeerAnnounce F
  /-- All of its samples. -/
  samples : List (MetricSample F)

/-- What a call does to the slot of a node. -/
def Slot.step (id : String) (slot : Option (Slot F)) (x : UInt64 × Call F) : Option (Slot F) :=
  match x.2.announceOf? id with
  | some announce =>
    some ⟨x.1, announce, slot.elim [] Slot.samples ++ (announce.sample? x.1).toList⟩
  | none => match x.2 with
    | .pruneStale => slot.filter fun s => age x.1 s.seen ≤ pruneThresholdSecs
    | _ => slot

/-- The slot of a node after the calls. -/
def slot (log : Log F) (id : String) : Option (Slot F) := log.foldl (Slot.step id) none

variable {log : Log F} {id : String} {x : UInt64 × Call F} {seen : UInt64}
  {announce : PeerAnnounce F} {s : Slot F}

theorem slot_concat (log : Log F) (id : String) (x : UInt64 × Call F) :
    slot (log ++ [x]) id = Slot.step id (slot log id) x := by
  rw [slot, List.foldl_append]
  rfl

theorem step_announce (h : x.2.announceOf? id = some announce) (slot : Option (Slot F)) :
    Slot.step id slot x =
      some ⟨x.1, announce, slot.elim [] Slot.samples ++ (announce.sample? x.1).toList⟩ := by
  rw [Slot.step, h]

/-- Any other call leaves the slot or empties it. -/
theorem step_other (h : x.2.announceOf? id = none) (slot : Option (Slot F)) :
    Slot.step id slot x = some s ↔ slot = some s ∧ Spares s.seen x := by
  rw [Slot.step, h, Spares]
  cases hx : x.2 with
  | pruneStale => simp [Option.filter_eq_some_iff]
  | _ => simp

/-! ### What fills a slot -/

/-- Of a log that is split at a call, the last call is that one or a later one. -/
theorem split_concat {α : Type} {l before later : List α} {x y : α}
    (h : l ++ [x] = before ++ y :: later) :
    before = l ∧ y = x ∧ later = [] ∨ ∃ mid, later = mid ++ [x] ∧ l = before ++ y :: mid := by
  rcases List.eq_nil_or_concat' later with rfl | ⟨mid, z, rfl⟩
  · obtain ⟨rfl, hx⟩ := List.append_inj' h rfl
    exact .inl ⟨rfl, (List.singleton_inj.1 hx).symm, rfl⟩
  · rw [← List.cons_append, ← List.append_assoc] at h
    obtain ⟨hl, hx⟩ := List.append_inj' h rfl
    exact .inr ⟨mid, by rw [List.singleton_inj.1 hx], hl⟩

theorem present_concat_announce {a : PeerAnnounce F} (h : x.2.announceOf? id = some a) :
    Present (log ++ [x]) id seen announce ↔ seen = x.1 ∧ announce = a := by
  constructor
  · rintro ⟨before, call, later, hlog, hcall, hlater⟩
    obtain ⟨-, rfl, -⟩ | ⟨mid, rfl, -⟩ := split_concat hlog
    · exact ⟨rfl, Option.some.inj (hcall.symm.trans h)⟩
    · have hnone := (hlater x (by simp)).1
      rw [h] at hnone
      cases hnone
  · rintro ⟨rfl, rfl⟩
    exact ⟨log, x.2, [], rfl, h, fun _ hy => absurd hy List.not_mem_nil⟩

theorem present_concat_other (h : x.2.announceOf? id = none) :
    Present (log ++ [x]) id seen announce ↔ Present log id seen announce ∧ Spares seen x := by
  constructor
  · rintro ⟨before, call, later, hlog, hcall, hlater⟩
    obtain ⟨-, rfl, -⟩ | ⟨mid, rfl, rfl⟩ := split_concat hlog
    · cases hcall.symm.trans h
    · obtain ⟨hlater, hx⟩ := List.forall_mem_append.1 hlater
      exact ⟨⟨before, call, mid, rfl, hcall, hlater⟩, (List.forall_mem_singleton.1 hx).2⟩
  · rintro ⟨⟨before, call, later, rfl, hcall, hlater⟩, hspares⟩
    refine ⟨before, call, later ++ [x], by simp, hcall, ?_⟩
    exact List.forall_mem_append.2 ⟨hlater, List.forall_mem_singleton.2 ⟨h, hspares⟩⟩

/-- **What fills a slot**: the latest announce, if no prune has removed it since. -/
theorem slot_eq_some : (∃ s, slot log id = some s ∧ s.seen = seen ∧ s.announce = announce) ↔
    Present log id seen announce := by
  induction log using List.reverseRecOn with
  | nil =>
    refine iff_of_false ?_ ?_
    · rintro ⟨s, hs, -⟩
      cases hs
    · rintro ⟨before, call, later, hlog, -⟩
      cases before <;> cases hlog
  | append_singleton log x ih =>
    rw [slot_concat]
    cases hx : x.2.announceOf? id with
    | some a =>
      rw [step_announce hx, present_concat_announce hx]
      constructor
      · rintro ⟨s, hs, rfl, rfl⟩
        cases hs
        exact ⟨rfl, rfl⟩
      · rintro ⟨rfl, rfl⟩
        exact ⟨_, rfl, rfl, rfl⟩
    | none =>
      rw [present_concat_other hx, ← ih]
      constructor
      · rintro ⟨s, hs, rfl, rfl⟩
        obtain ⟨hs, hspares⟩ := (step_other hx _).1 hs
        exact ⟨⟨s, hs, rfl, rfl⟩, hspares⟩
      · rintro ⟨⟨s, hs, rfl, rfl⟩, hspares⟩
        exact ⟨s, (step_other hx _).2 ⟨hs, hspares⟩, rfl, rfl⟩

theorem present_iff_isSome : (∃ seen announce, Present log id seen announce) ↔ (slot log id).isSome := by
  rw [Option.isSome_iff_exists]
  constructor
  · rintro ⟨seen, announce, h⟩
    obtain ⟨s, hs, -⟩ := slot_eq_some.2 h
    exact ⟨s, hs⟩
  · rintro ⟨s, hs⟩
    exact ⟨s.seen, s.announce, slot_eq_some.1 ⟨s, hs, rfl, rfl⟩⟩

/-- A slot is that of the node it was announced by. -/
theorem nodeId_slot (h : slot log id = some s) : s.announce.nodeId = id := by
  obtain ⟨-, call, -, -, hcall, -⟩ := slot_eq_some.1 ⟨s, h, rfl, rfl⟩
  cases call with
  | update announce =>
    obtain ⟨⟨-, hid⟩, heq⟩ := Option.ite_none_right_eq_some.1 hcall
    rw [← Option.some.inj heq, hid]
  | snapshot => cases hcall
  | pruneStale => cases hcall

/-! ### The samples in a slot -/

theorem samplesOf_concat (log : Log F) (x : UInt64 × Call F) : samplesOf id (log ++ [x]) =
    samplesOf id log ++ ((x.2.announceOf? id).bind fun a => a.sample? x.1).toList := by
  rw [samplesOf, List.filterMap_append, ← samplesOf, List.filterMap_cons, List.filterMap_nil]
  cases (x.2.announceOf? id).bind fun a => a.sample? x.1 <;> rfl

/-- A slot that is not empty stays filled since the same call. -/
theorem Since.concat {since : Log F} (h : Since log id since)
    (hx : (x.2.announceOf? id).isSome → (slot log id).isSome) : Since (log ++ [x]) id (since ++ [x]) := by
  obtain ⟨before, y, later, rfl, rfl, hy, hempty, hlater⟩ := h
  refine ⟨before, y, later ++ [x], rfl, by simp, hy, hempty, fun mid z rest hrest hz => ?_⟩
  obtain ⟨rfl, rfl, -⟩ | ⟨rest, rfl, rfl⟩ := split_concat hrest
  · exact present_iff_isSome.2 (hx hz)
  · exact hlater mid z rest rfl hz

/-- **The samples in a slot** are those since it was last filled when it was empty. -/
theorem slot_samples (h : slot log id = some s) :
    ∃ since, Since log id since ∧ s.samples = samplesOf id since := by
  induction log using List.reverseRecOn generalizing s with
  | nil => cases h
  | append_singleton log x ih =>
    rw [slot_concat] at h
    cases hx : x.2.announceOf? id with
    | some a =>
      rw [step_announce hx] at h
      obtain rfl := Option.some.inj h
      cases hslot : slot log id with
      | none =>
        refine ⟨[x], ⟨log, x, [], rfl, rfl, by rw [hx]; rfl, ?_, ?_⟩, ?_⟩
        · rw [present_iff_isSome, hslot]
          exact Bool.false_ne_true
        · intro mid y rest hrest
          cases mid <;> cases hrest
        · rw [← List.nil_append [x], samplesOf_concat, hx]
          rfl
      | some old =>
        obtain ⟨since, hsince, hsamples⟩ := ih hslot
        refine ⟨since ++ [x], hsince.concat fun _ => by rw [hslot]; rfl, ?_⟩
        rw [samplesOf_concat, hx, ← hsamples]
        rfl
    | none =>
      obtain ⟨hslot, -⟩ := (step_other hx _).1 h
      obtain ⟨since, hsince, hsamples⟩ := ih hslot
      refine ⟨since ++ [x], hsince.concat fun _ => by rw [hslot]; rfl, ?_⟩
      rw [samplesOf_concat, hx, hsamples]
      exact (List.append_nil _).symm

/-! ### The tables -/

/-- The samples that the history has of a node. -/
def Registry.samples (registry : Registry F) (id : String) : Option (List (MetricSample F)) :=
  (registry.history.find? id).map Prod.snd

/-- A state without what a snapshot sets. -/
def PeerState.bare (peer : PeerState F) : PeerState F := { peer with stale := false, history := [] }

/-- The two tables are the slots: the states are those that were announced last, the history has the
last samples of the nodes with samples, and no other peer has any. -/
structure Refines (registry : Registry F) (slots : String → Option (Slot F)) : Prop where
  /-- What was announced last. -/
  peers : ∀ id, (registry.peers.find? id).map PeerState.bare =
    (slots id).map fun s => s.announce.state s.seen
  /-- The last samples. -/
  history : ∀ id, registry.samples id =
    ((slots id).filter fun s => s.samples ≠ []).map fun s => s.samples.rtake maxHistorySamples
  /-- A peer without samples. -/
  unsampled : ∀ id peer, registry.peers.find? id = some peer → registry.samples id = none →
    peer.history = []

variable {registry : Registry F} {slots : String → Option (Slot F)} {peer : PeerState F}

theorem pushSample_eq (samples : List (MetricSample F)) (sample : MetricSample F) :
    pushSample (samples.rtake maxHistorySamples) sample =
      (samples ++ [sample]).rtake maxHistorySamples := by
  rw [← Deque.rtake_rtake_concat]
  generalize samples.rtake maxHistorySamples = kept
  show (if (kept ++ [sample]).length > maxHistorySamples then _ else _) = _
  split_ifs with h
  · rfl
  · exact (Deque.rtake_of_length_le (not_lt.1 h)).symm

theorem Refines.isSome (h : Refines registry slots) (id : String) :
    (registry.peers.find? id).isSome = (slots id).isSome := by
  have hpeers := congrArg Option.isSome (h.peers id)
  rwa [Option.isSome_map, Option.isSome_map] at hpeers

theorem Refines.find? (h : Refines registry slots) (hpeer : registry.peers.find? id = some peer) :
    ∃ s, slots id = some s ∧ peer.bare = s.announce.state s.seen := by
  have hpeers := h.peers id
  rw [hpeer] at hpeers
  obtain ⟨s, hs, hstate⟩ := Option.map_eq_some_iff.1 hpeers.symm
  exact ⟨s, hs, hstate.symm⟩

/-- A slot and its peer have the same age. -/
theorem lastSeen_eq (h : peer.bare = s.announce.state s.seen) : peer.lastSeen = s.seen :=
  congrArg PeerState.lastSeen h

theorem Refines.new : Refines (.new : Registry F) fun _ => none :=
  ⟨fun _ => rfl, fun _ => rfl, fun _ _ h => by cases h⟩

theorem Refines.elim_samples (h : Refines registry slots) (id : String) :
    (registry.history.find? id).elim [] Prod.snd =
      ((slots id).elim [] Slot.samples).rtake maxHistorySamples := by
  have hhistory := h.history id
  rw [Registry.samples] at hhistory
  cases hslot : slots id with
  | none =>
    rw [hslot, Option.filter_none, Option.map_none, Option.map_eq_none_iff] at hhistory
    rw [hhistory]
    rfl
  | some s =>
    rw [hslot] at hhistory
    by_cases hs : s.samples = []
    · simp only [Option.filter_some, hs, ne_eq, not_true_eq_false, decide_false, Bool.false_eq_true,
        if_false, Option.map_none, Option.map_eq_none_iff] at hhistory
      rw [hhistory, Option.elim_some, hs]
      rfl
    · simp only [Option.filter_some, ne_eq, hs, not_false_eq_true, decide_true, if_true,
        Option.map_some, Option.map_eq_some_iff] at hhistory
      obtain ⟨row, hrow, hsamples⟩ := hhistory
      rw [hrow, Option.elim_some, Option.elim_some, hsamples]

/-! ### A step of the registry -/

theorem step_update {now : UInt64} (h : announce.msgType = "peer_announce")
    (slot : Option (Slot F)) : Slot.step id slot (now, .update announce) =
      if id = announce.nodeId then
        some ⟨now, announce, slot.elim [] Slot.samples ++ (announce.sample? now).toList⟩
      else slot := by
  by_cases hid : id = announce.nodeId
  · rw [if_pos hid]
    have hann : (Call.update announce).announceOf? id = some announce := if_pos ⟨h, hid.symm⟩
    exact step_announce hann slot
  · rw [if_neg hid, Slot.step]
    have hother : (Call.update announce).announceOf? id = none := if_neg fun hann => hid hann.2.symm
    simp only [hother]

theorem samples_update {now : UInt64} (h : announce.msgType = "peer_announce") (id : String) :
    (registry.update now announce).samples id =
      if id = announce.nodeId then
        (announce.sample? now).elim (registry.samples id) fun sample =>
          some (pushSample ((registry.history.find? id).elim [] Prod.snd) sample)
      else registry.samples id := by
  rw [Registry.samples, Registry.update, if_neg (not_not.2 h)]
  cases announce.sample? now with
  | none => exact (ite_self _).symm
  | some sample =>
    dsimp only
    rw [Table.find?_put]
    split_ifs with hid
    · rw [hid]
      rfl
    · rfl

theorem find?_update {now : UInt64} (h : announce.msgType = "peer_announce") (id : String) :
    (registry.update now announce).peers.find? id =
      if id = announce.nodeId then some (announce.state now) else registry.peers.find? id := by
  rw [Registry.update, if_neg (not_not.2 h)]
  exact Table.find?_put id

theorem Refines.update (h : Refines registry slots) (now : UInt64)
    (hmsg : announce.msgType = "peer_announce") :
    Refines (registry.update now announce) fun id =>
      Slot.step id (slots id) (now, .update announce) where
  peers id := by
    rw [find?_update hmsg, step_update hmsg]
    split_ifs with hid
    · rfl
    · exact h.peers id
  history id := by
    rw [samples_update hmsg, step_update hmsg]
    split_ifs with hid
    · cases announce.sample? now with
      | none =>
        rw [Option.elim_none, h.history, Option.toList_none, List.append_nil]
        cases hslot : slots id with
        | none => rfl
        | some s =>
          rw [Option.elim_some, Option.filter_some, Option.filter_some]
          split_ifs <;> rfl
      | some sample =>
        rw [Option.elim_some, h.elim_samples, pushSample_eq, Option.toList_some, Option.filter_some,
          if_pos (by simp)]
        rfl
    · exact h.history id
  unsampled id peer hpeer hnone := by
    rw [find?_update hmsg] at hpeer
    rw [samples_update hmsg] at hnone
    split_ifs at hpeer hnone with hid
    · rw [← Option.some.inj hpeer]
      rfl
    · exact h.unsampled id peer hpeer hnone

theorem bare_show (now : UInt64) (registry : Registry F) (peer : PeerState F) :
    ((peer.mark now).populate registry.history).bare = peer.bare := by
  unfold PeerState.populate
  split <;> rfl

theorem stale_show (now : UInt64) (registry : Registry F) (peer : PeerState F) :
    ((peer.mark now).populate registry.history).stale =
      decide (age now peer.lastSeen > staleThresholdSecs) := by
  unfold PeerState.populate
  split <;> rfl

theorem find?_snapshot (visits : Visits F) (registry : Registry F) (now : UInt64) (id : String) :
    (registry.snapshot visits now).2.peers.find? id =
      (registry.peers.find? id).map fun peer => (peer.mark now).populate registry.history := by
  rw [Registry.snapshot, Table.find?_map, Table.find?_map, Option.map_map]
  rfl

/-- What a snapshot shows of the samples. -/
theorem Refines.history_show (h : Refines registry slots) (hpeer : registry.peers.find? id = some peer)
    (now : UInt64) : ((peer.mark now).populate registry.history).history =
      ((slots id).elim [] Slot.samples).rtake maxHistorySamples := by
  have hid : peer.nodeId = id := (Table.find?_eq_some.1 hpeer).2
  rw [← h.elim_samples, PeerState.populate, nodeId_mark, hid]
  cases hhist : registry.history.find? id with
  | none => exact h.unsampled id peer hpeer (by rw [Registry.samples, hhist]; rfl)
  | some row => rfl

theorem Refines.snapshot (h : Refines registry slots) (visits : Visits F) (now : UInt64) :
    Refines (registry.snapshot visits now).2 slots where
  peers id := by
    rw [find?_snapshot, Option.map_map, ← h.peers id]
    congr 1
    exact funext (bare_show now registry)
  history id := h.history id
  unsampled id peer hpeer hnone := by
    rw [find?_snapshot] at hpeer
    obtain ⟨old, hold, rfl⟩ := Option.map_eq_some_iff.1 hpeer
    have hhist : registry.history.find? id = none := Option.map_eq_none_iff.1 hnone
    rw [h.history_show hold, ← h.elim_samples, hhist]
    rfl

/-- The history is pruned like the peers, also when nothing is removed. -/
theorem samples_pruneStale (h : Refines registry slots) (now : UInt64) (id : String) :
    (registry.pruneStale now).2.samples id =
      if ((registry.pruneStale now).2.peers.find? id).isSome then registry.samples id else none := by
  rw [Registry.samples, Registry.pruneStale]
  dsimp only
  by_cases hremoved : registry.peers.rows.length - (registry.peers.retain fun peer =>
      age now peer.lastSeen ≤ pruneThresholdSecs).rows.length > 0
  · rw [if_pos hremoved, Table.find?_retain, Registry.samples]
    cases hhist : registry.history.find? id with
    | none => exact (ite_self _).symm
    | some row =>
      have hid : row.1 = id := (Table.find?_eq_some.1 hhist).2
      rw [Option.filter_some, hid]
      split_ifs <;> rfl
  · have hkept := Table.retain_eq_self (Nat.eq_zero_of_not_pos hremoved)
    rw [if_neg hremoved, hkept, h.isSome]
    split_ifs with hslot
    · rfl
    · have hsamples := h.history id
      rw [Option.not_isSome_iff_eq_none.1 hslot] at hsamples
      exact hsamples

/-- Peers and slots are removed alike. -/
theorem filter_age (h : Refines registry slots) (now : UInt64) (id : String) :
    ((registry.peers.find? id).filter fun peer => age now peer.lastSeen ≤ pruneThresholdSecs).map
        PeerState.bare =
      ((slots id).filter fun s => age now s.seen ≤ pruneThresholdSecs).map
        fun s => s.announce.state s.seen := by
  cases hpeer : registry.peers.find? id with
  | none =>
    have hslot := h.isSome id
    rw [hpeer] at hslot
    rw [Option.isSome_eq_false_iff.1 hslot.symm |> Option.isNone_iff_eq_none.1]
    rfl
  | some peer =>
    obtain ⟨s, hs, hstate⟩ := h.find? hpeer
    rw [hs, Option.filter_some, Option.filter_some, lastSeen_eq hstate]
    split_ifs
    · exact congrArg some hstate
    · rfl

theorem Refines.pruneStale (h : Refines registry slots) (now : UInt64) :
    Refines (registry.pruneStale now).2 fun id =>
      (slots id).filter fun s => age now s.seen ≤ pruneThresholdSecs where
  peers id := by
    rw [← filter_age h, ← Table.find?_retain]
    rfl
  history id := by
    have hpeers := congrArg Option.isSome (filter_age h now id)
    rw [Option.isSome_map, Option.isSome_map, ← Table.find?_retain] at hpeers
    rw [samples_pruneStale h, h.history]
    show (if (Table.find? (registry.peers.retain _) id).isSome then _ else _) = _
    rw [hpeers]
    cases slots id with
    | none => rfl
    | some s =>
      rw [Option.filter_some]
      split_ifs <;> simp_all
  unsampled id peer hpeer hnone := by
    rw [samples_pruneStale h, hpeer, Option.isSome_some, if_pos rfl] at hnone
    have hold : (registry.peers.retain _).find? id = some peer := hpeer
    rw [Table.find?_retain, Option.filter_eq_some_iff] at hold
    exact h.unsampled id peer hold.1 hnone

/-- **A call does to the two tables** what it does to the slots. -/
theorem Refines.step (h : Refines registry slots) (visits : Visits F) (x : UInt64 × Call F) :
    Refines (registry.step visits x) fun id => Slot.step id (slots id) x := by
  obtain ⟨now, call⟩ := x
  cases call with
  | update announce =>
    by_cases hmsg : announce.msgType = "peer_announce"
    · exact h.update now hmsg
    · have hsame : registry.update now announce = registry := if_pos hmsg
      have hslots : (fun id => Slot.step id (slots id) (now, .update announce)) = slots := by
        funext id
        have hother : (Call.update announce).announceOf? id = none := if_neg fun hann => hmsg hann.1
        simp only [Slot.step, hother]
      rw [hslots]
      show Refines (registry.update now announce) slots
      rwa [hsame]
  | snapshot => exact h.snapshot visits now
  | pruneStale => exact h.pruneStale now

/-- After any log the two tables are its slots. -/
theorem refines_after (visits : Visits F) (log : Log F) : Refines (after visits log) (slot log) := by
  induction log using List.reverseRecOn with
  | nil => exact Refines.new
  | append_singleton log x ih =>
    have hslots : slot (log ++ [x]) = fun id => Slot.step id (slot log id) x :=
      funext fun id => slot_concat log id x
    rw [hslots, after, List.foldl_append]
    exact ih.step visits x

/-! ### Edges -/

theorem pair_eq_iff {a b c d : String} : pair a b = (c, d) ↔ c ≤ d ∧ (a = c ∧ b = d ∨ a = d ∧ b = c) := by
  unfold pair
  split_ifs with h
  · rw [Prod.mk.injEq]
    constructor
    · rintro ⟨rfl, rfl⟩
      exact ⟨h.le, .inl ⟨rfl, rfl⟩⟩
    · rintro ⟨hle, ⟨rfl, rfl⟩ | ⟨rfl, rfl⟩⟩
      · exact ⟨rfl, rfl⟩
      · exact absurd hle (not_le.2 h)
  · rw [Prod.mk.injEq]
    constructor
    · rintro ⟨rfl, rfl⟩
      exact ⟨not_lt.1 h, .inr ⟨rfl, rfl⟩⟩
    · rintro ⟨hle, ⟨rfl, rfl⟩ | ⟨rfl, rfl⟩⟩
      · exact ⟨hle.antisymm' (not_lt.1 h), hle.antisymm (not_lt.1 h)⟩
      · exact ⟨rfl, rfl⟩

/-- A peer lists a node. -/
def Lists (peers : List (PeerState F)) (a b : String) : Prop :=
  ∃ peer ∈ peers, peer.nodeId = a ∧ b ∈ peer.neighbors

theorem mem_edgeSet {peers : List (PeerState F)} {a b : String} :
    (a, b) ∈ edgeSet peers ↔ a ≤ b ∧ (Lists peers a b ∨ Lists peers b a) := by
  simp only [edgeSet, List.mem_toFinset, List.mem_flatMap, List.mem_map, pair_eq_iff]
  constructor
  · rintro ⟨peer, hpeer, c, hc, hle, ⟨rfl, rfl⟩ | ⟨rfl, rfl⟩⟩
    · exact ⟨hle, .inl ⟨peer, hpeer, rfl, hc⟩⟩
    · exact ⟨hle, .inr ⟨peer, hpeer, rfl, hc⟩⟩
  · rintro ⟨hle, ⟨peer, hpeer, rfl, hb⟩ | ⟨peer, hpeer, rfl, ha⟩⟩
    · exact ⟨peer, hpeer, b, hb, hle, .inl ⟨rfl, rfl⟩⟩
    · exact ⟨peer, hpeer, a, ha, hle, .inr ⟨rfl, rfl⟩⟩

variable {visits : Visits F} {now : UInt64}

theorem mem_edges {a b : String} :
    (⟨a, b⟩ : TopologyEdge) ∈ (registry.snapshot visits now).1.edges ↔
      a ≤ b ∧ (Lists (registry.snapshot visits now).1.peers a b ∨
        Lists (registry.snapshot visits now).1.peers b a) := by
  rw [← mem_edgeSet, ← visits.mem_edges]
  refine List.mem_map.trans ?_
  constructor
  · rintro ⟨e, he, heq⟩
    cases heq
    exact (List.mergeSort_perm _ _).mem_iff.1 he
  · intro h
    exact ⟨(a, b), (List.mergeSort_perm _ _).mem_iff.2 h, rfl⟩

/-- The edges come in increasing order. -/
theorem pairwise_edges : (registry.snapshot visits now).1.edges.Pairwise fun e f =>
    toLex (e.source, e.target) < toLex (f.source, f.target) := by
  refine List.pairwise_map.2 ?_
  generalize edgeSet _ = set
  have hsorted : ((visits.edges set).mergeSort fun a b => decide (toLex a ≤ toLex b)).Pairwise
      fun a b => decide (toLex a ≤ toLex b) := by
    apply List.pairwise_mergeSort
    · intro a b c hab hbc
      exact decide_eq_true ((of_decide_eq_true hab).trans (of_decide_eq_true hbc))
    · intro a b
      simpa using le_total (toLex a) (toLex b)
  have hnodup : ((visits.edges set).mergeSort fun a b => decide (toLex a ≤ toLex b)).Nodup :=
    (List.mergeSort_perm _ _).nodup_iff.2 (visits.nodup_edges set)
  refine (hsorted.and hnodup).imp fun ⟨hle, hne⟩ => ?_
  exact lt_of_le_of_ne (of_decide_eq_true hle) hne

/-! ### Snapshots -/

theorem mem_peers : peer ∈ (registry.snapshot visits now).1.peers ↔
    ∃ old, registry.peers.find? peer.nodeId = some old ∧
      peer = (old.mark now).populate registry.history := by
  have hperm : (registry.snapshot visits now).1.peers.Perm
      (registry.snapshot visits now).2.peers.rows :=
    (List.mergeSort_perm _ _).trans (visits.perm_peers _)
  rw [hperm.mem_iff]
  have hfind : (registry.snapshot visits now).2.peers.find? peer.nodeId = some peer ↔ _ :=
    Table.find?_eq_some
  rw [← and_iff_left_iff_imp.2 fun _ : peer ∈ _ => (rfl : peer.nodeId = peer.nodeId), ← hfind,
    find?_snapshot, Option.map_eq_some_iff]
  simp only [eq_comm]

theorem nodup_peers : ((registry.snapshot visits now).1.peers.map PeerState.nodeId).Nodup :=
  (((List.mergeSort_perm _ _).trans (visits.perm_peers _)).map _).nodup_iff.2
    (registry.snapshot visits now).2.peers.nodup

/-- What a snapshot shows of an announce and the samples. -/
def PeerAnnounce.shown (announce : PeerAnnounce F) (seen now : UInt64)
    (samples : List (MetricSample F)) : PeerState F :=
  { announce.state seen with
    stale := age now seen > staleThresholdSecs
    history := samples.rtake maxHistorySamples }

theorem Refines.shown (h : Refines registry slots) (hpeer : registry.peers.find? id = some peer)
    (hslot : slots id = some s) : (peer.mark now).populate registry.history =
      s.announce.shown s.seen now s.samples := by
  obtain ⟨s', hs', hstate⟩ := h.find? hpeer
  obtain rfl := Option.some.inj (hslot.symm.trans hs')
  have hhistory := h.history_show hpeer now
  rw [hslot, Option.elim_some] at hhistory
  have hstale := stale_show now registry peer
  rw [lastSeen_eq hstate] at hstale
  rw [← bare_show now registry] at hstate
  rw [PeerAnnounce.shown, ← hstate, ← hhistory, ← hstale]
  rfl

/-- A peer in terms of its slot. -/
theorem Refines.mem_peers (h : Refines registry slots) :
    peer ∈ (registry.snapshot visits now).1.peers ↔ ∃ s, slots peer.nodeId = some s ∧
      peer = s.announce.shown s.seen now s.samples := by
  rw [Swarm.mem_peers]
  constructor
  · rintro ⟨old, hold, heq⟩
    obtain ⟨s, hs, -⟩ := h.find? hold
    exact ⟨s, hs, heq.trans (h.shown hold hs)⟩
  · rintro ⟨s, hs, heq⟩
    have hsome := h.isSome peer.nodeId
    rw [hs, Option.isSome_some, Option.isSome_iff_exists] at hsome
    obtain ⟨old, hold⟩ := hsome
    exact ⟨old, hold, heq.trans (h.shown hold hs).symm⟩

/-- Samples are kept of peers only. -/
theorem Refines.mem_history (h : Refines registry slots) (hid : id ∈ registry.history.rows.map Prod.fst) :
    id ∈ registry.peers.rows.map PeerState.nodeId := by
  by_contra hpeer
  have hslot := h.isSome id
  rw [Table.find?_eq_none.2 hpeer, Option.isSome_none, eq_comm, Option.isSome_eq_false_iff,
    Option.isNone_iff_eq_none] at hslot
  have hsamples := h.history id
  rw [hslot, Registry.samples, Option.filter_none, Option.map_none, Option.map_eq_none_iff] at hsamples
  exact Table.find?_eq_none.1 hsamples hid

/-- **The registry and the log**: after any calls at any times a snapshot has one entry for each node
whose latest announce no prune has removed since, and shows that announce, its age, and the last
samples since the node was last entered anew; the counts are right, samples are kept of peers only,
and the edges are the pairs of nodes one of which is a peer that lists the other, once each and in
order. -/
theorem registry_refines (visits : Visits F) (log : Log F) (now : UInt64) :
    let registry := after visits log
    let snapshot := (registry.snapshot visits now).1
    (snapshot.peers.map PeerState.nodeId).Nodup ∧
    (∀ id, id ∈ snapshot.peers.map PeerState.nodeId ↔ ∃ seen announce, Present log id seen announce) ∧
    (∀ peer ∈ snapshot.peers, ∃ seen announce since, Present log peer.nodeId seen announce ∧
      Since log peer.nodeId since ∧
      peer = announce.shown seen now (samplesOf peer.nodeId since)) ∧
    (snapshot.totalPeers = snapshot.peers.length ∧
      snapshot.stalePeers = (snapshot.peers.filter PeerState.stale).length ∧
      snapshot.totalPeers = snapshot.activePeers + snapshot.stalePeers) ∧
    (∀ id ∈ registry.history.rows.map Prod.fst, id ∈ registry.peers.rows.map PeerState.nodeId) ∧
    (∀ a b, (⟨a, b⟩ : TopologyEdge) ∈ snapshot.edges ↔
      a ≤ b ∧ (Lists snapshot.peers a b ∨ Lists snapshot.peers b a)) ∧
    snapshot.edges.Pairwise fun e f => toLex (e.source, e.target) < toLex (f.source, f.target) := by
  intro registry snapshot
  have hrefines : Refines registry (slot log) := refines_after visits log
  refine ⟨nodup_peers, fun id => ?_, fun peer hpeer => ?_, ⟨rfl, rfl, ?_⟩,
    fun id => hrefines.mem_history, fun a b => mem_edges, pairwise_edges⟩
  · rw [present_iff_isSome, List.mem_map]
    constructor
    · rintro ⟨peer, hpeer, rfl⟩
      obtain ⟨s, hs, -⟩ := hrefines.mem_peers.1 hpeer
      rw [hs, Option.isSome_some]
    · intro hsome
      obtain ⟨s, hs⟩ := Option.isSome_iff_exists.1 hsome
      have hid : (s.announce.shown s.seen now s.samples).nodeId = id := nodeId_slot hs
      exact ⟨s.announce.shown s.seen now s.samples, hrefines.mem_peers.2 ⟨s, by rwa [hid], rfl⟩, hid⟩
  · obtain ⟨s, hs, heq⟩ := hrefines.mem_peers.1 hpeer
    obtain ⟨since, hsince, hsamples⟩ := slot_samples hs
    exact ⟨s.seen, s.announce, since, slot_eq_some.1 ⟨s, hs, rfl, rfl⟩, hsince, hsamples ▸ heq⟩
  · exact (Nat.sub_add_cancel (List.length_filter_le _ _)).symm

end PodpingAlpha.Monitor.Swarm
