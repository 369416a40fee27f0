import PodpingAlpha.Library.Transition
import PodpingAlpha.Monitor.PoorlyConnected
import PodpingAlpha.Monitor.Swarm

/-!
# The topology task

The task of `gossip-monitor/src/main.rs` that takes a snapshot of the registry every 60 seconds, analyses
it and broadcasts what the analysis suggests, no more than once in 300 seconds to any node, and the
`SuggestionLog` of `gossip-monitor/src/swarm.rs`.

## The model

A step is a call of another task to the registry, the start of an iteration, one suggestion of it, or the
passing of time; while a suggestion is broadcast the registry may change. An `Instant` is a number of
nanoseconds. Whether a broadcast succeeds is in the label: an error and a timeout do the same.

The calls to the registry and the attempts to broadcast are recorded; the task does not read the record.

## What is proved

* `suggestions_limited` — in every run, a node is sent no suggestion within 300 seconds of one that was
  broadcast to it, and every other suggestion of an analysis is attempted.
* `suggestions_accounted` — in every run, each attempt is a signed suggestion for a node that had announced
  itself within 600 seconds, of nodes of which the same holds, and the log holds the last 200 that
  succeeded.
-/

namespace PodpingAlpha.Monitor.TopologyTask

open Swarm (Registry Present)
open Transition
open Writer (SigningKey)

universe u

/-! ### The suggestion log -/

/-- A `SuggestionLogEntry`. -/
structure SuggestionLogEntry where
  /-- When the suggestion was built, in seconds. -/
  timestamp : UInt64
  /-- Whom it is for. -/
  targetNodeId : String
  /-- The name of that node. -/
  targetName : Option String
  /-- The peers to join. -/
  suggestedPeers : List String
  /-- Why. -/
  reason : String
  deriving DecidableEq

/-- `MAX_SUGGESTION_LOG`. -/
def maxSuggestionLog : ℕ := 200

/-- `SuggestionLog::push`. -/
def push (entries : List SuggestionLogEntry) (entry : SuggestionLogEntry) : List SuggestionLogEntry :=
  let entries := entries ++ [entry]
  if entries.length > maxSuggestionLog then entries.tail else entries

theorem push_rtake (entries : List SuggestionLogEntry) (entry : SuggestionLogEntry) :
    push (entries.rtake maxSuggestionLog) entry = (entries ++ [entry]).rtake maxSuggestionLog :=
  (Deque.rtake_concat 199 entries entry).symm

/-! ### The task -/

variable {C : Type} {F : Type u}

/-- A snapshot of the registry as the analysis reads it. -/
def toTopology (snapshot : Swarm.SwarmSnapshot C) : SwarmSnapshot :=
  ⟨snapshot.peers.map fun p => ⟨p.nodeId, p.stale, p.neighbors⟩⟩

/-- The snapshot that an iteration starts from. -/
structure Round (C : Type) where
  /-- The calls to the registry before it. -/
  calls : Swarm.Log C
  /-- What the clock said, in seconds. -/
  now : UInt64

/-- An attempt to broadcast a suggestion. -/
structure Attempt (C : Type) where
  /-- The instant at which its iteration started. -/
  instant : ℕ
  /-- The snapshot of the iteration. -/
  round : Round C
  /-- The message. -/
  message : PeerSuggest
  /-- The entry in the suggestion log, if it succeeded. -/
  entry : Option SuggestionLogEntry

/-- The task and what it works on. -/
structure Task (C : Type) (F : Type u) where
  /-- `PeerRegistry`. -/
  registry : Registry C
  /-- `topology_analysis`. -/
  topologyAnalysis : Option (TopologyAnalysis F)
  /-- `broadcast_failures`. -/
  broadcastFailures : UInt64
  /-- `suggestion_log`. -/
  suggestionLog : List SuggestionLogEntry
  /-- `last_suggest`. -/
  lastSuggest : String → Option ℕ
  /-- `Instant::now()`, in nanoseconds. -/
  clock : ℕ
  /-- `now_instant`. -/
  nowInstant : ℕ
  /-- The suggestions that the iteration has not come to. -/
  todo : List (ScoredSuggestion F)
  /-- The calls to the registry. -/
  calls : Swarm.Log C
  /-- The snapshot of the iteration. -/
  round : Round C
  /-- The attempts, oldest first. -/
  attempts : List (Attempt C)

/-- What happens next. -/
inductive Label (C : Type) where
  /-- Another task calls the registry. -/
  | call (visits : Swarm.Visits C) (now : UInt64) (call : Swarm.Call C)
  /-- Another task sets `broadcast_failures`. -/
  | store (failures : UInt64)
  /-- Time passes. -/
  | wait (nanos : ℕ)
  /-- An iteration starts: a snapshot, and the analysis. -/
  | analyze (visits : Swarm.Visits C) (now : UInt64) (order : Visits) (timestamp : UInt64)
  /-- The next suggestion, with its timestamp, the result of the broadcast and the snapshot after it. -/
  | suggest (timestamp : UInt64) (sent : Bool) (visits : Swarm.Visits C) (now : UInt64)

/-- What the registry does at a call, which is recorded. -/
def Task.called (s : Task C F) (visits : Swarm.Visits C) (now : UInt64) (call : Swarm.Call C) :
    Task C F :=
  { s with registry := s.registry.step visits (now, call), calls := s.calls ++ [(now, call)] }

/-- `Instant::duration_since`, and `as_secs` of what it returns. -/
def secsSince (now earlier : ℕ) : ℕ := (now - earlier) / 1000000000

/-- The rate limit. -/
def Task.limited (s : Task C F) (targetNodeId : String) : Bool :=
  (s.lastSuggest targetNodeId).any fun last => secsSince s.nowInstant last < 300

/-- The name of a node in a snapshot. -/
def targetName (snapshot : Swarm.SwarmSnapshot C) (targetNodeId : String) : Option String :=
  (snapshot.peers.find? fun p => p.nodeId = targetNodeId).bind Swarm.PeerState.friendlyName

/-- The attempt to broadcast a suggestion. -/
def Task.attempt (signingKey : SigningKey) (s : Task C F) (suggestion : PeerSuggestion)
    (timestamp : UInt64) (entry : Option SuggestionLogEntry) : Attempt C where
  instant := s.nowInstant
  round := s.round
  message := .build signingKey timestamp suggestion
  entry := entry

/-- A suggestion was broadcast. -/
def Task.succeeded (signingKey : SigningKey) (s : Task C F) (suggestion : PeerSuggestion)
    (timestamp : UInt64) (visits : Swarm.Visits C) (now : UInt64) : Task C F :=
  let entry : SuggestionLogEntry :=
    { timestamp := timestamp
      targetNodeId := suggestion.targetNodeId
      targetName := targetName (s.registry.snapshot visits now).1 suggestion.targetNodeId
      suggestedPeers := suggestion.suggestedPeers
      reason := suggestion.reason }
  { s.called visits now .snapshot with
    broadcastFailures := 0
    suggestionLog := push s.suggestionLog entry
    lastSuggest := Function.update s.lastSuggest suggestion.targetNodeId (some s.nowInstant)
    attempts := s.attempts ++ [s.attempt signingKey suggestion timestamp (some entry)] }

/-- It was not. -/
def Task.failed (signingKey : SigningKey) (s : Task C F) (suggestion : PeerSuggestion)
    (timestamp : UInt64) : Task C F :=
  { s with
    broadcastFailures := s.broadcastFailures + 1
    attempts := s.attempts ++ [s.attempt signingKey suggestion timestamp none] }

/-- The task when it starts. -/
def Task.start : Task C F where
  registry := .new
  topologyAnalysis := none
  broadcastFailures := 0
  suggestionLog := []
  lastSuggest := fun _ => none
  clock := 0
  nowInstant := 0
  todo := []
  calls := []
  round := ⟨[], 0⟩
  attempts := []

section Step

variable [Add F] [Sub F] [Mul F] [Div F] [NatCast F] [OfScientific F] [LT F] [DecidableLT F]

/-- The start of an iteration. -/
def Task.analyzed (s : Task C F) (visits : Swarm.Visits C) (now : UInt64) (order : Visits)
    (timestamp : UInt64) : Task C F :=
  let analysis := analyzeTopology order (toTopology (s.registry.snapshot visits now).1) timestamp
  { s.called visits now .snapshot with
    topologyAnalysis := some analysis
    nowInstant := s.clock
    todo := analysis.suggestions
    round := ⟨s.calls, now⟩ }

/-- One step; `none` where the label is not enabled. -/
def step (signingKey : SigningKey) (s : Task C F) : Label C → Option (Task C F)
  | .call visits now call => some (s.called visits now call)
  | .store failures => some { s with broadcastFailures := failures }
  | .wait nanos => some { s with clock := s.clock + nanos }
  | .analyze visits now order timestamp =>
    match s.todo with
    | [] => some (s.analyzed visits now order timestamp)
    | _ :: _ => none
  | .suggest timestamp sent visits now =>
    match s.todo with
    | [] => none
    | suggestion :: rest =>
      let s := { s with todo := rest }
      if s.limited suggestion.targetNodeId then some s
      else if sent then some (s.succeeded signingKey suggestion.toPeerSuggestion timestamp visits now)
      else some (s.failed signingKey suggestion.toPeerSuggestion timestamp)

end Step

/-! ### What an attempt says -/

/-- A node had announced itself within 600 seconds of a snapshot, and no prune had removed it. -/
def Round.Active (round : Round C) (id : String) : Prop :=
  ∃ seen announce, Present round.calls id seen announce ∧
    Swarm.age round.now seen ≤ Swarm.staleThresholdSecs

/-- In its latest announce a node lists another. -/
def Round.Lists (round : Round C) (a b : String) : Prop :=
  ∃ seen announce, Present round.calls a seen announce ∧ b ∈ announce.neighbors.getD []

/-- A suggestion that the snapshot justifies. -/
structure Round.Justifies (round : Round C) (suggestion : PeerSuggestion) : Prop where
  /-- It is for an active node. -/
  target : round.Active suggestion.targetNodeId
  /-- It names at most three peers, -/
  length : suggestion.suggestedPeers.length ≤ 3
  /-- none of them twice, -/
  nodup : suggestion.suggestedPeers.Nodup
  /-- each of them another active node, where neither of the two lists the other. -/
  peers : ∀ peer ∈ suggestion.suggestedPeers, peer ≠ suggestion.targetNodeId ∧ round.Active peer ∧
    ¬round.Lists suggestion.targetNodeId peer ∧ ¬round.Lists peer suggestion.targetNodeId

/-- An attempt is the signed message of a suggestion that a snapshot in the run justifies, and so is
what is logged of it. -/
def Attempt.Accounted (signingKey : SigningKey) (calls : Swarm.Log C) (a : Attempt C) : Prop :=
  a.round.calls <+: calls ∧ ∃ suggestion timestamp, a.round.Justifies suggestion ∧
    a.message = .build signingKey timestamp suggestion ∧
    ∀ entry ∈ a.entry, entry.timestamp = timestamp ∧ entry.targetNodeId = suggestion.targetNodeId ∧
      entry.suggestedPeers = suggestion.suggestedPeers ∧ entry.reason = suggestion.reason

/-- The second attempt is not within 300 seconds of the first, if that succeeded. -/
def Spaced (a b : Attempt C) : Prop :=
  a.entry.isSome → a.message.targetNodeId = b.message.targetNodeId →
    300 ≤ secsSince b.instant a.instant

/-- Nothing was broadcast to the node in the last 300 seconds. -/
def Task.Due (s : Task C F) (targetNodeId : String) : Prop :=
  ∀ a ∈ s.attempts, a.entry.isSome → a.message.targetNodeId = targetNodeId →
    300 ≤ secsSince s.nowInstant a.instant

/-! ### The snapshot -/

section Snapshot

variable {registry : Registry C} {round : Round C} {visits : Swarm.Visits C} {x y : String}

/-- The active peers of a snapshot are those of the log. -/
theorem exists_active_iff (h : Swarm.Refines registry (Swarm.slot round.calls))
    {P : List String → Prop} :
    (∃ p ∈ (toTopology (registry.snapshot visits round.now).1).active, p.nodeId = x ∧ P p.neighbors) ↔
      ∃ seen announce, Present round.calls x seen announce ∧
        Swarm.age round.now seen ≤ Swarm.staleThresholdSecs ∧ P (announce.neighbors.getD []) := by
  constructor
  · rintro ⟨p, hp, rfl, hP⟩
    obtain ⟨hmem, hstale⟩ := SwarmSnapshot.mem_active.1 hp
    obtain ⟨peer, hpeer, rfl⟩ := List.mem_map.1 hmem
    obtain ⟨slot, hslot, hshown⟩ := h.mem_peers.1 hpeer
    refine ⟨slot.seen, slot.announce, Swarm.slot_eq_some.1 ⟨slot, hslot, rfl, rfl⟩, ?_, ?_⟩
    · rw [hshown] at hstale
      simpa [Swarm.PeerAnnounce.shown] using hstale
    · rw [hshown] at hP
      exact hP
  · rintro ⟨seen, announce, hpresent, hage, hP⟩
    obtain ⟨slot, hslot, rfl, rfl⟩ := Swarm.slot_eq_some.2 hpresent
    have hid : slot.announce.nodeId = x := Swarm.nodeId_slot hslot
    let peer := slot.announce.shown slot.seen round.now slot.samples
    have hpeer : peer ∈ (registry.snapshot visits round.now).1.peers :=
      h.mem_peers.2 ⟨slot, by rwa [show peer.nodeId = x from hid], rfl⟩
    refine ⟨⟨peer.nodeId, peer.stale, peer.neighbors⟩, SwarmSnapshot.mem_active.2 ⟨?_, ?_⟩, hid, hP⟩
    · exact List.mem_map.2 ⟨peer, hpeer, rfl⟩
    · simpa [peer, Swarm.PeerAnnounce.shown] using hage

theorem mem_activeIds_iff (h : Swarm.Refines registry (Swarm.slot round.calls)) :
    x ∈ (toTopology (registry.snapshot visits round.now).1).activeIds ↔ round.Active x := by
  have hiff : (∃ p ∈ (toTopology (registry.snapshot visits round.now).1).active, p.nodeId = x ∧ True) ↔ _ :=
    exists_active_iff h (P := fun _ => True)
  simp only [and_true] at hiff
  rw [SwarmSnapshot.activeIds, List.mem_toFinset, List.mem_map, hiff]
  rfl

/-- An active node that lists another reports it. -/
theorem reports_of_lists (h : Swarm.Refines registry (Swarm.slot round.calls)) (hx : round.Active x)
    (hlists : round.Lists x y) :
    (toTopology (registry.snapshot visits round.now).1).Reports x y := by
  obtain ⟨seen, announce, hpresent, hage⟩ := hx
  obtain ⟨seen', announce', hpresent', hy⟩ := hlists
  obtain ⟨slot, hslot, rfl, rfl⟩ := Swarm.slot_eq_some.2 hpresent
  obtain ⟨slot', hslot', rfl, rfl⟩ := Swarm.slot_eq_some.2 hpresent'
  obtain rfl := Option.some.inj (hslot.symm.trans hslot')
  exact (exists_active_iff h (P := fun neighbors => y ∈ neighbors)).2
    ⟨slot.seen, slot.announce, hpresent, hage, hy⟩

/-- A node that reports another is active, and lists it. -/
theorem lists_of_reports (h : Swarm.Refines registry (Swarm.slot round.calls))
    (hreports : (toTopology (registry.snapshot visits round.now).1).Reports x y) :
    round.Lists x y := by
  obtain ⟨seen, announce, hpresent, -, hy⟩ :=
    (exists_active_iff h (P := fun neighbors => y ∈ neighbors)).1 hreports
  exact ⟨seen, announce, hpresent, hy⟩

end Snapshot

/-! ### The invariant -/

/-- What holds in every run. -/
structure Inv (signingKey : SigningKey) (s : Task C F) : Prop where
  /-- The registry is that of the calls. -/
  refines : Swarm.Refines s.registry (Swarm.slot s.calls)
  /-- The snapshot of the iteration was taken in the run, -/
  round : s.round.calls <+: s.calls
  /-- and justifies what is left of it. -/
  todo : ∀ suggestion ∈ s.todo, s.round.Justifies suggestion.toPeerSuggestion
  /-- So were the snapshots of the attempts. -/
  attempts : ∀ a ∈ s.attempts, a.Accounted signingKey s.calls
  /-- The log holds the last entries. -/
  log : s.suggestionLog = (s.attempts.filterMap Attempt.entry).rtake maxSuggestionLog
  /-- `last_suggest` has the iterations of attempts that succeeded, -/
  last : ∀ target last, s.lastSuggest target = some last →
    ∃ a ∈ s.attempts, a.entry.isSome ∧ a.message.targetNodeId = target ∧ a.instant = last
  /-- and of each node the latest. -/
  latest : ∀ a ∈ s.attempts, a.entry.isSome →
    ∃ last, s.lastSuggest a.message.targetNodeId = some last ∧ a.instant ≤ last
  /-- The clock goes forward. -/
  instant : ∀ a ∈ s.attempts, a.instant ≤ s.nowInstant
  /-- The iteration started in the past. -/
  nowInstant : s.nowInstant ≤ s.clock
  /-- The attempts are apart. -/
  spaced : s.attempts.Pairwise Spaced

variable {signingKey : SigningKey} {s t : Task C F}

theorem inv_start : Inv signingKey (.start : Task C F) where
  refines := Swarm.Refines.new
  round := List.prefix_refl _
  todo := nofun
  attempts := nofun
  log := (List.rtake_nil (α := SuggestionLogEntry) _).symm
  last := nofun
  latest := nofun
  instant := nofun
  nowInstant := le_rfl
  spaced := List.Pairwise.nil

theorem Attempt.Accounted.mono {calls later : Swarm.Log C} {a : Attempt C}
    (h : a.Accounted signingKey calls) (hle : calls <+: later) : a.Accounted signingKey later :=
  ⟨h.1.trans hle, h.2⟩

/-- A call to the registry. -/
theorem Inv.called (h : Inv signingKey s) (visits : Swarm.Visits C) (now : UInt64)
    (call : Swarm.Call C) : Inv signingKey (s.called visits now call) :=
  { h with
    refines := by
      have hslots : Swarm.slot (s.calls ++ [(now, call)]) =
          fun id => Swarm.Slot.step id (Swarm.slot s.calls id) (now, call) :=
        funext fun id => Swarm.slot_concat s.calls id (now, call)
      show Swarm.Refines _ (Swarm.slot (s.calls ++ [(now, call)]))
      rw [hslots]
      exact h.refines.step visits (now, call)
    round := h.round.trans (List.prefix_append _ _)
    attempts := fun a ha => (h.attempts a ha).mono (List.prefix_append _ _) }

/-- **The rate limit**, in terms of what was broadcast. -/
theorem Inv.limited_iff (h : Inv signingKey s) (target : String) :
    s.limited target = false ↔ s.Due target := by
  unfold Task.limited
  constructor
  · intro hlimited a ha hsome htarget
    obtain ⟨last, hlast, hle⟩ := h.latest a ha hsome
    rw [htarget] at hlast
    rw [hlast, Option.any_some, decide_eq_false_iff_not, not_lt] at hlimited
    exact hlimited.trans (Nat.div_le_div_right (Nat.sub_le_sub_left hle _))
  · intro hdue
    cases hlast : s.lastSuggest target with
    | none => rfl
    | some last =>
      obtain ⟨a, ha, hsome, htarget, rfl⟩ := h.last target last hlast
      rw [Option.any_some, decide_eq_false_iff_not, not_lt]
      exact hdue a ha hsome htarget

/-- An attempt that is due. -/
theorem Inv.attempt (h : Inv signingKey s) {suggestion : PeerSuggestion}
    (hdue : s.Due suggestion.targetNodeId) (hjustified : s.round.Justifies suggestion)
    (timestamp : UInt64) (entry : Option SuggestionLogEntry)
    (hentry : ∀ e ∈ entry, e.timestamp = timestamp ∧ e.targetNodeId = suggestion.targetNodeId ∧
      e.suggestedPeers = suggestion.suggestedPeers ∧ e.reason = suggestion.reason) :
    (∀ a ∈ s.attempts ++ [s.attempt signingKey suggestion timestamp entry],
      a.Accounted signingKey s.calls ∧ a.instant ≤ s.nowInstant) ∧
    (s.attempts ++ [s.attempt signingKey suggestion timestamp entry]).Pairwise Spaced := by
  constructor
  · intro a ha
    rcases List.mem_append.1 ha with ha | ha
    · exact ⟨h.attempts a ha, h.instant a ha⟩
    · obtain rfl := List.mem_singleton.1 ha
      exact ⟨⟨h.round, suggestion, timestamp, hjustified, rfl, hentry⟩, le_rfl⟩
  · refine List.pairwise_append.2 ⟨h.spaced, List.pairwise_singleton _ _, fun a ha b hb => ?_⟩
    obtain rfl := List.mem_singleton.1 hb
    exact fun hsome htarget => hdue a ha hsome htarget

theorem Inv.failed (h : Inv signingKey s) {suggestion : PeerSuggestion}
    (hdue : s.Due suggestion.targetNodeId) (hjustified : s.round.Justifies suggestion)
    (timestamp : UInt64) : Inv signingKey (s.failed signingKey suggestion timestamp) := by
  obtain ⟨hattempts, hspaced⟩ := h.attempt hdue hjustified timestamp none nofun
  exact
    { h with
      attempts := fun a ha => (hattempts a ha).1
      log := by
        show s.suggestionLog = ((s.attempts ++ [s.attempt signingKey suggestion timestamp none]).filterMap
          Attempt.entry).rtake _
        rw [List.filterMap_append, List.filterMap_cons_none rfl, List.filterMap_nil, List.append_nil]
        exact h.log
      last := fun target last hlast => by
        obtain ⟨a, ha, hrest⟩ := h.last target last hlast
        exact ⟨a, List.mem_append_left _ ha, hrest⟩
      latest := fun a ha hsome => by
        rcases List.mem_append.1 ha with ha | ha
        · exact h.latest a ha hsome
        · obtain rfl := List.mem_singleton.1 ha
          cases hsome
      instant := fun a ha => (hattempts a ha).2
      spaced := hspaced }

theorem Inv.succeeded (h : Inv signingKey s) {suggestion : PeerSuggestion}
    (hdue : s.Due suggestion.targetNodeId) (hjustified : s.round.Justifies suggestion)
    (timestamp : UInt64) (visits : Swarm.Visits C) (now : UInt64) :
    Inv signingKey (s.succeeded signingKey suggestion timestamp visits now) := by
  let entry : SuggestionLogEntry :=
    ⟨timestamp, suggestion.targetNodeId,
      targetName (s.registry.snapshot visits now).1 suggestion.targetNodeId, suggestion.suggestedPeers,
      suggestion.reason⟩
  obtain ⟨hattempts, hspaced⟩ := h.attempt hdue hjustified timestamp (some entry)
    (by rintro _ ⟨⟩; exact ⟨rfl, rfl, rfl, rfl⟩)
  exact
    { h.called visits now .snapshot with
      attempts := fun a ha => (hattempts a ha).1.mono (List.prefix_append _ _)
      log := by
        show push s.suggestionLog _ = ((s.attempts ++ [_]).filterMap Attempt.entry).rtake _
        rw [List.filterMap_append, h.log, push_rtake]
        rfl
      last := fun target last hlast => by
        change Function.update s.lastSuggest suggestion.targetNodeId (some s.nowInstant) target =
          some last at hlast
        by_cases htarget : target = suggestion.targetNodeId
        · subst htarget
          rw [Function.update_self] at hlast
          exact ⟨_, List.mem_append_right _ (List.mem_singleton_self _), rfl, rfl, Option.some.inj hlast⟩
        · rw [Function.update_of_ne htarget] at hlast
          obtain ⟨a, ha, hrest⟩ := h.last target last hlast
          exact ⟨a, List.mem_append_left _ ha, hrest⟩
      latest := fun a ha hsome => by
        show ∃ last, Function.update s.lastSuggest suggestion.targetNodeId (some s.nowInstant)
          a.message.targetNodeId = some last ∧ a.instant ≤ last
        by_cases htarget : a.message.targetNodeId = suggestion.targetNodeId
        · rw [htarget, Function.update_self]
          exact ⟨_, rfl, (hattempts a ha).2⟩
        · rw [Function.update_of_ne htarget]
          rcases List.mem_append.1 ha with ha | ha
          · exact h.latest a ha hsome
          · obtain rfl := List.mem_singleton.1 ha
            exact absurd rfl htarget
      instant := fun a ha => (hattempts a ha).2
      spaced := hspaced }

/-- What is left of an iteration. -/
theorem Inv.rest (h : Inv signingKey s) {suggestion : ScoredSuggestion F}
    {rest : List (ScoredSuggestion F)} (htodo : s.todo = suggestion :: rest) :
    Inv signingKey { s with todo := rest } ∧ s.round.Justifies suggestion.toPeerSuggestion :=
  ⟨{ h with todo := fun g hg => h.todo g (by rw [htodo]; exact List.mem_cons_of_mem _ hg) },
    h.todo suggestion (by rw [htodo]; exact List.mem_cons_self)⟩

/-! ### Runs -/

section Runs

variable [Add F] [Sub F] [Mul F] [Div F] [NatCast F] [OfScientific F] [LT F] [DecidableLT F]

/-- A step attempts the suggestion it comes to exactly when that is due, and nothing else. -/
def Broadcasts (signingKey : SigningKey) (s : Task C F) (label : Label C) : Prop :=
  ∀ t, step signingKey s label = some t →
    match label, s.todo with
    | .suggest timestamp sent _ _, suggestion :: _ =>
      (s.Due suggestion.targetNodeId → ∃ a, t.attempts = s.attempts ++ [a] ∧
        a.message = .build signingKey timestamp suggestion.toPeerSuggestion ∧ a.entry.isSome = sent) ∧
      (¬s.Due suggestion.targetNodeId → t.attempts = s.attempts)
    | _, _ => t.attempts = s.attempts

/-- The analysis of a snapshot suggests what the snapshot justifies. -/
theorem justifies_of_mem {registry : Registry C} (round : Round C)
    (h : Swarm.Refines registry (Swarm.slot round.calls)) {visits : Swarm.Visits C} {order : Visits}
    {timestamp : UInt64} {suggestion : ScoredSuggestion F}
    (hmem : suggestion ∈ (analyzeTopology order (toTopology (registry.snapshot visits round.now).1)
      timestamp).suggestions) : round.Justifies suggestion.toPeerSuggestion := by
  have hwell := wellFormed_of_mem hmem
  have htarget : round.Active suggestion.targetNodeId := (mem_activeIds_iff h).1 hwell.target
  refine ⟨htarget, hwell.length, hwell.nodup, fun peer hpeer => ?_⟩
  obtain ⟨hactive, hne, hadj⟩ := hwell.peers peer hpeer
  have hpeer' : round.Active peer := (mem_activeIds_iff h).1 hactive
  rw [SwarmSnapshot.mem_adj, and_iff_right hwell.target, and_iff_right hactive, not_or] at hadj
  exact ⟨hne, hpeer', fun hlists => hadj.1 (reports_of_lists h htarget hlists),
    fun hlists => hadj.2 (reports_of_lists h hpeer' hlists)⟩

/-- An iteration starts. -/
theorem Inv.analyzed (h : Inv signingKey s) (visits : Swarm.Visits C) (now : UInt64) (order : Visits)
    (timestamp : UInt64) : Inv signingKey (s.analyzed visits now order timestamp) :=
  { h.called visits now .snapshot with
    round := List.prefix_append _ _
    todo := fun _ hmem => justifies_of_mem ⟨s.calls, now⟩ h.refines hmem
    instant := fun a ha => (h.instant a ha).trans h.nowInstant
    nowInstant := le_rfl }

/-- What a step does. -/
inductive Change (signingKey : SigningKey) (s : Task C F) : Label C → Task C F → Prop where
  /-- The registry is called. -/
  | called {visits : Swarm.Visits C} {now : UInt64} {call : Swarm.Call C} :
      Change signingKey s (.call visits now call) (s.called visits now call)
  /-- The counter is set. -/
  | stored {failures : UInt64} :
      Change signingKey s (.store failures) { s with broadcastFailures := failures }
  /-- Time has passed. -/
  | waited {nanos : ℕ} : Change signingKey s (.wait nanos) { s with clock := s.clock + nanos }
  /-- An iteration starts. -/
  | analyzed {visits : Swarm.Visits C} {now : UInt64} {order : Visits} {timestamp : UInt64} :
      Change signingKey s (.analyze visits now order timestamp) (s.analyzed visits now order timestamp)
  /-- A suggestion is skipped. -/
  | skipped {suggestion : ScoredSuggestion F} {rest : List (ScoredSuggestion F)} {timestamp : UInt64}
      {sent : Bool} {visits : Swarm.Visits C} {now : UInt64} (htodo : s.todo = suggestion :: rest)
      (hlimited : s.limited suggestion.targetNodeId = true) :
      Change signingKey s (.suggest timestamp sent visits now) { s with todo := rest }
  /-- It is broadcast. -/
  | succeeded {suggestion : ScoredSuggestion F} {rest : List (ScoredSuggestion F)} {timestamp : UInt64}
      {visits : Swarm.Visits C} {now : UInt64} (htodo : s.todo = suggestion :: rest)
      (hlimited : s.limited suggestion.targetNodeId = false) :
      Change signingKey s (.suggest timestamp true visits now)
        ({ s with todo := rest }.succeeded signingKey suggestion.toPeerSuggestion timestamp visits now)
  /-- That fails. -/
  | failed {suggestion : ScoredSuggestion F} {rest : List (ScoredSuggestion F)} {timestamp : UInt64}
      {visits : Swarm.Visits C} {now : UInt64} (htodo : s.todo = suggestion :: rest)
      (hlimited : s.limited suggestion.targetNodeId = false) :
      Change signingKey s (.suggest timestamp false visits now)
        ({ s with todo := rest }.failed signingKey suggestion.toPeerSuggestion timestamp)

theorem change_of_step {label : Label C} (h : step signingKey s label = some t) :
    Change signingKey s label t := by
  cases label with
  | call visits now call =>
    cases h
    exact .called
  | store failures =>
    cases h
    exact .stored
  | wait nanos =>
    cases h
    exact .waited
  | analyze visits now order timestamp =>
    simp only [step] at h
    split at h
    · cases h
      exact .analyzed
    · cases h
  | suggest timestamp sent visits now =>
    simp only [step] at h
    split at h
    · cases h
    · rename_i suggestion rest htodo
      split_ifs at h with hlimited hsent
      · cases h
        exact .skipped htodo hlimited
      · cases h
        subst hsent
        exact .succeeded htodo (Bool.eq_false_of_not_eq_true hlimited)
      · cases h
        obtain rfl := Bool.eq_false_of_not_eq_true hsent
        exact .failed htodo (Bool.eq_false_of_not_eq_true hlimited)

theorem analyzed_of_step {visits : Swarm.Visits C} {now : UInt64} {order : Visits} {timestamp : UInt64}
    (h : step signingKey s (.analyze visits now order timestamp) = some t) :
    s.analyzed visits now order timestamp = t := by
  cases change_of_step h
  rfl

/-- One step keeps the invariant. -/
theorem inv_step {label : Label C} (h : Inv signingKey s) (hstep : step signingKey s label = some t) :
    Inv signingKey t := by
  cases change_of_step hstep with
  | called => exact h.called ..
  | stored => exact { h with }
  | waited => exact { h with nowInstant := h.nowInstant.trans (Nat.le_add_right _ _) }
  | analyzed => exact h.analyzed ..
  | skipped htodo => exact (h.rest htodo).1
  | succeeded htodo hlimited =>
    obtain ⟨hrest, hjustified⟩ := h.rest htodo
    exact hrest.succeeded ((hrest.limited_iff _).1 hlimited) hjustified ..
  | failed htodo hlimited =>
    obtain ⟨hrest, hjustified⟩ := h.rest htodo
    exact hrest.failed ((hrest.limited_iff _).1 hlimited) hjustified ..

/-- The attempts are kept. -/
theorem attempts_step {label : Label C} (hstep : step signingKey s label = some t) :
    s.attempts <+: t.attempts := by
  cases change_of_step hstep with
  | succeeded => exact List.prefix_append _ _
  | failed => exact List.prefix_append _ _
  | _ => exact List.prefix_rfl

/-- Where the invariant holds, a step attempts what is due. -/
theorem Inv.broadcasts (h : Inv signingKey s) (label : Label C) : Broadcasts signingKey s label := by
  intro t hstep
  cases change_of_step hstep with
  | called => rfl
  | stored => rfl
  | waited => rfl
  | analyzed => rfl
  | @skipped suggestion _ _ _ _ _ htodo hlimited =>
    rw [htodo]
    have hdue : ¬s.Due suggestion.targetNodeId := fun hdue =>
      Bool.false_ne_true (((h.limited_iff _).2 hdue).symm.trans hlimited)
    exact ⟨fun h => absurd h hdue, fun _ => rfl⟩
  | succeeded htodo hlimited =>
    rw [htodo]
    have hdue := (h.limited_iff _).1 hlimited
    exact ⟨fun _ => ⟨_, rfl, rfl, rfl⟩, absurd hdue⟩
  | failed htodo hlimited =>
    rw [htodo]
    have hdue := (h.limited_iff _).1 hlimited
    exact ⟨fun _ => ⟨_, rfl, rfl, rfl⟩, absurd hdue⟩

/-! ### An iteration -/

/-- An iteration starts. -/
def Label.Starts : Label C → Prop
  | .analyze .. => True
  | _ => False

/-- Within an iteration, a step leaves the suggestions that are left and the attempts as they are, or comes
to the next suggestion, and attempts it if that is due. -/
theorem Inv.comesTo (h : Inv signingKey s) {label : Label C} (hlabel : ¬label.Starts)
    (hstep : step signingKey s label = some t) :
    t.nowInstant = s.nowInstant ∧ (t.todo = s.todo ∧ t.attempts = s.attempts ∨
      ∃ suggestion timestamp, s.todo = suggestion :: t.todo ∧ (s.Due suggestion.targetNodeId →
        ∃ a, t.attempts = s.attempts ++ [a] ∧
          a.message = .build signingKey timestamp suggestion.toPeerSuggestion)) := by
  cases change_of_step hstep with
  | called => exact ⟨rfl, .inl ⟨rfl, rfl⟩⟩
  | stored => exact ⟨rfl, .inl ⟨rfl, rfl⟩⟩
  | waited => exact ⟨rfl, .inl ⟨rfl, rfl⟩⟩
  | analyzed => exact absurd trivial hlabel
  | @skipped suggestion _ timestamp _ _ _ htodo hlimited =>
    refine ⟨rfl, .inr ⟨suggestion, timestamp, htodo, fun hdue => ?_⟩⟩
    exact absurd (((h.limited_iff _).2 hdue).symm.trans hlimited) Bool.false_ne_true
  | succeeded htodo => exact ⟨rfl, .inr ⟨_, _, htodo, fun _ => ⟨_, rfl, rfl⟩⟩⟩
  | failed htodo => exact ⟨rfl, .inr ⟨_, _, htodo, fun _ => ⟨_, rfl, rfl⟩⟩⟩

/-- **An iteration attempts all that is due**, if no two of its suggestions are for one node. -/
theorem Inv.attempts_all (h : Inv signingKey s)
    (hnodup : (s.todo.map fun suggestion => suggestion.targetNodeId).Nodup)
    (hdue : ∀ suggestion ∈ s.todo, s.Due suggestion.targetNodeId) {as : List (Label C)}
    (honce : ∀ label ∈ as, ¬label.Starts) (hrun : run (step signingKey) s as = some t)
    (hdone : t.todo = []) :
    ∃ new, t.attempts = s.attempts ++ new ∧ ∀ suggestion ∈ s.todo, ∃ a ∈ new, ∃ timestamp,
      a.message = .build signingKey timestamp suggestion.toPeerSuggestion := by
  induction as generalizing s with
  | nil =>
    cases hrun
    rw [hdone]
    exact ⟨[], (List.append_nil _).symm, List.forall_mem_nil _⟩
  | cons label as ih =>
    obtain ⟨u, hu, hrun⟩ := run_cons_eq_some.1 hrun
    have honce' := List.forall_mem_cons.1 honce
    obtain ⟨hinstant, ⟨htodo, hattempts⟩ | ⟨suggestion, timestamp, htodo, hattempts⟩⟩ :=
      h.comesTo honce'.1 hu
    · rw [← htodo, ← hattempts]
      refine ih (inv_step h hu) (htodo ▸ hnodup) (fun g hg => ?_) honce'.2 hrun
      rw [Task.Due, hattempts, hinstant]
      exact hdue g (htodo ▸ hg)
    · rw [htodo, List.map_cons, List.nodup_cons] at hnodup
      rw [htodo, List.forall_mem_cons] at hdue
      obtain ⟨a, hnew, hmessage⟩ := hattempts hdue.1
      -- the others are still due, as this one is for none of their nodes
      have hdue' : ∀ g ∈ u.todo, u.Due g.targetNodeId := by
        intro g hg
        rw [Task.Due, hnew, hinstant]
        intro b hb hsome htarget
        rcases List.mem_append.1 hb with hb | hb
        · exact hdue.2 g hg b hb hsome htarget
        · rw [List.mem_singleton.1 hb, hmessage] at htarget
          exact absurd (List.mem_map.2 ⟨g, hg, htarget.symm⟩) hnodup.1
      obtain ⟨later, hlater, hall⟩ := ih (inv_step h hu) hnodup.2 hdue' honce'.2 hrun
      refine ⟨a :: later, by rw [hlater, hnew, List.append_assoc, List.singleton_append], ?_⟩
      rw [htodo]
      refine List.forall_mem_cons.2 ⟨⟨a, List.mem_cons_self, timestamp, hmessage⟩, fun g hg => ?_⟩
      obtain ⟨b, hb, hrest⟩ := hall g hg
      exact ⟨b, List.mem_cons_of_mem _ hb, hrest⟩

/-! ### Results -/

/-- **Nobody is pestered**: in every run, the attempts to a node are 300 seconds away from the last that
succeeded, and nothing but that keeps a suggestion from being broadcast. -/
theorem suggestions_limited {as : List (Label C)}
    (h : run (step signingKey) (.start : Task C F) as = some t) :
    t.attempts.Pairwise Spaced ∧
    Along (step signingKey) (Broadcasts signingKey) (.start : Task C F) as := by
  refine ⟨(inv_run (fun _ _ _ hs hstep => inv_step hs hstep) inv_start h).spaced, ?_⟩
  rw [along_iff_forall]
  intro pre label post s _ hpre
  exact (inv_run (fun _ _ _ hs hstep => inv_step hs hstep) inv_start hpre).broadcasts label

/-- **Suggestions are accounted for**: in every run, each attempt is one that a snapshot of the registry
justifies, and the log has the last 200 that succeeded. -/
theorem suggestions_accounted {as : List (Label C)}
    (h : run (step signingKey) (.start : Task C F) as = some t) :
    (∀ a ∈ t.attempts, a.Accounted signingKey t.calls) ∧
    t.suggestionLog = (t.attempts.filterMap Attempt.entry).rtake maxSuggestionLog := by
  have hinv := inv_run (fun _ _ _ hs hstep => inv_step hs hstep) inv_start h
  exact ⟨hinv.attempts, hinv.log⟩

end Runs

/-! ### One node -/

/-- The edges are visited in their order, and the peers in the order of their announces. -/
def sortedEdges : Swarm.Visits ℚ where
  peers := id
  edges set := ((set.image toLex).sort (· ≤ ·)).map ofLex
  toLowercase := id
  perm_peers _ := .refl _
  nodup_edges set := (Finset.sort_nodup _ _).map ofLex.injective
  mem_edges set pair := by
    obtain ⟨a, b⟩ := pair
    simp

/-- A key that signs everything alike. -/
def blankKey : SigningKey := ⟨"00", fun _ => .replicate 64 0⟩

/-- A node announces itself, and a broadcast to it fails. The next succeeds; 100 seconds later the node is
skipped, and 300 seconds later it is not. -/
def lonelyRun : List (Label ℚ) :=
  [.call sortedEdges 0 (.update { msgType := "peer_announce", nodeId := "a", version := "1" }),
    .analyze sortedEdges 7 sortedVisits 7, .suggest 7 false sortedEdges 7,
    .analyze sortedEdges 8 sortedVisits 8, .suggest 8 true sortedEdges 8,
    .wait 100000000000, .analyze sortedEdges 108 sortedVisits 108, .suggest 108 true sortedEdges 108,
    .wait 200000000000, .analyze sortedEdges 308 sortedVisits 308, .suggest 308 true sortedEdges 308]

/-- Whom the run sends what. -/
theorem run_lonelyRun : ∃ t, run (step blankKey) (.start : Task ℚ ℚ) lonelyRun = some t ∧
    t.attempts.map (fun a => (a.message.timestamp, a.message.targetNodeId, a.entry.isSome)) =
      [(7, "a", false), (8, "a", true), (308, "a", true)] :=
  Option.map_eq_some_iff.1 (by decide +kernel)

theorem suggestions_limited_lonely : ∃ t : Task ℚ ℚ, t.attempts.length = 3 ∧
    t.attempts.Pairwise Spaced ∧
    Along (step blankKey) (Broadcasts blankKey) (.start : Task ℚ ℚ) lonelyRun := by
  obtain ⟨t, hrun, hsent⟩ := run_lonelyRun
  have hlength := congrArg List.length hsent
  rw [List.length_map] at hlength
  exact ⟨t, hlength, suggestions_limited hrun⟩

theorem suggestions_accounted_lonely : ∃ t : Task ℚ ℚ, t.attempts.length = 3 ∧
    (∀ a ∈ t.attempts, a.Accounted blankKey t.calls) ∧
    t.suggestionLog = (t.attempts.filterMap Attempt.entry).rtake maxSuggestionLog := by
  obtain ⟨t, hrun, hsent⟩ := run_lonelyRun
  have hlength := congrArg List.length hsent
  rw [List.length_map] at hlength
  exact ⟨t, hlength, suggestions_accounted hrun⟩

end PodpingAlpha.Monitor.TopologyTask
