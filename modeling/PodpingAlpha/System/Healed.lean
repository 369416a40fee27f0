import PodpingAlpha.System.Suggested
import PodpingAlpha.Writer.Receive

/-!
# The swarm heals

The topology task of the monitor, and the listeners and writers that follow its suggestions. The nodes that
a snapshot of the registry has as active are joined by what they list in their announces; the suggestions of
one iteration, once followed, join them all.

## The model

A step is a step of the task, which covers all calls to the registry, or anything that a listener or a
writer handles. What a node does about a suggestion is that it asks its gossip to join the peers that are
named; whether these can be reached is not modelled. A member of the swarm whose task has panicked may
handle what comes next nevertheless.

## What is proved

* `swarm_heals` — after an iteration whose suggestions have all arrived in time, the nodes that were active
  when it started are joined by what they list and what they have been told to join.
-/

namespace PodpingAlpha.System.Healed

open Listener (Genuine Input)
open Monitor.TopologyTask (Attempt Round Task)
open Outcome Text Transition Wire
open Writer (SigningKey)

universe u

/-! ### A listener -/

section Listener

variable {env : Listener.Env} {m : Listener.Moment} {s : Listener.Node}

/-- A listener forgets nothing that it has joined, and no monitor. -/
theorem listener_keeps (input : Input) :
    s.joined <+: (after (Listener.handle env m input) s).joined ∧
      (after (Listener.handle env m input) s).trustedMonitors = s.trustedMonitors := by
  obtain hsame | ⟨_, _, g, -, -, -, hjoined⟩ := Suggested.joining_handle env m s input
  · obtain ⟨hjoined, hmonitors⟩ := Prod.mk.inj hsame
    exact ⟨by rw [hjoined], hmonitors⟩
  · obtain ⟨hjoined, hmonitors⟩ := Prod.mk.inj hjoined
    exact ⟨by rw [hjoined]; exact List.prefix_append _ _, hmonitors⟩

/-- A suggestion of a monitor that the listener trusts arrives in time. -/
theorem listener_joins {fromSlice : Bytes → Option Json} {ed : Listener.Ed25519}
    {key : List.Vector UInt8 32} {signingKey : SigningKey} (hserde : Json.RoundTrips fromSlice)
    (hkey : Genuine ed signingKey key) (henv : env.Reads fromSlice ed)
    (htrusts : signingKey.pubkeyHex ∈ s.trustedMonitors) {message : Monitor.PeerSuggest}
    {timestamp : UInt64} {suggestion : Monitor.PeerSuggestion}
    (hmessage : message = .build signingKey timestamp suggestion)
    (htarget : env.myNodeId = message.targetNodeId)
    (htime : m.now.toNat < message.timestamp.toNat + 300)
    (hpeers : message.suggestedPeers.filterMap env.parseNodeId ≠ []) (deliveredFrom : String) :
    message.suggestedPeers.filterMap env.parseNodeId ∈
      (after (Listener.handle env m (.live (.received message.toVec deliveredFrom))) s).joined := by
  rw [Suggested.after_handle_built hserde hkey henv htrusts hmessage, if_pos ⟨htarget.symm, htime, hpeers⟩]
  exact List.mem_append_right _ (List.mem_singleton_self _)

end Listener

/-! ### A writer -/

section Writer

open Writer.Receive

variable {env : Env} {m : Moment} {s : Node}

/-- What is joined, and by whose word. -/
def joining (s : Node) : List (List String) × Lock (Finset String) := (s.joined, s.trustedMonitors)

theorem joining_savePeer (announce : Writer.PeerAnnounce) : Keeps joining (savePeer env m announce) := by
  rw [savePeer]
  cases env.parseNodeId announce.nodeId with
  | none => exact keeps_pure
  | some nodeId => exact keeps_modify fun _ => rfl

theorem joining_enterName (announce : Writer.PeerAnnounce) : Keeps joining (enterName announce) := by
  rw [enterName]
  cases announce.friendlyName with
  | none => exact keeps_pure
  | some name => exact keeps_zoom fun _ _ => rfl

theorem joining_handleEndorse (announce : Writer.PeerAnnounce) :
    Keeps joining (handleEndorse env m announce) := by
  have hadd : ∀ nodeList, Keeps joining (addEndorsedKeys env m nodeList) := fun nodeList =>
    keeps_bind (keeps_zoom fun _ _ => rfl) fun _ =>
      keeps_ite (keeps_bind keeps_read fun _ => keeps_modify fun _ => rfl) keeps_pure
  have hverified : ∀ sender, Keeps joining (handleVerified env m announce sender) := fun sender =>
    keeps_bind keeps_cut fun _ => keeps_bind keeps_read fun _ =>
      keeps_ite (by cases announce.nodeList; exacts [keeps_pure, hadd _]) keeps_pure
  refine keeps_ite (keeps_bind keeps_ofPure fun r => ?_) keeps_pure
  cases r with
  | error _ => exact keeps_pure
  | ok verified =>
    cases verified with
    | false => exact keeps_pure
    | true =>
      cases announce.sender with
      | none => exact keeps_pure
      | some sender => exact hverified sender

/-- Messages that are no suggestions join nothing. -/
theorem joining_handleMessage {msg : Writer.Incoming} (hmsg : ∀ g, msg ≠ .suggest g) :
    Keeps joining (handleMessage env m msg) := by
  cases msg with
  | suggest g => exact absurd rfl (hmsg g)
  | announce a => exact keeps_bind (joining_enterName a) fun _ => joining_savePeer a
  | endorse a => exact joining_handleEndorse a
  | notification n => exact keeps_bind keeps_cut fun _ => keeps_pure
  | ignored => exact keeps_pure

/-- The writer does what the suggestion says. -/
def Accepts (env : Env) (now : UInt64) (s : Node) (g : Writer.PeerSuggest) : Prop :=
  g.targetNodeId = env.myNodeId ∧ g.verifySignature env.ed25519 = .ok true ∧
    s.trustedMonitors.poisoned = false ∧ g.sender ∈ s.trustedMonitors.value ∧
    now.toNat - g.timestamp.toNat < 300 ∧ g.suggestedPeers.filterMap env.parseNodeId ≠ []

theorem after_handleSuggest_of_accepts {g : Writer.PeerSuggest} (h : Accepts env m.now s g) :
    after (handleSuggest env m g) s =
      { s with joined := s.joined ++ [g.suggestedPeers.filterMap env.parseNodeId] } := by
  obtain ⟨htarget, hverified, hfree, hguards⟩ := h
  obtain ⟨p, hp⟩ := slice_of_verified hverified
  rw [← wp_after (P := fun t => t = _), handleSuggest, wp_ite, if_pos ⟨htarget, hverified⟩, wp_bind,
    wp_zoom_read (l := monitors) hfree, wp_ite, if_pos (by exact hguards), wp_bind, wp_cut, hp]
  rfl

/-- A suggestion joins at most its peers. -/
theorem keeps_handleSuggest (g : Writer.PeerSuggest) (s : Node) :
    s.joined <+: (after (handleSuggest env m g) s).joined ∧
      (after (handleSuggest env m g) s).trustedMonitors = s.trustedMonitors := by
  rw [← wp_after (P := fun t : Node => s.joined <+: t.joined ∧ t.trustedMonitors = s.trustedMonitors)]
  have hsame : s.joined <+: s.joined ∧ s.trustedMonitors = s.trustedMonitors := ⟨List.prefix_rfl, rfl⟩
  rw [handleSuggest, wp_ite]
  split_ifs
  · rw [wp_bind, wp_zoom, wp_read]
    split_ifs
    · exact hsame
    · rw [wp_ite]
      split_ifs
      · rw [wp_bind, wp_cut]
        cases slice 8 g.sender with
        | none => exact hsame
        | some p => exact ⟨List.prefix_append _ _, rfl⟩
      · exact hsame
  · exact hsame

/-- A message has come. -/
def noted (m : Moment) (deliveredFrom : String) (s : Node) : Node :=
  { s with
    lastNotificationTime := m.now
    msgsReceived := s.msgsReceived + 1
    uniqueSources := insert deliveredFrom s.uniqueSources }

theorem after_received (content : Bytes) (deliveredFrom : String) :
    after (receive env m (.received content deliveredFrom)) s =
      after (handleMessage env m (Writer.classify env.fromSlice content)) (noted m deliveredFrom s) :=
  after_modify_bind

/-- A writer forgets nothing that it has joined, and no monitor. -/
theorem writer_keeps (ev : Listener.Event) :
    s.joined <+: (after (receive env m ev) s).joined ∧
      (after (receive env m ev) s).trustedMonitors = s.trustedMonitors := by
  have hkeeps : ∀ {t : Node}, joining t = joining s →
      s.joined <+: t.joined ∧ t.trustedMonitors = s.trustedMonitors := by
    intro t ht
    obtain ⟨hjoined, hmonitors⟩ := Prod.mk.inj ht
    exact ⟨by rw [hjoined], hmonitors⟩
  cases ev with
  | lagged => exact hkeeps rfl
  | neighborUp nodeId =>
    have hup : Keeps joining (receive env m (.neighborUp nodeId)) :=
      keeps_bind (keeps_modify fun _ => rfl) fun _ => keeps_bind (keeps_zoom fun _ _ => rfl) fun _ =>
        keeps_bind keeps_read fun _ => keeps_modify fun _ => rfl
    exact hkeeps (hup s)
  | neighborDown nodeId =>
    have hdown : Keeps joining (receive env m (.neighborDown nodeId)) :=
      keeps_bind (keeps_modify fun _ => rfl) fun _ => keeps_bind (keeps_zoom fun _ _ => rfl) fun _ =>
        keeps_bind keeps_read fun _ => keeps_pure
    exact hkeeps (hdown s)
  | received content deliveredFrom =>
    rw [after_received]
    cases hclass : Writer.classify env.fromSlice content with
    | suggest g => exact keeps_handleSuggest g (noted m deliveredFrom s)
    | _ => exact hkeeps (joining_handleMessage (fun g h => by cases h) (noted m deliveredFrom s))

/-- A suggestion of a monitor that the writer trusts arrives in time. -/
theorem writer_joins {fromSlice : Bytes → Option Json} {ed : Listener.Ed25519}
    {key : List.Vector UInt8 32} {signingKey : SigningKey} (hserde : Json.RoundTrips fromSlice)
    (hkey : Genuine ed signingKey key) (hslice : env.fromSlice = fromSlice) (hed : env.ed25519 = ed)
    (hfree : s.trustedMonitors.poisoned = false)
    (htrusts : signingKey.pubkeyHex ∈ s.trustedMonitors.value) {message : Monitor.PeerSuggest}
    {timestamp : UInt64} {suggestion : Monitor.PeerSuggestion}
    (hmessage : message = .build signingKey timestamp suggestion)
    (htarget : env.myNodeId = message.targetNodeId)
    (htime : m.now.toNat < message.timestamp.toNat + 300)
    (hpeers : message.suggestedPeers.filterMap env.parseNodeId ≠ []) (deliveredFrom : String) :
    message.suggestedPeers.filterMap env.parseNodeId ∈
      (after (receive env m (.received message.toVec deliveredFrom)) s).joined := by
  have hclass : Writer.classify env.fromSlice message.toVec = .suggest (suggestToWriter message) := by
    rw [hslice]
    exact writer_classify_suggest hserde (congrArg Monitor.PeerSuggest.msgType hmessage)
  have hverified : (suggestToWriter message).verifySignature env.ed25519 = .ok true := by
    rw [hed, hmessage, ← Writer.PeerSuggest.verifySignature_toListener]
    exact Listener.PeerSuggest.verifySignature_genuine hkey rfl rfl
  have hsender : message.sender = signingKey.pubkeyHex := congrArg Monitor.PeerSuggest.sender hmessage
  have haccepts : Accepts env m.now (noted m deliveredFrom s) (suggestToWriter message) := by
    refine ⟨htarget.symm, hverified, hfree, ?_, ?_, hpeers⟩
    · show message.sender ∈ s.trustedMonitors.value
      rw [hsender]
      exact htrusts
    · show m.now.toNat - message.timestamp.toNat < 300
      omega
  rw [after_received, hclass, handleMessage, after_handleSuggest_of_accepts haccepts]
  exact List.mem_append_right _ (List.mem_singleton_self _)

end Writer

/-! ### The swarm -/

/-- The listeners and writers, each with what it reads with. -/
structure Members (ι κ : Type) where
  /-- The listeners. -/
  listener : ι → Listener.Env
  /-- The writers. -/
  writer : κ → Writer.Receive.Env

/-- The members parse JSON so and verify so. -/
structure Members.Reads {ι κ : Type} (members : Members ι κ) (fromSlice : Bytes → Option Json)
    (ed : Listener.Ed25519) : Prop where
  /-- The listeners. -/
  listener : ∀ i, (members.listener i).Reads fromSlice ed
  /-- The writers. -/
  writer : ∀ k, (members.writer k).fromSlice = fromSlice ∧ (members.writer k).ed25519 = ed

/-- The members parse a node id as itself. -/
structure Members.Parses {ι κ : Type} (members : Members ι κ) (id : String) : Prop where
  /-- The listeners. -/
  listener : ∀ i, (members.listener i).parseNodeId id = some id
  /-- The writers. -/
  writer : ∀ k, (members.writer k).parseNodeId id = some id

/-- The monitor's task, and the members. -/
structure World (ι κ C : Type) (F : Type u) where
  /-- The task. -/
  monitor : Task C F
  /-- The listeners. -/
  listeners : ι → Listener.Node
  /-- The writers. -/
  writers : κ → Writer.Receive.Node

/-- What happens next. -/
inductive Label (ι κ C : Type) where
  /-- A step of the task. -/
  | monitor (label : Monitor.TopologyTask.Label C)
  /-- A listener handles something, at a moment. -/
  | listener (i : ι) (m : Listener.Moment) (input : Input)
  /-- A writer handles an event, at a moment. -/
  | writer (k : κ) (m : Writer.Receive.Moment) (ev : Listener.Event)

variable {ι κ C : Type} {F : Type u} {members : Members ι κ} {signingKey : SigningKey}

/-- The start of the task, beside the members. -/
def World.start (listeners : ι → Listener.Node) (writers : κ → Writer.Receive.Node) : World ι κ C F :=
  ⟨.start, listeners, writers⟩

/-- A member with a node id has been told to join another. -/
def World.Joined (members : Members ι κ) (w : World ι κ C F) (a b : String) : Prop :=
  (∃ i, (members.listener i).myNodeId = a ∧ ∃ peers ∈ (w.listeners i).joined, b ∈ peers) ∨
    ∃ k, (members.writer k).myNodeId = a ∧ ∃ peers ∈ (w.writers k).joined, b ∈ peers

/-- The members trust the monitor, and the locks of the writers are sound. -/
structure World.Trusts (signingKey : SigningKey) (w : World ι κ C F) : Prop where
  /-- The listeners. -/
  listener : ∀ i, signingKey.pubkeyHex ∈ (w.listeners i).trustedMonitors
  /-- The writers. -/
  writer : ∀ k, (w.writers k).trustedMonitors.poisoned = false ∧
    signingKey.pubkeyHex ∈ (w.writers k).trustedMonitors.value

/-- A message is handled in time by the node that it is for. -/
def Arrives (members : Members ι κ) (message : Monitor.PeerSuggest) : Label ι κ C → Prop
  | .listener i m (.live (.received content _)) => content = message.toVec ∧
    (members.listener i).myNodeId = message.targetNodeId ∧ m.now.toNat < message.timestamp.toNat + 300
  | .writer k m (.received content _) => content = message.toVec ∧
    (members.writer k).myNodeId = message.targetNodeId ∧ m.now.toNat < message.timestamp.toNat + 300
  | _ => False

/-- The nodes that are active in a snapshot, joined by what they list and what they have been told to
join. -/
def swarm (members : Members ι κ) (round : Round C) (w : World ι κ C F) :
    SimpleGraph {id // round.Active id} :=
  SimpleGraph.fromRel fun a b => round.Lists a b ∨ w.Joined members a b

section Runs

variable [DecidableEq ι] [DecidableEq κ]
variable [Add F] [Sub F] [Mul F] [Div F] [NatCast F] [OfScientific F] [LT F] [DecidableLT F]

/-- One step. -/
def step (members : Members ι κ) (signingKey : SigningKey) (w : World ι κ C F) :
    Label ι κ C → Option (World ι κ C F)
  | .monitor label =>
    (Monitor.TopologyTask.step signingKey w.monitor label).map fun monitor => { w with monitor := monitor }
  | .listener i m input =>
    let node := after (Listener.handle (members.listener i) m input) (w.listeners i)
    some { w with listeners := Function.update w.listeners i node }
  | .writer k m ev =>
    let node := after (Writer.Receive.receive (members.writer k) m ev) (w.writers k)
    some { w with writers := Function.update w.writers k node }

variable {v w : World ι κ C F} {label : Label ι κ C} {labels : List (Label ι κ C)}

theorem step_monitor {monitor : Task C F} {label : Monitor.TopologyTask.Label C}
    (h : Monitor.TopologyTask.step signingKey w.monitor label = some monitor) :
    step members signingKey w (.monitor label) = some { w with monitor := monitor } :=
  congrArg (Option.map _) h

/-- What a step does to the listeners. -/
theorem listeners_step (h : step members signingKey w label = some v) (i : ι) :
    (w.listeners i).joined <+: (v.listeners i).joined ∧
      (v.listeners i).trustedMonitors = (w.listeners i).trustedMonitors := by
  cases label with
  | monitor label =>
    obtain ⟨monitor, -, rfl⟩ := Option.map_eq_some_iff.1 h
    exact ⟨List.prefix_rfl, rfl⟩
  | listener j m input =>
    cases h
    by_cases hij : i = j
    · subst hij
      dsimp only
      rw [Function.update_self]
      exact listener_keeps input
    · dsimp only
      rw [Function.update_of_ne hij]
      exact ⟨List.prefix_rfl, rfl⟩
  | writer k m ev =>
    cases h
    exact ⟨List.prefix_rfl, rfl⟩

/-- What a step does to the writers. -/
theorem writers_step (h : step members signingKey w label = some v) (k : κ) :
    (w.writers k).joined <+: (v.writers k).joined ∧
      (v.writers k).trustedMonitors = (w.writers k).trustedMonitors := by
  cases label with
  | monitor label =>
    obtain ⟨monitor, -, rfl⟩ := Option.map_eq_some_iff.1 h
    exact ⟨List.prefix_rfl, rfl⟩
  | listener i m input =>
    cases h
    exact ⟨List.prefix_rfl, rfl⟩
  | writer l m ev =>
    cases h
    by_cases hkl : k = l
    · subst hkl
      dsimp only
      rw [Function.update_self]
      exact writer_keeps ev
    · dsimp only
      rw [Function.update_of_ne hkl]
      exact ⟨List.prefix_rfl, rfl⟩

/-- What was joined stays joined. -/
theorem joined_step (h : step members signingKey w label = some v) {a b : String}
    (hjoined : w.Joined members a b) : v.Joined members a b := by
  rcases hjoined with ⟨i, hid, peers, hpeers, hb⟩ | ⟨k, hid, peers, hpeers, hb⟩
  · exact .inl ⟨i, hid, peers, (listeners_step h i).1.subset hpeers, hb⟩
  · exact .inr ⟨k, hid, peers, (writers_step h k).1.subset hpeers, hb⟩

theorem trusts_step (h : step members signingKey w label = some v) (htrusts : w.Trusts signingKey) :
    v.Trusts signingKey where
  listener i := by
    rw [(listeners_step h i).2]
    exact htrusts.listener i
  writer k := by
    rw [(writers_step h k).2]
    exact htrusts.writer k

/-- A suggestion that arrives is followed. -/
theorem joined_of_arrives {fromSlice : Bytes → Option Json} {ed : Listener.Ed25519}
    {key : List.Vector UInt8 32} (hserde : Json.RoundTrips fromSlice) (hkey : Genuine ed signingKey key)
    (hreads : members.Reads fromSlice ed) (htrusts : w.Trusts signingKey)
    {message : Monitor.PeerSuggest} {timestamp : UInt64} {suggestion : Monitor.PeerSuggestion}
    (hmessage : message = .build signingKey timestamp suggestion) (harrives : Arrives members message label)
    (h : step members signingKey w label = some v) {peer : String} (hpeer : peer ∈ suggestion.suggestedPeers)
    (hparses : members.Parses peer) : v.Joined members suggestion.targetNodeId peer := by
  have hnamed : peer ∈ message.suggestedPeers := by
    rw [hmessage]
    exact hpeer
  have hid : message.targetNodeId = suggestion.targetNodeId :=
    congrArg Monitor.PeerSuggest.targetNodeId hmessage
  cases label with
  | monitor label => exact harrives.elim
  | listener i m input =>
    cases input with
    | catchup payload => exact harrives.elim
    | live ev =>
      cases ev with
      | received content deliveredFrom =>
        obtain ⟨rfl, htarget, htime⟩ := harrives
        cases h
        have hmem : peer ∈ message.suggestedPeers.filterMap (members.listener i).parseNodeId :=
          List.mem_filterMap.2 ⟨peer, hnamed, hparses.listener i⟩
        have hjoins := listener_joins hserde hkey (hreads.listener i) (htrusts.listener i) hmessage htarget
          htime (List.ne_nil_of_mem hmem) deliveredFrom
        refine .inl ⟨i, htarget.trans hid, _, ?_, hmem⟩
        dsimp only
        rw [Function.update_self]
        exact hjoins
      | _ => exact harrives.elim
  | writer k m ev =>
    cases ev with
    | received content deliveredFrom =>
      obtain ⟨rfl, htarget, htime⟩ := harrives
      cases h
      have hmem : peer ∈ message.suggestedPeers.filterMap (members.writer k).parseNodeId :=
        List.mem_filterMap.2 ⟨peer, hnamed, hparses.writer k⟩
      have hjoins := writer_joins hserde hkey (hreads.writer k).1 (hreads.writer k).2 (htrusts.writer k).1
        (htrusts.writer k).2 hmessage htarget htime (List.ne_nil_of_mem hmem) deliveredFrom
      refine .inr ⟨k, htarget.trans hid, _, ?_, hmem⟩
      dsimp only
      rw [Function.update_self]
      exact hjoins
    | _ => exact harrives.elim

/-- A suggestion that arrives in a run is followed in it. -/
theorem joined_run {fromSlice : Bytes → Option Json} {ed : Listener.Ed25519}
    {key : List.Vector UInt8 32} (hserde : Json.RoundTrips fromSlice) (hkey : Genuine ed signingKey key)
    (hreads : members.Reads fromSlice ed) (htrusts : w.Trusts signingKey)
    {message : Monitor.PeerSuggest} {timestamp : UInt64} {suggestion : Monitor.PeerSuggestion}
    (hmessage : message = .build signingKey timestamp suggestion)
    (harrives : ∃ label ∈ labels, Arrives members message label)
    (h : run (step members signingKey) w labels = some v) {peer : String}
    (hpeer : peer ∈ suggestion.suggestedPeers) (hparses : members.Parses peer) :
    v.Joined members suggestion.targetNodeId peer := by
  obtain ⟨label, hlabel, harrives⟩ := harrives
  obtain ⟨pre, post, rfl⟩ := List.append_of_mem hlabel
  rw [run_append] at h
  obtain ⟨u, hu, h⟩ := Option.bind_eq_some_iff.1 h
  obtain ⟨u', hu', hpost⟩ := run_cons_eq_some.1 h
  have htrusts' : u.Trusts signingKey :=
    inv_run (I := World.Trusts signingKey) (fun _ _ _ hs hstep => trusts_step hstep hs) htrusts hu
  have hjoined := joined_of_arrives hserde hkey hreads htrusts' hmessage harrives hu' hpeer hparses
  exact inv_run (I := fun w : World ι κ C F => w.Joined members suggestion.targetNodeId peer)
    (fun _ _ _ hs hstep => joined_step hstep hs) hjoined hpost

/-- The steps of the task. -/
def see (_ : World ι κ C F) : Label ι κ C → List (Monitor.TopologyTask.Label C)
  | .monitor label => [label]
  | _ => []

theorem mem_of_seen {label : Monitor.TopologyTask.Label C}
    (h : label ∈ seen (step members signingKey) see w labels) : .monitor label ∈ labels := by
  obtain ⟨_, a, ha, hsee⟩ := exists_of_mem_seen h
  cases a with
  | monitor label' => exact List.mem_singleton.1 hsee ▸ ha
  | listener i m input => exact absurd hsee List.not_mem_nil
  | writer k m ev => exact absurd hsee List.not_mem_nil

/-- The task runs as it does alone. -/
theorem monitor_run (h : run (step members signingKey) w labels = some v) :
    run (Monitor.TopologyTask.step signingKey) w.monitor
      (seen (step members signingKey) see w labels) = some v.monitor := by
  refine run_seen (I := fun _ => True) (f := World.monitor) (fun _ _ _ _ _ => trivial)
    (fun w label v _ hstep => ?_) trivial h
  cases label with
  | monitor label =>
    obtain ⟨monitor, hmonitor, rfl⟩ := Option.map_eq_some_iff.1 hstep
    exact run_cons_eq_some.2 ⟨monitor, hmonitor, rfl⟩
  | listener i m input =>
    cases hstep
    rfl
  | writer k m ev =>
    cases hstep
    rfl

end Runs

/-! ### The result -/

section Result

open Monitor (Visits analyzeTopology)
open Monitor.TopologyTask (toTopology)

variable [Add F] [Sub F] [Mul F] [Div F] [NatCast F] [OfScientific F] [LT F] [DecidableLT F]

variable {u v w : World ι κ C F} {as bs : List (Label ι κ C)}

/-- Where what an iteration suggests is joined, the nodes that it has as active are joined. -/
theorem preconnected_of_joined {registry : Monitor.Swarm.Registry C} {round : Round C}
    (h : Monitor.Swarm.Refines registry (Monitor.Swarm.slot round.calls))
    (visits : Monitor.Swarm.Visits C) (order : Visits) (timestamp : UInt64)
    (hjoined : ∀ suggestion ∈ (analyzeTopology (F := F) order
      (toTopology (registry.snapshot visits round.now).1) timestamp).suggestions,
      ∀ peer ∈ suggestion.suggestedPeers, w.Joined members suggestion.targetNodeId peer) :
    (swarm members round w).Preconnected := by
  let snapshot := toTopology (registry.snapshot visits round.now).1
  have hactive : ∀ {id}, id ∈ snapshot.activeIds ↔ round.Active id :=
    Monitor.TopologyTask.mem_activeIds_iff h
  let f : {node // node ∈ snapshot.activeIds} → {id // round.Active id} := fun a => ⟨a.1, hactive.1 a.2⟩
  have hinj : ∀ a b, a ≠ b → f a ≠ f b := fun a b hne heq => hne (Subtype.ext (Subtype.mk.inj heq))
  have hsurj : Function.Surjective f := fun a => ⟨⟨a.1, hactive.2 a.2⟩, rfl⟩
  have hlists : ∀ a b, b ∈ snapshot.adj a → round.Lists a b ∨ round.Lists b a := by
    intro a b hadj
    obtain ⟨-, -, hreports⟩ := Monitor.SwarmSnapshot.mem_adj.1 hadj
    exact hreports.imp (Monitor.TopologyTask.lists_of_reports h) (Monitor.TopologyTask.lists_of_reports h)
  have hgraph : snapshot.graph ≤ (swarm members round w).comap f := by
    rintro a b ⟨hne, hab | hba⟩
    · exact ⟨hinj a b hne, (hlists a.1 b.1 hab).imp .inl .inl⟩
    · exact ⟨hinj a b hne, (hlists b.1 a.1 hba).symm.imp .inl .inl⟩
  have hfollowed : snapshot.followed (analyzeTopology (F := F) order snapshot timestamp).suggestions ≤
      (swarm members round w).comap f := by
    rintro a b ⟨hne, ⟨suggestion, hmem, htarget, hpeer⟩ | ⟨suggestion, hmem, htarget, hpeer⟩⟩
    · exact ⟨hinj a b hne, .inl (.inr (htarget ▸ hjoined suggestion hmem b.1 hpeer))⟩
    · exact ⟨hinj a b hne, .inr (.inr (htarget ▸ hjoined suggestion hmem a.1 hpeer))⟩
  exact (Monitor.preconnected_of_followed (F := F) order timestamp hgraph hfollowed).map
    (SimpleGraph.Hom.comap f _) hsurj

variable [DecidableEq ι] [DecidableEq κ]

/-- In every run the invariant of the task holds. -/
theorem inv_monitor {listeners : ι → Listener.Node} {writers : κ → Writer.Receive.Node}
    (h : run (step members signingKey) (.start listeners writers) as = some u) :
    Monitor.TopologyTask.Inv signingKey u.monitor :=
  inv_run (fun _ _ _ hs hstep => Monitor.TopologyTask.inv_step hs hstep)
    Monitor.TopologyTask.inv_start (monitor_run h)

/-- **The swarm heals**: let an iteration of the monitor's task start in a run and come to its end, none of
its suggestions being held back by the limit of 300 seconds, and let every message that it attempts be
handled, within 300 seconds of its timestamp, by the node that it is for. If the members trust the monitor,
then any two of the nodes that are active in its snapshot are joined by a path of nodes, each of which lists
the next, has been told to join it, or the other way around. -/
theorem swarm_heals {fromSlice : Bytes → Option Json} {ed : Listener.Ed25519}
    {key : List.Vector UInt8 32} (hserde : Json.RoundTrips fromSlice) (hkey : Genuine ed signingKey key)
    (hreads : members.Reads fromSlice ed) {listeners : ι → Listener.Node}
    {writers : κ → Writer.Receive.Node} {visits : Monitor.Swarm.Visits C} {now : UInt64} {order : Visits}
    {timestamp : UInt64} (htrusts : (World.start listeners writers : World ι κ C F).Trusts signingKey)
    (hbefore : run (step members signingKey) (.start listeners writers) as = some u)
    (hstarts : step members signingKey u (.monitor (.analyze visits now order timestamp)) = some v)
    (hrun : run (step members signingKey) v bs = some w) (hends : w.monitor.todo = [])
    (honce : ∀ label, .monitor label ∈ bs → ¬label.Starts)
    (hdue : ∀ suggestion ∈ v.monitor.todo, v.monitor.Due suggestion.targetNodeId)
    (harrives : ∀ a ∈ w.monitor.attempts.drop v.monitor.attempts.length,
      ∃ label ∈ bs, Arrives members a.message label)
    (hparses : ∀ id, v.monitor.round.Active id → members.Parses id) :
    (swarm members v.monitor.round w).Preconnected := by
  have hinv := inv_monitor hbefore
  have htrusts' : v.Trusts signingKey :=
    trusts_step hstarts (inv_run (fun _ _ _ hs hstep => trusts_step hstep hs) htrusts hbefore)
  obtain ⟨monitor, hmonitor, rfl⟩ := Option.map_eq_some_iff.1 hstarts
  have hinv' := Monitor.TopologyTask.inv_step hinv hmonitor
  obtain rfl := Monitor.TopologyTask.analyzed_of_step hmonitor
  obtain ⟨new, hnew, hall⟩ := hinv'.attempts_all (Monitor.nodup_targets (F := F)) hdue
    (fun label hlabel => honce label (mem_of_seen hlabel)) (monitor_run hrun) hends
  rw [hnew, List.drop_left] at harrives
  refine preconnected_of_joined (F := F) hinv.refines visits order timestamp ?_
  intro suggestion hmem peer hpeer
  obtain ⟨a, ha, sent, hmessage⟩ := hall suggestion hmem
  have hactive := ((hinv'.todo suggestion hmem).peers peer hpeer).2.1
  exact joined_run hserde hkey hreads htrusts' hmessage (harrives a ha) hrun hpeer (hparses peer hactive)

end Result

/-! ### Two members -/

section Pair

open Monitor (PeerSuggestion)
open Monitor.TopologyTask (sortedEdges toTopology)
open Suggested (announcedPair pairListener pairReader pairReader_reads pairVisits suggestions_lonelyPair
  toTopology_announcedPair)

/-- A listener and a writer. -/
def pairMembers : Members Unit Unit where
  listener _ := pairReader
  writer _ := { Writer.Receive.plainEnv with
    fromSlice := Json.fromBytes
    ed25519 := plainEd25519
    parseNodeId := some
    myNodeId := "b" }

theorem pairMembers_reads : pairMembers.Reads Json.fromBytes plainEd25519 where
  listener _ := pairReader_reads
  writer _ := ⟨rfl, rfl⟩

/-- The writer, which trusts the monitor. -/
def pairWriter : Writer.Receive.Node :=
  (Writer.Receive.Task.spawn ∅ ∅ {plainKey.pubkeyHex} ∅ ∅ 7 none none).node

/-- What each is told. -/
def toFirst : PeerSuggestion := ⟨"a", ["b"], "isolated_clique"⟩

/-- What the other is told. -/
def toSecond : PeerSuggestion := ⟨"b", ["a"], "low_connectivity"⟩

/-- Both members announce themselves. -/
def announces : List (Label Unit Unit ℚ) :=
  [.monitor (.call sortedEdges 0 (.update { msgType := "peer_announce", nodeId := "a", version := "1" })),
    .monitor (.call sortedEdges 0 (.update { msgType := "peer_announce", nodeId := "b", version := "1" }))]

/-- Both suggestions of the iteration are broadcast, and arrive. -/
def iteration : List (Label Unit Unit ℚ) :=
  [.monitor (.suggest 7 true sortedEdges 7), .monitor (.suggest 8 true sortedEdges 8),
    .listener () (.fine 306) (.live (.received (Monitor.PeerSuggest.build plainKey 7 toFirst).toVec "m")),
    .writer () ⟨200, true, true, true, true, false⟩
      (.received (Monitor.PeerSuggest.build plainKey 8 toSecond).toVec "m")]

/-- The task after the iteration has started. -/
def startedTask : Task ℚ ℚ := announcedPair.analyzed sortedEdges 7 pairVisits 7

theorem todo_startedTask : startedTask.todo = [⟨toFirst, 1⟩, ⟨toSecond, 1⟩] := by
  show (Monitor.analyzeTopology pairVisits (Monitor.TopologyTask.toTopology
    (announcedPair.registry.snapshot sortedEdges 7).1) 7).suggestions = _
  rw [toTopology_announcedPair, suggestions_lonelyPair]
  rfl

/-- The task after the first suggestion. -/
def firstSent : Task ℚ ℚ :=
  { startedTask with todo := [⟨toSecond, 1⟩] }.succeeded plainKey toFirst 7 sortedEdges 7

/-- The task after the second. -/
def bothSent : Task ℚ ℚ := { firstSent with todo := [] }.succeeded plainKey toSecond 8 sortedEdges 8

theorem step_firstSent :
    Monitor.TopologyTask.step plainKey startedTask (.suggest 7 true sortedEdges 7) = some firstSent := by
  rw [Monitor.TopologyTask.step, todo_startedTask]
  rfl

theorem step_bothSent :
    Monitor.TopologyTask.step plainKey firstSent (.suggest 8 true sortedEdges 8) = some bothSent := rfl

theorem messages_bothSent : bothSent.attempts.map Attempt.message =
    [.build plainKey 7 toFirst, .build plainKey 8 toSecond] := rfl

/-- The members at the start. -/
def pairStart (monitor : Task ℚ ℚ) : World Unit Unit ℚ ℚ :=
  ⟨monitor, fun _ => pairListener, fun _ => pairWriter⟩

theorem run_announces : run (step pairMembers plainKey) (.start (fun _ => pairListener) fun _ => pairWriter)
    announces = some (pairStart announcedPair) := rfl

theorem run_iteration : ∃ w : World Unit Unit ℚ ℚ,
    run (step pairMembers plainKey) (pairStart startedTask) iteration = some w ∧ w.monitor = bothSent := by
  have hfirst : step pairMembers plainKey (pairStart startedTask) (.monitor (.suggest 7 true sortedEdges 7)) =
      some (pairStart firstSent) := step_monitor step_firstSent
  have hboth : step pairMembers plainKey (pairStart firstSent) (.monitor (.suggest 8 true sortedEdges 8)) =
      some (pairStart bothSent) := step_monitor step_bothSent
  rw [iteration, run_cons, hfirst, Option.bind_some, run_cons, hboth, Option.bind_some]
  exact ⟨_, rfl, rfl⟩

theorem refines_announcedPair :
    Monitor.Swarm.Refines announcedPair.registry (Monitor.Swarm.slot announcedPair.calls) := by
  have hstart : Monitor.TopologyTask.Inv plainKey (.start : Task ℚ ℚ) := Monitor.TopologyTask.inv_start
  exact ((hstart.called _ _ _).called _ _ _).refines

/-- The two members, which listed nobody, are joined. -/
theorem swarm_heals_pair : ∃ v w : World Unit Unit ℚ ℚ,
    run (step pairMembers plainKey) (.start (fun _ => pairListener) fun _ => pairWriter)
      (announces ++ [.monitor (.analyze sortedEdges 7 pairVisits 7)]) = some v ∧
    run (step pairMembers plainKey) v iteration = some w ∧
    v.monitor.round.Active "a" ∧ v.monitor.round.Active "b" ∧
    (swarm pairMembers v.monitor.round w).Preconnected := by
  have hstarts : step pairMembers plainKey (pairStart announcedPair)
      (.monitor (.analyze sortedEdges 7 pairVisits 7)) = some (pairStart startedTask) := step_monitor rfl
  obtain ⟨w, hrun, hmonitor⟩ := run_iteration
  have hactive : ∀ id, id ∈ Suggested.lonelyPair.activeIds ↔ startedTask.round.Active id := by
    intro id
    have hiff : id ∈ (toTopology (announcedPair.registry.snapshot sortedEdges
        startedTask.round.now).1).activeIds ↔ startedTask.round.Active id :=
      Monitor.TopologyTask.mem_activeIds_iff refines_announcedPair
    rw [← toTopology_announcedPair]
    exact hiff
  refine ⟨pairStart startedTask, w, ?_, hrun, (hactive "a").1 (by decide), (hactive "b").1 (by decide), ?_⟩
  · rw [run_append, run_announces, Option.bind_some, run_cons, hstarts, Option.bind_some, run_nil]
  · refine swarm_heals Json.roundTrips_fromBytes genuine_plainKey pairMembers_reads ?_ run_announces hstarts
      hrun (congrArg Task.todo hmonitor) ?_ ?_ ?_ ?_
    · exact ⟨fun _ => Finset.mem_singleton_self _, fun _ => ⟨rfl, Finset.mem_singleton_self _⟩⟩
    · intro label hlabel
      simp only [iteration, List.mem_cons, Label.monitor.injEq, reduceCtorEq, List.not_mem_nil, or_false]
        at hlabel
      obtain rfl | rfl := hlabel
      · exact id
      · exact id
    · exact fun _ _ => nofun
    · rw [hmonitor]
      intro a ha
      have hmessage : a.message = .build plainKey 7 toFirst ∨ a.message = .build plainKey 8 toSecond :=
        List.mem_pair.1 (messages_bothSent ▸ List.mem_map_of_mem ha)
      rcases hmessage with hmessage | hmessage
      · rw [hmessage]
        exact ⟨_, List.mem_of_getElem? (i := 2) rfl, rfl, rfl, by decide⟩
      · rw [hmessage]
        exact ⟨_, List.mem_of_getElem? (i := 3) rfl, rfl, rfl, by decide⟩
    · exact fun _ _ => ⟨fun _ => rfl, fun _ => rfl⟩

end Pair

end PodpingAlpha.System.Healed
