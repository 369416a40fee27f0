import PodpingAlpha.Monitor.Topology
import Mathlib.Combinatorics.SimpleGraph.Connectivity.Connected

/-!
# Following the suggestions

Whom the analysis of the topology suggests to whom, and what becomes of the graph of the peers when
the suggestions are followed.

## What is proved

* `suggestions_wellFormed` — a suggestion is for a peer that is not stale, names at most three
  others of this kind that are not its neighbours, and is the only one for this peer; every peer
  outside the chosen component gets one.
* `preconnected_followed` — following the suggestions joins all peers.
-/

namespace PodpingAlpha.Monitor

open Components (Reach Partition)

universe u

variable {F : Type u}

/-! ### The top of a table -/

section Top

variable [LT F] [DecidableLT F] {table : List (String × F)} {exclude : Finset String} {count : ℕ}

theorem perm_descending {α : Type*} (score : α → F) (items : List α) :
    (descending score items).Perm items :=
  List.mergeSort_perm items _

theorem mem_of_mem_topBetweenness {peer : String} (h : peer ∈ topBetweenness table exclude count) :
    peer ∈ table.map Prod.fst ∧ peer ∉ exclude := by
  obtain ⟨entry, hentry, rfl⟩ := List.mem_map.1 h
  have hcandidate := (perm_descending _ _).mem_iff.1 (List.mem_of_mem_take hentry)
  obtain ⟨hmem, hnot⟩ := List.mem_filter.1 hcandidate
  exact ⟨List.mem_map_of_mem hmem, of_decide_eq_true hnot⟩

theorem length_topBetweenness_le : (topBetweenness table exclude count).length ≤ count := by
  rw [topBetweenness, List.length_map, List.length_take]
  exact min_le_left _ _

theorem nodup_topBetweenness (h : (table.map Prod.fst).Nodup) :
    (topBetweenness table exclude count).Nodup := by
  rw [topBetweenness, List.map_take]
  refine List.Nodup.sublist (List.take_sublist _ _) ?_
  rw [((perm_descending _ _).map Prod.fst).nodup_iff]
  exact h.sublist (List.filter_sublist.map Prod.fst)

/-- A node that is not excluded leaves the top of a table not empty. -/
theorem topBetweenness_ne_nil {peer : String} (hmem : peer ∈ table.map Prod.fst)
    (hnot : peer ∉ exclude) (hcount : 0 < count) : topBetweenness table exclude count ≠ [] := by
  obtain ⟨entry, hentry, rfl⟩ := List.mem_map.1 hmem
  have hcandidate : entry ∈ table.filter fun entry => entry.1 ∉ exclude :=
    List.mem_filter.2 ⟨hentry, decide_eq_true hnot⟩
  have hpos : 0 < (topBetweenness table exclude count).length := by
    rw [topBetweenness, List.length_map, List.length_take, (perm_descending _ _).length_eq]
    exact lt_min hcount (List.length_pos_of_mem hcandidate)
  exact List.ne_nil_of_length_pos hpos

end Top

variable [Add F] [Sub F] [Mul F] [Div F] [NatCast F] [OfScientific F] [LT F] [DecidableLT F]
variable {visits : Visits} {snapshot : SwarmSnapshot} {now : UInt64} {x y : String}

omit [Sub F] [NatCast F] [LT F] [DecidableLT F] in
theorem map_fst_scores {site : Site} {keys : Finset String} :
    (scores (F := F) visits snapshot site keys).map Prod.fst = visits.order site keys := by
  rw [scores, List.map_map]
  exact List.map_id _

omit [Sub F] [NatCast F] [LT F] [DecidableLT F] in
theorem nodup_scores {site : Site} {keys : Finset String} :
    ((scores (F := F) visits snapshot site keys).map Prod.fst).Nodup := by
  rw [map_fst_scores]
  exact visits.nodup site keys

/-! ### Who gets a suggestion -/

omit [Sub F] [NatCast F] in
/-- A node of another component gets nodes of the chosen one. -/
theorem mem_isolatedSuggestions {s : ScoredSuggestion F} :
    s ∈ isolatedSuggestions visits snapshot ↔ ∃ component i,
      (components visits snapshot)[i]? = some component ∧ i ≠ largestIdx visits snapshot ∧
      ∃ nodeId ∈ component, s =
        { targetNodeId := nodeId, suggestedPeers := isolatedPeers (F := F) visits snapshot component i,
          reason := "isolated_clique", isolationScore := 1.0 } := by
  simp only [isolatedSuggestions, List.mem_flatMap, Prod.exists, List.mk_mem_zipIdx_iff_getElem?]
  refine exists_congr fun component => exists_congr fun i => and_congr_right fun _ => ?_
  split_ifs with h
  · simp [h]
  · simp [h, eq_comm]

/-- What a node of the chosen component gets, if anything. -/
theorem mainSuggestion_eq_some {nodeId : String} {s : ScoredSuggestion F}
    (h : mainSuggestion visits snapshot nodeId = some s) : s.targetNodeId = nodeId ∧
      s.suggestedPeers = topBetweenness (betweenness (F := F) visits snapshot)
        (insert nodeId (snapshot.adj nodeId)) 3 := by
  unfold mainSuggestion at h
  dsimp only at h
  split_ifs at h
  all_goals
    obtain rfl := Option.some.inj h
    exact ⟨rfl, rfl⟩

/-- The suggestions are those of the two steps, in another order. -/
theorem perm_suggestions : (analyzeTopology (F := F) visits snapshot now).suggestions.Perm
    (isolatedSuggestions visits snapshot ++
      (mainComponent visits snapshot).filterMap (mainSuggestion visits snapshot)) := by
  unfold analyzeTopology
  split_ifs with hempty
  · have hnodes := List.isEmpty_iff.1 hempty
    have hcomponents : components visits snapshot = [] := by
      rw [components, hnodes]
      rfl
    simp [isolatedSuggestions, mainComponent, hcomponents]
  · exact perm_descending _ _

/-- A suggestion comes from one of the two steps. -/
theorem mem_suggestions {s : ScoredSuggestion F} :
    s ∈ (analyzeTopology visits snapshot now).suggestions ↔ s ∈ isolatedSuggestions visits snapshot ∨
      ∃ nodeId ∈ mainComponent visits snapshot, mainSuggestion visits snapshot nodeId = some s := by
  rw [perm_suggestions.mem_iff, List.mem_append, List.mem_filterMap]

omit [Sub F] [NatCast F] in
/-- The suggested peers of another component are in the chosen one and not in this. -/
theorem mem_isolatedPeers {component : List String} {i : ℕ} {peer : String}
    (h : peer ∈ isolatedPeers (F := F) visits snapshot component i) :
    peer ∈ snapshot.activeIds ∧ peer ∈ mainComponent visits snapshot ∧ peer ∉ component := by
  obtain ⟨hmem, hnot⟩ := mem_of_mem_topBetweenness h
  rw [map_fst_scores, visits.mem, Finset.mem_filter] at hmem
  exact ⟨hmem.1, hmem.2, fun hc => hnot (List.mem_toFinset.2 hc)⟩

/-! ### The targets -/

omit [Sub F] [NatCast F] in
/-- The nodes that step 4 suggests to. -/
theorem map_target_isolatedSuggestions :
    (isolatedSuggestions (F := F) visits snapshot).map (fun s => s.targetNodeId) =
      (components visits snapshot).zipIdx.flatMap fun (component, i) =>
        if i = largestIdx visits snapshot then [] else component := by
  rw [isolatedSuggestions, List.map_flatMap]
  congr 1
  funext ⟨component, i⟩
  dsimp only
  split_ifs
  · rfl
  · simp [List.map_map, Function.comp_def]

variable (visits snapshot) in
/-- Step 5 suggests to nodes of the chosen component, in their order. -/
theorem map_target_mainSuggestions (nodeIds : List String) :
    ((nodeIds.filterMap (mainSuggestion (F := F) visits snapshot)).map
      fun s => s.targetNodeId).Sublist nodeIds := by
  induction nodeIds with
  | nil => exact List.Sublist.refl []
  | cons nodeId nodeIds ih =>
    cases h : mainSuggestion (F := F) visits snapshot nodeId with
    | none =>
      rw [List.filterMap_cons_none h]
      exact ih.cons nodeId
    | some s =>
      rw [List.filterMap_cons_some h, List.map_cons, (mainSuggestion_eq_some h).1]
      exact ih.cons_cons nodeId

theorem getElem?_of_mem_mainComponent (h : x ∈ mainComponent visits snapshot) :
    (components visits snapshot)[largestIdx visits snapshot]? = some (mainComponent visits snapshot) := by
  unfold mainComponent at h ⊢
  rw [List.getD_eq_getElem?_getD] at h ⊢
  cases hget : (components visits snapshot)[largestIdx visits snapshot]? with
  | none =>
    rw [hget] at h
    exact absurd h List.not_mem_nil
  | some main => rfl

theorem nodup_mainComponent : (mainComponent visits snapshot).Nodup := by
  cases hmain : mainComponent visits snapshot with
  | nil => exact List.nodup_nil
  | cons x main =>
    have hget := getElem?_of_mem_mainComponent (hmain ▸ List.mem_cons_self : x ∈ mainComponent visits snapshot)
    rw [← hmain]
    exact (List.nodup_flatten.1 partition_components.nodup).1 _ (List.mem_of_getElem? hget)

/-- The components but the chosen one, one after the other. -/
theorem others_sublist : ((components visits snapshot).zipIdx.flatMap fun (component, i) =>
    if i = largestIdx visits snapshot then [] else component).Sublist
      (components visits snapshot).flatten := by
  have hall : (components visits snapshot).zipIdx.flatMap Prod.fst = (components visits snapshot).flatten := by
    rw [List.flatMap_def, List.zipIdx_map_fst]
  rw [← hall]
  refine List.Sublist.flatMap_right _ fun ⟨component, i⟩ _ => ?_
  dsimp only
  split_ifs
  · exact List.nil_sublist _
  · exact List.Sublist.refl _

/-- No node is suggested to twice. -/
theorem nodup_targets : ((analyzeTopology (F := F) visits snapshot now).suggestions.map
    fun s => s.targetNodeId).Nodup := by
  have hpart : Partition _ _ (components visits snapshot) := partition_components
  rw [(perm_suggestions.map _).nodup_iff, List.map_append, map_target_isolatedSuggestions]
  have hmain := map_target_mainSuggestions (F := F) visits snapshot
    (mainComponent visits snapshot)
  refine (hpart.nodup.sublist others_sublist).append (nodup_mainComponent.sublist hmain) ?_
  intro x hother hx
  have hx := hmain.subset hx
  obtain ⟨⟨component, i⟩, hmem, hother⟩ := List.mem_flatMap.1 hother
  have hget := List.mk_mem_zipIdx_iff_getElem?.1 hmem
  dsimp only at hother
  split_ifs at hother with hi
  · exact absurd hother List.not_mem_nil
  · exact hi (hpart.index_eq hget (getElem?_of_mem_mainComponent hx) hother hx)

/-! ### Well formed suggestions -/

/-- What is asked of a suggestion. -/
structure ScoredSuggestion.WellFormed (snapshot : SwarmSnapshot) (s : ScoredSuggestion F) : Prop where
  /-- It is for a peer that is not stale. -/
  target : s.targetNodeId ∈ snapshot.activeIds
  /-- It names at most three peers, -/
  length : s.suggestedPeers.length ≤ 3
  /-- none of them twice, -/
  nodup : s.suggestedPeers.Nodup
  /-- and each of them is not stale, another one than the target, and not adjacent to it. -/
  peers : ∀ peer ∈ s.suggestedPeers,
    peer ∈ snapshot.activeIds ∧ peer ≠ s.targetNodeId ∧ peer ∉ snapshot.adj s.targetNodeId

omit [Sub F] [NatCast F] in
theorem wellFormed_isolatedSuggestions {s : ScoredSuggestion F}
    (h : s ∈ isolatedSuggestions visits snapshot) : s.WellFormed snapshot := by
  have hpart : Partition _ _ (components visits snapshot) := partition_components
  obtain ⟨component, i, hget, -, nodeId, hnode, rfl⟩ := mem_isolatedSuggestions.1 h
  have hcomponent := List.mem_of_getElem? hget
  constructor
  case target => exact hpart.mem_of_mem hcomponent hnode
  case length => exact length_topBetweenness_le
  case nodup => exact nodup_topBetweenness nodup_scores
  case peers =>
    intro peer hpeer
    obtain ⟨hactive, -, hnot⟩ := mem_isolatedPeers hpeer
    refine ⟨hactive, fun heq => hnot (heq ▸ hnode), fun hadj => hnot ?_⟩
    -- a neighbour of the target would be in its component
    exact (hpart.reach component hcomponent nodeId hnode peer).2 (.single (mem_neighbors.2 hadj))

theorem wellFormed_mainSuggestion {nodeId : String} {s : ScoredSuggestion F}
    (hnode : nodeId ∈ snapshot.activeIds) (h : mainSuggestion visits snapshot nodeId = some s) :
    s.WellFormed snapshot := by
  obtain ⟨rfl, hpeers⟩ := mainSuggestion_eq_some h
  constructor
  case target => exact hnode
  case length => exact hpeers ▸ length_topBetweenness_le
  case nodup => exact hpeers ▸ nodup_topBetweenness nodup_scores
  case peers =>
    intro peer hpeer
    obtain ⟨hmem, hnot⟩ := mem_of_mem_topBetweenness (hpeers ▸ hpeer)
    obtain ⟨hne, hadj⟩ := not_or.1 (mt Finset.mem_insert.2 hnot)
    rw [betweenness, map_fst_scores, visits.mem] at hmem
    exact ⟨hmem, hne, hadj⟩

theorem wellFormed_of_mem {s : ScoredSuggestion F}
    (h : s ∈ (analyzeTopology visits snapshot now).suggestions) : s.WellFormed snapshot := by
  rcases mem_suggestions.1 h with h | ⟨nodeId, hnode, h⟩
  · exact wellFormed_isolatedSuggestions h
  · have hcomponent := List.mem_of_getElem? (getElem?_of_mem_mainComponent hnode)
    exact wellFormed_mainSuggestion (partition_components.mem_of_mem hcomponent hnode) h

variable (now) in
/-- A node outside the chosen component is suggested a node inside. -/
theorem exists_suggestion (hx : x ∈ snapshot.activeIds) (hmain : x ∉ mainComponent visits snapshot) :
    ∃ s ∈ (analyzeTopology (F := F) visits snapshot now).suggestions, s.targetNodeId = x ∧
      ∃ peer ∈ s.suggestedPeers, peer ∈ mainComponent visits snapshot := by
  have hpart : Partition _ _ (components visits snapshot) := partition_components
  obtain ⟨hget, -⟩ := getElem?_largestIdx visits hx
  obtain ⟨component, hcomponent, hmem⟩ := hpart.exists_mem hx
  obtain ⟨i, hi⟩ := List.mem_iff_getElem?.1 hcomponent
  have hne : i ≠ largestIdx visits snapshot := fun heq => by
    rw [heq, hget] at hi
    exact hmain (Option.some.inj hi ▸ hmem)
  -- the chosen component has a node, and no node of this component is in it
  obtain ⟨hub, hhub⟩ := List.exists_mem_of_ne_nil _ (hpart.ne_nil _ (List.mem_of_getElem? hget))
  have hhub_active := hpart.mem_of_mem (List.mem_of_getElem? hget) hhub
  have hhub_not : hub ∉ component := fun hc => hne (hpart.index_eq hi hget hc hhub)
  have hpeers : isolatedPeers (F := F) visits snapshot component i ≠ [] := by
    refine topBetweenness_ne_nil ?_ (mt List.mem_toFinset.1 hhub_not) (by decide)
    rw [map_fst_scores, visits.mem, Finset.mem_filter]
    exact ⟨hhub_active, hhub⟩
  obtain ⟨peer, hpeer⟩ := List.exists_mem_of_ne_nil _ hpeers
  refine ⟨_, mem_suggestions.2 (.inl (mem_isolatedSuggestions.2 ⟨component, i, hi, hne, x, hmem, rfl⟩)),
    rfl, peer, hpeer, (mem_isolatedPeers hpeer).2.1⟩

/-- **The suggestions are well formed**: so is each of them, no peer gets two, and every peer outside
the chosen component gets one. -/
theorem suggestions_wellFormed :
    (∀ s ∈ (analyzeTopology (F := F) visits snapshot now).suggestions, s.WellFormed snapshot) ∧
    ((analyzeTopology (F := F) visits snapshot now).suggestions.map fun s => s.targetNodeId).Nodup ∧
    ∀ x ∈ snapshot.activeIds, x ∉ mainComponent visits snapshot →
      ((analyzeTopology (F := F) visits snapshot now).suggestions.map
        fun s => s.targetNodeId).count x = 1 := by
  refine ⟨fun s => wellFormed_of_mem, nodup_targets, fun x hx hmain => ?_⟩
  obtain ⟨s, hs, rfl, -⟩ := exists_suggestion (F := F) now hx hmain
  exact List.count_eq_one_of_mem nodup_targets (List.mem_map_of_mem hs)

/-! ### Following the suggestions -/

namespace SwarmSnapshot

/-- The graph of the peers that are not stale. -/
def graph (snapshot : SwarmSnapshot) : SimpleGraph {node // node ∈ snapshot.activeIds} :=
  SimpleGraph.fromRel fun a b => b.1 ∈ snapshot.adj a.1

/-- The edges between the target of a suggestion and the peers it names. -/
def followed (snapshot : SwarmSnapshot) (suggestions : List (ScoredSuggestion F)) :
    SimpleGraph {node // node ∈ snapshot.activeIds} :=
  SimpleGraph.fromRel fun a b => ∃ s ∈ suggestions, s.targetNodeId = a.1 ∧ b.1 ∈ s.suggestedPeers

/-- What the analysis finds reachable is reachable in the graph. -/
theorem reachable_of_reach (hx : x ∈ snapshot.activeIds)
    (h : Reach (neighbors visits snapshot) x y) :
    ∃ hy : y ∈ snapshot.activeIds, snapshot.graph.Reachable ⟨x, hx⟩ ⟨y, hy⟩ := by
  induction h with
  | refl => exact ⟨hx, .refl _⟩
  | @tail y z _ hlink ih =>
    obtain ⟨hy, hreach⟩ := ih
    have hadj := mem_neighbors.1 hlink
    have hz : z ∈ snapshot.activeIds := (mem_adj.1 hadj).2.1
    refine ⟨hz, hreach.trans ?_⟩
    by_cases heq : y = z
    · subst heq
      exact .refl _
    · have hne : (⟨y, hy⟩ : {node // node ∈ snapshot.activeIds}) ≠ ⟨z, hz⟩ := fun h =>
        heq (Subtype.mk.inj h)
      exact SimpleGraph.Adj.reachable ⟨hne, .inl hadj⟩

end SwarmSnapshot

variable (visits now) in
/-- Every node is joined to one of the chosen component. -/
theorem exists_reachable_main (a : {node // node ∈ snapshot.activeIds}) :
    ∃ hub : {node // node ∈ snapshot.activeIds}, hub.1 ∈ mainComponent visits snapshot ∧
      (snapshot.followed (analyzeTopology (F := F) visits snapshot now).suggestions).Reachable a hub := by
  by_cases hmain : a.1 ∈ mainComponent visits snapshot
  · exact ⟨a, hmain, .refl a⟩
  · obtain ⟨s, hs, htarget, peer, hpeer, hin⟩ := exists_suggestion (F := F) now a.2 hmain
    have hactive := ((wellFormed_of_mem hs).peers peer hpeer).1
    have hne : a ≠ ⟨peer, hactive⟩ := fun h => hmain (h ▸ hin)
    exact ⟨⟨peer, hactive⟩, hin, SimpleGraph.Adj.reachable ⟨hne, .inl ⟨s, hs, htarget, hpeer⟩⟩⟩

variable (visits now) in
/-- A graph that has the edges of a snapshot, and those of its suggestions, joins all active peers. -/
theorem preconnected_of_followed {G : SimpleGraph {node // node ∈ snapshot.activeIds}}
    (hgraph : snapshot.graph ≤ G)
    (hfollowed : snapshot.followed (analyzeTopology (F := F) visits snapshot now).suggestions ≤ G) :
    G.Preconnected := by
  intro a b
  have hpart : Partition _ _ (components visits snapshot) := partition_components
  obtain ⟨hubA, hmainA, hreachA⟩ := exists_reachable_main (F := F) visits now a
  obtain ⟨hubB, hmainB, hreachB⟩ := exists_reachable_main (F := F) visits now b
  -- the two are joined within the component
  have hget := getElem?_of_mem_mainComponent hmainA
  have hreach := (hpart.reach _ (List.mem_of_getElem? hget) hubA.1 hmainA hubB.1).1 hmainB
  obtain ⟨_, hhubs⟩ := SwarmSnapshot.reachable_of_reach hubA.2 hreach
  have hout := hreachA.mono hfollowed
  have hback := hreachB.symm.mono hfollowed
  exact hout.trans ((hhubs.mono hgraph).trans hback)

/-- **Following the suggestions heals every partition**: any two peers that are not stale are then
joined by a path. -/
theorem preconnected_followed : (snapshot.graph ⊔
    snapshot.followed (analyzeTopology (F := F) visits snapshot now).suggestions).Preconnected :=
  preconnected_of_followed (F := F) visits now le_sup_left le_sup_right

end PodpingAlpha.Monitor
