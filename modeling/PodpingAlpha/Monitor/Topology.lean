import PodpingAlpha.Monitor.Betweenness
import PodpingAlpha.Monitor.Suggest
import Mathlib.Data.Finset.Union
import Mathlib.Data.List.MinMax

/-!
# The analysis of the topology

`gossip-monitor/src/topology.rs`: the graph of the peers that are not stale, its components, and the
peers that are suggested to nodes outside the largest component or badly connected within it. Hash
tables are visited in any order, one order for each time a table is visited. A score is an element
of any type with the operations and the order of `f64`; nothing is assumed of them, so that they may
round, overflow or be incomparable.

## The model

* `SwarmSnapshot.adj` — step 1.
* `components`, `largestIdx` — step 2.
* `scores` — step 3.
* `isolatedSuggestions`, `mainSuggestion` — steps 4 and 5.
* `analyzeTopology` — the whole, sorted.

## What is proved

* `SwarmSnapshot.mem_adj` — two peers are adjacent if one of them reports the other.
* `partition_components` — the components are those of this graph.
* `search_correct` — what the loop and one of its searches find, on any table.
* `getElem?_largestIdx` — the one that is chosen is there, and is a largest.
-/

namespace PodpingAlpha.Monitor

open Components (Reach Partition)

universe u

/-! ### Step 1 -/

/-- What the analysis reads of a `PeerState`. -/
structure PeerState where
  /-- Its node. -/
  nodeId : String
  /-- It has not been heard of for long. -/
  stale : Bool
  /-- The nodes it has reported as its neighbours. -/
  neighbors : List String

/-- What the analysis reads of a `SwarmSnapshot`. -/
structure SwarmSnapshot where
  /-- The peers known. -/
  peers : List PeerState

namespace SwarmSnapshot

/-- The peers that are not stale. -/
def active (snapshot : SwarmSnapshot) : List PeerState := snapshot.peers.filter fun p => !p.stale

/-- `active_ids`. -/
def activeIds (snapshot : SwarmSnapshot) : Finset String :=
  (snapshot.active.map PeerState.nodeId).toFinset

/-- A peer's report is entered at its neighbours and at itself. A node without an entry has no
neighbours. -/
def addPeer (activeIds : Finset String) (adj : String → Finset String) (peer : PeerState) :
    String → Finset String :=
  let neighbors := peer.neighbors.toFinset.filter (· ∈ activeIds)
  let adj := fun n => if n ∈ neighbors then insert peer.nodeId (adj n) else adj n
  Function.update adj peer.nodeId (adj peer.nodeId ∪ neighbors)

/-- `adj`. -/
def adj (snapshot : SwarmSnapshot) : String → Finset String :=
  snapshot.active.foldl (addPeer snapshot.activeIds) fun _ => ∅

end SwarmSnapshot

/-! ### The order of visits -/

/-- Where a hash table is visited. -/
inductive Site
  /-- `active_ids.iter()`. -/
  | activeIds
  /-- The neighbours of a node in `adj`. -/
  | adj (node : String)
  /-- `betweenness.iter()`. -/
  | betweenness
  /-- `main_betweenness`, which is built anew for each component. -/
  | mainBetweenness (component : ℕ)
  /-- The copy of a node's neighbours. -/
  | neighbors (node : String)

/-- An order in which to visit each table: every key comes up once. -/
structure Visits where
  /-- The keys in order. -/
  order : Site → Finset String → List String
  /-- No key comes up twice. -/
  nodup : ∀ site keys, (order site keys).Nodup
  /-- The keys come up, and nothing else. -/
  mem : ∀ site keys key, key ∈ order site keys ↔ key ∈ keys

instance : Nonempty Visits :=
  ⟨⟨fun _ keys => keys.toList, fun _ keys => keys.nodup_toList, fun _ _ _ => Finset.mem_toList⟩⟩

/-! ### Step 2 -/

section Graph

variable (visits : Visits) (snapshot : SwarmSnapshot)

/-- `nodes`. -/
def nodes : List String := visits.order .activeIds snapshot.activeIds

/-- The neighbours of a node in the order in which they are visited. -/
def neighbors (node : String) : List String := visits.order (.adj node) (snapshot.adj node)

/-- One turn of the loop over `nodes`: `bfsComponent` from a node that has not been visited. -/
def visitNode (neighbors : String → List String) (fuel : ℕ)
    (found : Finset String × List (List String)) (node : String) :
    Finset String × List (List String) :=
  if node ∈ found.1 then found
  else
    let search := bfsComponent neighbors fuel node found.1
    (search.visited, found.2 ++ [search.component])

/-- `components`: `bfsComponent` from every node that has not been visited. -/
def components : List (List String) :=
  Components.components (neighbors visits snapshot) (nodes visits snapshot).length
    (nodes visits snapshot)

/-- `largest_idx`: of several largest components the last one. -/
def largestIdx : ℕ :=
  ((components visits snapshot).zipIdx.reverse.argmax fun c => c.1.length).elim 0 Prod.snd

/-- `components[largest_idx]`. -/
def mainComponent : List String := (components visits snapshot).getD (largestIdx visits snapshot) []

end Graph

/-! ### Step 3 -/

/-- What is suggested, and how isolated the node is. -/
structure ScoredSuggestion (F : Type u) extends PeerSuggestion where
  /-- `isolation_score`. -/
  isolationScore : F

/-- `TopologyAnalysis`. -/
structure TopologyAnalysis (F : Type u) where
  /-- What is suggested, to the most isolated nodes first. -/
  suggestions : List (ScoredSuggestion F)
  /-- The nodes by their betweenness. -/
  nodeBetweenness : List (String × F)
  /-- When it was made, in seconds. -/
  timestamp : UInt64

/-- `sort_by`, the greatest score first. -/
def descending {F : Type u} {α : Type*} [LT F] [DecidableLT F] (score : α → F) (items : List α) :
    List α :=
  items.mergeSort fun a b => !decide (score a < score b)

/-- `top_betweenness` on a table as it is visited. -/
def topBetweenness {F : Type u} [LT F] [DecidableLT F] (betweenness : List (String × F))
    (exclude : Finset String) (count : ℕ) : List String :=
  let candidates := betweenness.filter fun entry => entry.1 ∉ exclude
  ((descending Prod.snd candidates).take count).map Prod.fst

section Suggestions

variable {F : Type u} [Add F] [Sub F] [Mul F] [Div F] [NatCast F] [OfScientific F] [LT F]
  [DecidableLT F]
variable (visits : Visits) (snapshot : SwarmSnapshot)

/-- The scores of the given nodes, as a table is visited. -/
def scores (site : Site) (keys : Finset String) : List (String × F) :=
  (visits.order site keys).map fun key =>
    (key, computeBetweenness (nodes visits snapshot) (neighbors visits snapshot) key)

/-- `betweenness`. -/
def betweenness : List (String × F) := scores visits snapshot .betweenness snapshot.activeIds

/-! ### Step 4 -/

/-- `suggested`: nodes of the largest component, to those of the `i`-th component. -/
def isolatedPeers (component : List String) (i : ℕ) : List String :=
  let exclude := component.toFinset
  let mainBetweenness := scores (F := F) visits snapshot (.mainBetweenness i)
    (snapshot.activeIds.filter (· ∈ mainComponent visits snapshot))
  topBetweenness mainBetweenness exclude 3

/-- What is suggested to the nodes outside the largest component. -/
def isolatedSuggestions : List (ScoredSuggestion F) :=
  (components visits snapshot).zipIdx.flatMap fun (component, i) =>
    if i = largestIdx visits snapshot then []
    else
      component.map fun nodeId =>
        { targetNodeId := nodeId, suggestedPeers := isolatedPeers (F := F) visits snapshot component i,
          reason := "isolated_clique", isolationScore := 1.0 }

/-! ### Step 5 -/

/-- How many pairs of the listed nodes are adjacent. -/
def edgesAmongNeighbors : List String → ℕ
  | [] => 0
  | neighbor :: rest =>
    rest.countP (fun other => other ∈ snapshot.adj neighbor) + edgesAmongNeighbors rest

/-- `cluster_density`: the edges among the neighbours, of all that are possible. -/
def clusterDensity (nodeId : String) : F :=
  let neighborCount := (snapshot.adj nodeId).card
  let maxEdges := neighborCount * (neighborCount - 1) / 2
  let neighborList := visits.order (.neighbors nodeId) (snapshot.adj nodeId)
  if 0 < maxEdges then (edgesAmongNeighbors snapshot neighborList : F) / (maxEdges : F) else 0.0

/-- `two_hop`: the neighbours of the neighbours, less the node and its neighbours. -/
def twoHop (nodeId : String) : Finset String :=
  (snapshot.adj nodeId).biUnion fun neighbor =>
    (snapshot.adj neighbor).filter fun sn => sn ≠ nodeId ∧ sn ∉ snapshot.adj nodeId

/-- `external_reach`: the nodes at two hops, of all others. -/
def externalReach (nodeId : String) : F :=
  let totalKnown := (nodes visits snapshot).length
  if 1 < totalKnown then ((twoHop snapshot nodeId).card : F) / ((totalKnown - 1 : ℕ) : F) else 0.0

/-- What is suggested to a node of the largest component: something if it has fewer than two
neighbours, or if these know each other and hardly anyone else. -/
def mainSuggestion (nodeId : String) : Option (ScoredSuggestion F) :=
  let neighborCount := (snapshot.adj nodeId).card
  let suggested :=
    topBetweenness (betweenness (F := F) visits snapshot) (insert nodeId (snapshot.adj nodeId)) 3
  if neighborCount < 2 then
    some
      { targetNodeId := nodeId, suggestedPeers := suggested, reason := "low_connectivity",
        isolationScore := if neighborCount = 0 then 1.0 else 0.5 }
  else
    let density : F := clusterDensity visits snapshot nodeId
    let reach : F := externalReach visits snapshot nodeId
    if 0.8 < density ∧ reach < 0.3 then
      some
        { targetNodeId := nodeId, suggestedPeers := suggested, reason := "isolated_clique",
          isolationScore := density * (1.0 - reach) }
    else none

/-! ### Step 6 -/

/-- `analyze_topology` at time `now`. -/
def analyzeTopology (now : UInt64) : TopologyAnalysis F :=
  if (nodes visits snapshot).isEmpty then
    { suggestions := [], nodeBetweenness := [], timestamp := now }
  else
    let suggestions := isolatedSuggestions visits snapshot ++
      (mainComponent visits snapshot).filterMap (mainSuggestion visits snapshot)
    { suggestions := descending ScoredSuggestion.isolationScore suggestions
      nodeBetweenness := descending Prod.snd (betweenness visits snapshot)
      timestamp := now }

end Suggestions

/-! ### The graph -/

namespace SwarmSnapshot

variable {snapshot : SwarmSnapshot} {x y : String}

theorem mem_active {peer : PeerState} :
    peer ∈ snapshot.active ↔ peer ∈ snapshot.peers ∧ peer.stale = false := by simp [active]

/-- The active ids are those of the peers that are not stale. -/
theorem mem_activeIds_iff :
    x ∈ snapshot.activeIds ↔ ∃ peer ∈ snapshot.peers, peer.stale = false ∧ peer.nodeId = x := by
  simp [activeIds, mem_active, and_assoc]

/-- The peer of node `x` is not stale and reports `y`. -/
def Reports (snapshot : SwarmSnapshot) (x y : String) : Prop :=
  ∃ peer ∈ snapshot.active, peer.nodeId = x ∧ y ∈ peer.neighbors

theorem Reports.mem_activeIds (h : snapshot.Reports x y) : x ∈ snapshot.activeIds := by
  obtain ⟨peer, hpeer, hid, -⟩ := h
  obtain ⟨hmem, hstale⟩ := mem_active.1 hpeer
  exact mem_activeIds_iff.2 ⟨peer, hmem, hstale, hid⟩

/-- What one report adds. -/
theorem mem_addPeer {ids : Finset String} {adj : String → Finset String} {peer : PeerState} :
    y ∈ addPeer ids adj peer x ↔ y ∈ adj x ∨ (peer.nodeId = x ∧ y ∈ peer.neighbors ∧ y ∈ ids) ∨
      (peer.nodeId = y ∧ x ∈ peer.neighbors ∧ x ∈ ids) := by
  have hneighbors : ∀ n, n ∈ peer.neighbors.toFinset.filter (· ∈ ids) ↔ n ∈ peer.neighbors ∧ n ∈ ids :=
    fun n => by rw [Finset.mem_filter, List.mem_toFinset]
  -- the report as it is entered at the neighbours
  have hlinked : y ∈ (if x ∈ peer.neighbors.toFinset.filter (· ∈ ids) then insert peer.nodeId (adj x)
      else adj x) ↔ y ∈ adj x ∨ (peer.nodeId = y ∧ x ∈ peer.neighbors ∧ x ∈ ids) := by
    rw [← hneighbors]
    split_ifs with hmem
    · rw [Finset.mem_insert, or_comm, eq_comm, and_iff_left hmem]
    · rw [or_iff_left fun h => hmem h.2]
  unfold addPeer
  by_cases hx : peer.nodeId = x
  · subst hx
    rw [Function.update_self, Finset.mem_union, hlinked, hneighbors, or_assoc,
      and_iff_right (rfl : peer.nodeId = peer.nodeId)]
    exact or_congr_right or_comm
  · rw [Function.update_of_ne (Ne.symm hx), hlinked]
    exact or_congr_right (or_iff_right fun h => hx h.1).symm

/-- What a list of reports adds. -/
theorem mem_foldl_addPeer {ids : Finset String} {adj : String → Finset String}
    {peers : List PeerState} : y ∈ peers.foldl (addPeer ids) adj x ↔ y ∈ adj x ∨
      (∃ peer ∈ peers, peer.nodeId = x ∧ y ∈ peer.neighbors ∧ y ∈ ids) ∨
      ∃ peer ∈ peers, peer.nodeId = y ∧ x ∈ peer.neighbors ∧ x ∈ ids := by
  induction peers generalizing adj with
  | nil => simp
  | cons peer peers ih =>
    simp only [List.foldl_cons, ih, mem_addPeer, List.exists_mem_cons_iff, or_assoc, or_left_comm]

/-- **The graph**: two peers that are not stale are adjacent if one of them reports the other. -/
theorem mem_adj : y ∈ snapshot.adj x ↔ x ∈ snapshot.activeIds ∧ y ∈ snapshot.activeIds ∧
    (snapshot.Reports x y ∨ snapshot.Reports y x) := by
  rw [adj, mem_foldl_addPeer]
  constructor
  · rintro (h | ⟨peer, hpeer, hid, hreport, hmem⟩ | ⟨peer, hpeer, hid, hreport, hmem⟩)
    · exact absurd h (Finset.notMem_empty y)
    · have h : snapshot.Reports x y := ⟨peer, hpeer, hid, hreport⟩
      exact ⟨h.mem_activeIds, hmem, .inl h⟩
    · have h : snapshot.Reports y x := ⟨peer, hpeer, hid, hreport⟩
      exact ⟨hmem, h.mem_activeIds, .inr h⟩
  · rintro ⟨hx, hy, ⟨peer, hpeer, hid, hreport⟩ | ⟨peer, hpeer, hid, hreport⟩⟩
    · exact .inr (.inl ⟨peer, hpeer, hid, hreport, hy⟩)
    · exact .inr (.inr ⟨peer, hpeer, hid, hreport, hx⟩)

theorem mem_adj_comm : y ∈ snapshot.adj x ↔ x ∈ snapshot.adj y := by
  rw [mem_adj, mem_adj]
  tauto

end SwarmSnapshot

/-! ### The components -/

section Partition

variable {visits : Visits} {snapshot : SwarmSnapshot} {x y : String}

theorem mem_nodes : x ∈ nodes visits snapshot ↔ x ∈ snapshot.activeIds := visits.mem _ _ x

theorem mem_neighbors : y ∈ neighbors visits snapshot x ↔ y ∈ snapshot.adj x := visits.mem _ _ y

theorem length_nodes : (nodes visits snapshot).length = snapshot.activeIds.card := by
  have hset : (nodes visits snapshot).toFinset = snapshot.activeIds := by
    ext x
    rw [List.mem_toFinset, mem_nodes]
  have hnodup : (nodes visits snapshot).Nodup := visits.nodup _ _
  rw [← hset, List.toFinset_card_of_nodup hnodup]

/-- **The components** are those of the graph. -/
theorem partition_components :
    Partition (neighbors visits snapshot) snapshot.activeIds (components visits snapshot) := by
  refine Components.partition_components (fun x y hy => ?_) (fun x _ y hy => ?_)
    length_nodes.ge fun x => mem_nodes
  · exact mem_neighbors.2 (SwarmSnapshot.mem_adj_comm.1 (mem_neighbors.1 hy))
  · exact (SwarmSnapshot.mem_adj.1 (mem_neighbors.1 hy)).2.1

/-- They are what the loop over `nodes` finds. -/
theorem components_eq_foldl : components visits snapshot = ((nodes visits snapshot).foldl
    (visitNode (neighbors visits snapshot) (nodes visits snapshot).length) (∅, [])).2 := rfl

/-- **The search for components** on any table of neighbours: every search of the loop ends, the lists
are the classes of "can be reached", and one search finds what can be reached and marks just that. -/
theorem search_correct (neighbors : String → List String) (nodes : List String)
    (hnodes : ∀ x y, y ∈ neighbors x → x ∈ nodes ∧ y ∈ nodes)
    (hsymm : ∀ x y, y ∈ neighbors x → x ∈ neighbors y) :
    (∀ done node todo, nodes = done ++ node :: todo →
      let found := done.foldl (visitNode neighbors nodes.length) (∅, [])
      node ∉ found.1 → (bfsComponent neighbors nodes.length node found.1).queue = []) ∧
    Partition neighbors nodes.toFinset
      (nodes.foldl (visitNode neighbors nodes.length) (∅, [])).2 ∧
    ∀ start visited, start ∉ visited → (∀ x ∈ visited, ∀ y ∈ neighbors x, y ∈ visited) →
      ∀ fuel, nodes.length < fuel →
        let search := bfsComponent neighbors fuel start visited
        search.queue = [] ∧ search.component.Nodup ∧
          (∀ x, x ∈ search.component ↔ Reach neighbors start x) ∧
          visited ⊆ search.visited ∧
          ∀ x, x ∈ search.visited ∧ x ∉ visited ↔ Reach neighbors start x := by
  have hclosed : ∀ x ∈ nodes.toFinset, ∀ y ∈ neighbors x, y ∈ nodes.toFinset := fun x _ y hy =>
    List.mem_toFinset.2 (hnodes x y hy).2
  have hfuel : nodes.toFinset.card ≤ nodes.length := nodes.toFinset_card_le
  refine ⟨?ends, ?parts, ?search⟩
  case ends =>
    intro done node todo hlist found hnew
    have hdone : ∀ x ∈ done, x ∈ nodes.toFinset := fun x hx =>
      List.mem_toFinset.2 (hlist ▸ List.mem_append_left _ hx)
    have hnode : node ∈ nodes.toFinset :=
      List.mem_toFinset.2 (hlist ▸ List.mem_append_right _ List.mem_cons_self)
    exact Components.Search.queue_run (Components.Search.inv_init hnew) hclosed hnode (by omega)
  case parts => exact Components.partition_components hsymm hclosed hfuel fun x => List.mem_toFinset.symm
  case search =>
    intro start visited hstart hvisited fuel hlt search
    -- a start without neighbours need not be one of the nodes
    have hwider : ∀ x ∈ insert start nodes.toFinset, ∀ y ∈ neighbors x,
        y ∈ insert start nodes.toFinset := fun x _ y hy =>
      Finset.mem_insert_of_mem (List.mem_toFinset.2 (hnodes x y hy).2)
    have hcard := Finset.card_insert_le start nodes.toFinset
    have hinv : search.Inv neighbors visited start := (Components.Search.inv_init hstart).run fuel
    have hend : search.queue = [] := Components.Search.queue_run (Components.Search.inv_init hstart)
      hwider (Finset.mem_insert_self start _) (by omega)
    have hreach : ∀ x, x ∈ search.component ↔ Reach neighbors start x := fun x =>
      hinv.mem_component_iff hend hsymm hvisited
    have hfound : search.component ++ search.queue = search.component := by rw [hend, List.append_nil]
    have hmem : ∀ x, x ∈ search.visited ↔ x ∈ visited ∨ x ∈ search.component := fun x =>
      hfound ▸ hinv.visited x
    refine ⟨hend, hfound ▸ hinv.nodup, hreach, fun x hx => (hmem x).2 (.inl hx), fun x => ?_⟩
    rw [hmem, ← hreach]
    exact ⟨fun ⟨hx, hnot⟩ => hx.resolve_left hnot,
      fun hx => ⟨.inr hx, hinv.fresh x (List.mem_append_left _ hx)⟩⟩

/-- A pair and a single node. -/
theorem search_correct_pair :
    Partition (fun x => if x = "a" then ["b"] else if x = "b" then ["a"] else [])
      ["c", "a", "b"].toFinset [["c"], ["a", "b"]] := by
  have hcorrect := search_correct
    (fun x => if x = "a" then ["b"] else if x = "b" then ["a"] else []) ["c", "a", "b"]
    (fun x y hy => by split_ifs at hy <;> simp_all) (fun x y hy => by split_ifs at hy <;> simp_all)
  exact hcorrect.2.1

variable (visits) in
/-- A node that is not stale gives rise to a largest component. -/
theorem getElem?_largestIdx (h : x ∈ snapshot.activeIds) :
    (components visits snapshot)[largestIdx visits snapshot]? = some (mainComponent visits snapshot) ∧
      ∀ c ∈ components visits snapshot, c.length ≤ (mainComponent visits snapshot).length := by
  have hpart : Partition _ _ (components visits snapshot) := partition_components
  obtain ⟨c, hc, -⟩ := hpart.exists_mem h
  have hne : (components visits snapshot).zipIdx.reverse ≠ [] := by
    simpa using List.ne_nil_of_mem hc
  obtain ⟨⟨main, i⟩, hmain⟩ :=
    Option.ne_none_iff_exists'.1 (mt (List.argmax_eq_none (f := fun c => c.1.length)).1 hne)
  have hidx : largestIdx visits snapshot = i := by rw [largestIdx, hmain, Option.elim_some]
  have hget : (components visits snapshot)[i]? = some main :=
    List.mk_mem_zipIdx_iff_getElem?.1 (List.mem_reverse.1 (List.argmax_mem hmain))
  have heq : mainComponent visits snapshot = main := by
    rw [mainComponent, hidx, List.getD_eq_getElem?_getD, hget, Option.getD_some]
  refine ⟨by rw [hidx, heq, hget], fun d hd => ?_⟩
  obtain ⟨j, hj⟩ := List.mem_iff_getElem?.1 hd
  have hmem := List.mem_reverse.2 (List.mk_mem_zipIdx_iff_getElem?.2 hj)
  rw [heq]
  exact List.le_of_mem_argmax (f := fun c : List String × ℕ => c.1.length) hmem hmain

end Partition

end PodpingAlpha.Monitor
