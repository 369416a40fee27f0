import PodpingAlpha.Library.Components
import Mathlib.Logic.Function.Basic

/-!
# Betweenness

`bfs_component` and `compute_betweenness` of `gossip-monitor/src/topology.rs`. Both get the table of
neighbours as the list in which each node's set is visited. A score is an element of any type with
the operations of `f64` that the code uses.

* `PathSearch.toSearch_run` — the search that counts shortest paths meets the nodes that
  `bfs_component` meets, in the same order.
* `mem_stack_iff` — so it ends, having visited exactly the nodes that can be reached.
-/

namespace PodpingAlpha.Monitor

open Components (Search Reach)

universe u

/-- `bfs_component`: what is found from `start`, and what has then been visited. -/
def bfsComponent (neighbors : String → List String) (fuel : ℕ) (start : String)
    (visited : Finset String) : Search String :=
  (Search.init start visited).run neighbors fuel

variable {F : Type u} [Add F] [Mul F] [Div F] [OfScientific F]

/-- The search from one source of `compute_betweenness`. -/
structure PathSearch (F : Type u) where
  /-- The nodes visited, the last one first. -/
  stack : List String
  /-- The nodes that come just before a node on a shortest path. -/
  predecessors : String → List String
  /-- How many shortest paths there are. -/
  sigma : String → F
  /-- How far a node is, `-1` as long as it has not been found. -/
  dist : String → ℤ
  /-- The nodes that wait. -/
  queue : List String

namespace PathSearch

/-- The search begins at `s`. -/
def init (s : String) : PathSearch F where
  stack := []
  predecessors _ := []
  sigma := Function.update (fun _ => 0.0) s 1.0
  dist := Function.update (fun _ => -1) s 0
  queue := [s]

/-- `w` is found for the first time. -/
def find (dV : ℤ) (search : PathSearch F) (w : String) : PathSearch F :=
  if search.dist w < 0 then
    { search with dist := Function.update search.dist w (dV + 1), queue := search.queue ++ [w] }
  else search

/-- There is a shortest path to `w` by way of `v`. -/
def count (v : String) (dV : ℤ) (search : PathSearch F) (w : String) : PathSearch F :=
  if search.dist w = dV + 1 then
    { search with
      sigma := Function.update search.sigma w (search.sigma w + search.sigma v)
      predecessors := Function.update search.predecessors w (search.predecessors w ++ [v]) }
  else search

/-- One node is taken from the queue, and its neighbours are looked at. -/
def step (neighbors : String → List String) (search : PathSearch F) : PathSearch F :=
  match search.queue with
  | [] => search
  | v :: queue =>
    let dV := search.dist v
    (neighbors v).foldl (fun search w => (search.find dV w).count v dV w)
      { search with stack := v :: search.stack, queue := queue }

/-- The search goes on until the queue is empty. -/
def run (neighbors : String → List String) : ℕ → PathSearch F → PathSearch F
  | 0, search => search
  | fuel + 1, search =>
    if search.queue.isEmpty then search else run neighbors fuel (search.step neighbors)

/-- What `w` gives back to its predecessors. -/
def giveBack (search : PathSearch F) (delta : String → F) (w : String) : String → F :=
  (search.predecessors w).foldl (fun delta v =>
    let d := (search.sigma v / search.sigma w) * (1.0 + delta w)
    Function.update delta v (delta v + d)) delta

/-- The nodes give back in the order in which they leave the stack. -/
def backPropagate (search : PathSearch F) (s : String) (betweenness : String → F) : String → F :=
  (search.stack.foldl (fun (scores : (String → F) × (String → F)) w =>
    let delta := search.giveBack scores.1 w
    let betweenness := scores.2
    (delta, if w ≠ s then Function.update betweenness w (betweenness w + delta w) else betweenness))
    (fun _ => 0.0, betweenness)).2

end PathSearch

/-- `compute_betweenness`: the score of each node. -/
def computeBetweenness (nodes : List String) (neighbors : String → List String) : String → F :=
  let betweenness := nodes.foldl (fun (betweenness : String → F) s =>
    ((PathSearch.init s).run neighbors nodes.length).backPropagate s betweenness) fun _ => 0.0
  fun node => betweenness node / 2.0

/-! ### The two searches -/

namespace PathSearch

variable {neighbors : String → List String} {nodes : Finset String} {search : PathSearch F}
  {s w : String}

/-- A search that counts paths, without its counts. -/
def toSearch (nodes : Finset String) (search : PathSearch F) : Search String where
  visited := nodes.filter fun node => 0 ≤ search.dist node
  queue := search.queue
  component := search.stack.reverse

omit [Add F] [Mul F] [Div F] in
theorem toSearch_init (hs : s ∈ nodes) :
    (init s : PathSearch F).toSearch nodes = Search.init s ∅ := by
  have hvisited : (nodes.filter fun node => 0 ≤ (init s : PathSearch F).dist node) = {s} := by
    ext node
    rw [Finset.mem_filter, Finset.mem_singleton]
    by_cases h : node = s
    · simp [h, hs, init]
    · simp [h, init]
  rw [toSearch, hvisited]
  rfl

omit [Mul F] [Div F] [OfScientific F] in
theorem toSearch_count (v : String) (dV : ℤ) :
    (search.count v dV w).toSearch nodes = search.toSearch nodes := by
  unfold count
  split_ifs
  · rfl
  · rfl

omit [Add F] [Mul F] [Div F] [OfScientific F] in
theorem toSearch_find (hw : w ∈ nodes) {dV : ℤ} (hdV : 0 ≤ dV) :
    (search.find dV w).toSearch nodes = (search.toSearch nodes).meet w := by
  have hmem : w ∈ (search.toSearch nodes).visited ↔ ¬ search.dist w < 0 := by
    show w ∈ nodes.filter (fun node => 0 ≤ search.dist node) ↔ _
    rw [Finset.mem_filter, not_lt, and_iff_right hw]
  unfold find Search.meet
  by_cases h : search.dist w < 0
  · rw [if_pos h, if_neg (fun hvisited => hmem.1 hvisited h)]
    have hvisited : (nodes.filter fun node => 0 ≤ Function.update search.dist w (dV + 1) node) =
        insert w (nodes.filter fun node => 0 ≤ search.dist node) := by
      ext node
      rw [Finset.mem_filter, Finset.mem_insert, Finset.mem_filter]
      by_cases hnode : node = w
      · subst hnode
        simp only [Function.update_self, hw, true_and, true_or, iff_true]
        omega
      · simp [hnode]
    simp [toSearch, hvisited]
  · rw [if_neg h, if_pos (hmem.2 h)]

omit [Mul F] [Div F] [OfScientific F] in
theorem toSearch_foldl (v : String) {dV : ℤ} (hdV : 0 ≤ dV) {met : List String}
    (hmet : ∀ w ∈ met, w ∈ nodes) :
    (met.foldl (fun search w => (search.find dV w).count v dV w) search).toSearch nodes =
      met.foldl Search.meet (search.toSearch nodes) := by
  induction met generalizing search with
  | nil => rfl
  | cons w met ih =>
    obtain ⟨hw, hmet⟩ := List.forall_mem_cons.1 hmet
    rw [List.foldl_cons, List.foldl_cons, ih hmet, toSearch_count, toSearch_find hw hdV]

variable (hnodes : ∀ x ∈ nodes, ∀ y ∈ neighbors x, y ∈ nodes)
include hnodes

omit [Mul F] [Div F] [OfScientific F] in
/-- One step of the one search is one step of the other. -/
theorem toSearch_step (hqueue : ∀ v ∈ search.queue, v ∈ (search.toSearch nodes).visited) :
    (search.step neighbors).toSearch nodes = (search.toSearch nodes).step neighbors := by
  obtain ⟨stack, predecessors, sigma, dist, queue⟩ := search
  cases queue with
  | nil => rfl
  | cons v queue =>
    obtain ⟨hv, hdist⟩ := Finset.mem_filter.1 (hqueue v List.mem_cons_self)
    unfold step
    rw [toSearch_foldl v hdist (hnodes v hv)]
    simp [Search.step, toSearch]

omit [Mul F] [Div F] [OfScientific F] in
/-- **The two searches** meet the same nodes in the same order. -/
theorem toSearch_run (h : (search.toSearch nodes).Inv neighbors ∅ s) (fuel : ℕ) :
    (search.run neighbors fuel).toSearch nodes = (search.toSearch nodes).run neighbors fuel := by
  induction fuel generalizing search with
  | zero => rfl
  | succ fuel ih =>
    have hstep := toSearch_step (F := F) hnodes fun v hv =>
      (h.visited v).2 (.inr (List.mem_append_right _ hv))
    rw [run, Search.run, ← hstep]
    show (if search.queue.isEmpty then search else _).toSearch nodes = if search.queue.isEmpty then _ else _
    split_ifs
    · rfl
    · exact ih (hstep ▸ h.step)

omit [Mul F] [Div F] in
theorem toSearch_run_init (hs : s ∈ nodes) (fuel : ℕ) :
    ((init s : PathSearch F).run neighbors fuel).toSearch nodes = bfsComponent neighbors fuel s ∅ := by
  have hinv : ((init s : PathSearch F).toSearch nodes).Inv neighbors ∅ s :=
    toSearch_init (F := F) hs ▸ Search.inv_init (Finset.notMem_empty s)
  rw [toSearch_run hnodes hinv, toSearch_init hs, bfsComponent]

omit [Mul F] [Div F] in
/-- As much fuel as there are nodes empties the queue. -/
theorem queue_run (hs : s ∈ nodes) {fuel : ℕ} (hfuel : nodes.card ≤ fuel) :
    ((init s : PathSearch F).run neighbors fuel).queue = [] := by
  have hsearch := toSearch_run_init (F := F) hnodes hs fuel
  have hend : (bfsComponent neighbors fuel s ∅).queue = [] :=
    Search.queue_run (Search.inv_init (Finset.notMem_empty s)) hnodes hs (by omega)
  exact (congrArg Search.queue hsearch).trans hend

omit [Mul F] [Div F] in
/-- **What gives back**: each node that can be reached from the source, once. -/
theorem mem_stack_iff (hs : s ∈ nodes) (hsymm : ∀ x y, y ∈ neighbors x → x ∈ neighbors y) {fuel : ℕ}
    (hfuel : nodes.card ≤ fuel) :
    ((init s : PathSearch F).run neighbors fuel).stack.Nodup ∧
      (w ∈ ((init s : PathSearch F).run neighbors fuel).stack ↔ Reach neighbors s w) := by
  have hinv : (bfsComponent neighbors fuel s ∅).Inv neighbors ∅ s :=
    (Search.inv_init (Finset.notMem_empty s)).run fuel
  have hend := queue_run (F := F) hnodes hs hfuel
  rw [← toSearch_run_init (F := F) hnodes hs] at hinv
  have hreach := hinv.mem_component_iff hend hsymm (fun x hx => absurd hx (Finset.notMem_empty x)) (x := w)
  exact ⟨List.nodup_reverse.1 (List.nodup_append.1 hinv.nodup).1, List.mem_reverse.symm.trans hreach⟩

end PathSearch

end PodpingAlpha.Monitor
