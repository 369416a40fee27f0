import PodpingAlpha.Library.Geodesics
import PodpingAlpha.Monitor.PathTables
import Mathlib.Tactic.NormNum

/-!
# Betweenness is centrality

`compute_betweenness` of `gossip-monitor/src/topology.rs`, with numbers that do not round, computes
betweenness centrality: it is Brandes' algorithm.

## The model

The search and the back-propagation are those of `PathSearch`, with rational numbers. The graph is
that of the table of neighbours, without its self-loops. The order of the nodes and of the neighbours
of each is any.

## What is proved

* `PathSearch.scanned_foldl` — what the loop over the neighbours of a node does.
* `PathSearch.Explored.step`, `PathSearch.explored_run` — the search finds the nodes by their distance,
  with their predecessors and the numbers of shortest paths.
* `PathSearch.Solved.foldl_popStack`, `PathSearch.Solved.backPropagate` — a node that leaves the stack
  has all that depends on it.
* `betweenness_eq_centrality` — the function ends without a panic, and what it returns is the
  centrality of each node.
* `SwarmSnapshot.betweenness_eq` — so are the scores of the analysis.
-/

namespace PodpingAlpha.Monitor

open Geodesics SimpleGraph

namespace PathSearch

/-! ### A scan of the neighbours -/

/-- After the scan of some neighbours of `v` a shortest path to `x` by way of `v` is known. -/
def Steps (search : PathSearch ℚ) (v x : String) : Prop :=
  search.dist x < 0 ∨ search.dist x = search.dist v + 1

instance (search : PathSearch ℚ) (v x : String) : Decidable (search.Steps v x) :=
  inferInstanceAs (Decidable (_ ∨ _))

/-- What the scan of some neighbours of `v` does. -/
structure Scanned (v : String) (met : List String) (search t : PathSearch ℚ) : Prop where
  /-- Nothing more is visited. -/
  stack : t.stack = search.stack
  /-- What had not been found waits. -/
  queue : t.queue = search.queue ++ met.filter fun w => search.dist w < 0
  /-- It is one step further than `v`. -/
  dist : ∀ x, t.dist x = if x ∈ met ∧ search.dist x < 0 then search.dist v + 1 else search.dist x
  /-- The paths to `v` go on. -/
  sigma : ∀ x, t.sigma x =
    if x ∈ met ∧ search.Steps v x then search.sigma x + search.sigma v else search.sigma x
  /-- By way of `v`. -/
  predecessors : ∀ x, t.predecessors x =
    if x ∈ met ∧ search.Steps v x then search.predecessors x ++ [v] else search.predecessors x

variable {search t u : PathSearch ℚ} {v w x : String} {met : List String}

theorem scanned_nil : Scanned v [] search search := by
  constructor <;> simp

theorem scanned_look (search : PathSearch ℚ) (v w : String) :
    Scanned v [w] search ((search.find (search.dist v) w).count v (search.dist v) w) := by
  by_cases hnew : search.dist w < 0
  · have hdist : Function.update search.dist w (search.dist v + 1) w = search.dist v + 1 :=
      Function.update_self _ _ _
    rw [find, if_pos hnew, count, if_pos hdist]
    constructor
    case stack => rfl
    case queue => simp [hnew]
    all_goals
      intro x
      by_cases hx : x = w
      · subst hx
        simp [hnew, Steps]
      · simp [hx]
  · rw [find, if_neg hnew]
    by_cases hnext : search.dist w = search.dist v + 1
    · rw [count, if_pos hnext]
      constructor
      case stack => rfl
      case queue => simp [hnew]
      all_goals
        intro x
        by_cases hx : x = w
        · subst hx
          simp [hnext, Steps]
        · simp [hx]
    · rw [count, if_neg hnext]
      constructor
      case stack => rfl
      case queue => simp [hnew]
      all_goals
        intro x
        by_cases hx : x = w
        · subst hx
          simp [hnext, hnew, Steps]
        · simp [hx]

/-- The scan of `v` itself changes nothing about `v`. -/
theorem Scanned.self (h : Scanned v met search t) (hv : 0 ≤ search.dist v) :
    t.dist v = search.dist v ∧ t.sigma v = search.sigma v := by
  have hnot : ¬search.Steps v v := by
    rintro (hlt | heq) <;> omega
  exact ⟨(h.dist v).trans (if_neg fun hmem => by omega), (h.sigma v).trans (if_neg fun hmem => hnot hmem.2)⟩

/-- A table that is changed under one key, and in the same way under some others. -/
theorem changed_cons {α : Type} {f g k : String → α} (change : α → α) {P Q : String → Prop}
    [DecidablePred P] [DecidablePred Q] (hw : w ∉ met) (hsame : ∀ x ∈ met, (Q x ↔ P x))
    (hfirst : ∀ x, g x = if x ∈ [w] ∧ P x then change (f x) else f x)
    (hrest : ∀ x, k x = if x ∈ met ∧ Q x then change (g x) else g x) (x : String) :
    k x = if x ∈ w :: met ∧ P x then change (f x) else f x := by
  rw [hrest x]
  by_cases hx : x = w
  · subst hx
    simp [hw, hfirst x]
  · by_cases hmem : x ∈ met
    · simp [hx, hmem, hsame x hmem, hfirst x]
    · simp [hx, hmem, hfirst x]

/-- One neighbour after another. -/
theorem Scanned.cons (h : Scanned v [w] search u) (h' : Scanned v met u t) (hw : w ∉ met)
    (hv : 0 ≤ search.dist v) : Scanned v (w :: met) search t := by
  obtain ⟨hdist, hsigma⟩ := h.self hv
  have hother : ∀ x ∈ met, u.dist x = search.dist x := by
    intro x hx
    have hne : x ≠ w := fun heq => hw (heq ▸ hx)
    simp [h.dist x, hne]
  have hsteps : ∀ x ∈ met, (u.Steps v x ↔ search.Steps v x) := by
    intro x hx
    rw [Steps, Steps, hother x hx, hdist]
  constructor
  case stack => rw [h'.stack, h.stack]
  case queue =>
    have hnew : (met.filter fun w => u.dist w < 0) = met.filter fun w => search.dist w < 0 :=
      List.filter_congr fun x hx => by rw [hother x hx]
    rw [h'.queue, h.queue, hnew, List.append_assoc, ← List.filter_append, List.singleton_append]
  case dist =>
    have hnew : ∀ x ∈ met, (u.dist x < 0 ↔ search.dist x < 0) := fun x hx => by rw [hother x hx]
    refine changed_cons (fun _ => search.dist v + 1) hw hnew h.dist fun x => ?_
    rw [h'.dist x, hdist]
  case sigma =>
    refine changed_cons (· + search.sigma v) hw hsteps h.sigma fun x => ?_
    rw [h'.sigma x, hsigma]
  case predecessors => exact changed_cons (· ++ [v]) hw hsteps h.predecessors h'.predecessors

/-- All of them. -/
theorem scanned_foldl (hmet : met.Nodup) (hv : 0 ≤ search.dist v) :
    Scanned v met search
      (met.foldl (fun t w => (t.find (search.dist v) w).count v (search.dist v) w) search) := by
  induction met generalizing search with
  | nil => exact scanned_nil
  | cons w met ih =>
    obtain ⟨hw, hmet⟩ := List.nodup_cons.1 hmet
    have hfirst := scanned_look search v w
    obtain ⟨hdist, -⟩ := hfirst.self hv
    have hrest := ih hmet (by rwa [hdist])
    rw [hdist] at hrest
    exact hfirst.cons hrest hw hv

/-! ### Distances and numbers of paths -/

/-- The table lists the neighbours in the graph, and perhaps a node as its own neighbour. -/
structure Lists (G : SimpleGraph String) (neighbors : String → List String) : Prop where
  /-- Every neighbour. -/
  adj : ∀ x y, G.Adj x y ↔ x ≠ y ∧ y ∈ neighbors x
  /-- Once. -/
  nodup : ∀ x, (neighbors x).Nodup

/-- What has been found, in the order in which it was. -/
def found (search : PathSearch ℚ) : List String := search.stack.reverse ++ search.queue

variable {G : SimpleGraph String} [LocallyFinite G] {neighbors : String → List String} {s : String}
  {queue : List String}

variable (G s) in
/-- What holds of a search from `s`. -/
structure Explored (search : PathSearch ℚ) : Prop where
  /-- Nothing is found twice. -/
  nodup : search.found.Nodup
  /-- The source is found. -/
  source : s ∈ search.found
  /-- What is found can be reached. -/
  reach : ∀ x ∈ search.found, G.Reachable s x
  /-- Its distance is known. -/
  dist : ∀ x, search.dist x = if x ∈ search.found then (G.dist s x : ℤ) else -1
  /-- What is near is found first. -/
  sorted : search.found.Pairwise fun x y => G.dist s x ≤ G.dist s y
  /-- What waits is in one layer or two. -/
  near : ∀ x ∈ search.found, ∀ y ∈ search.queue, G.dist s x ≤ G.dist s y + 1
  /-- The neighbours of what has been visited are found. -/
  closed : ∀ x ∈ search.stack, ∀ y, G.Adj x y → y ∈ search.found
  /-- No predecessor is listed twice. -/
  distinct : ∀ w, (search.predecessors w).Nodup
  /-- Those that have been visited are listed. -/
  predecessors : ∀ w v, v ∈ search.predecessors w ↔ v ∈ search.stack ∧ v ∈ preds G s w
  /-- Their paths are counted. -/
  sigma : ∀ w, search.sigma w =
    (if w = s then 1 else 0) + ((search.predecessors w).map fun v => (pathCount G s v : ℚ)).sum

theorem explored_init : Explored G s (init s) where
  nodup := List.nodup_singleton s
  source := List.mem_singleton_self s
  reach := fun x hx => by
    obtain rfl := List.mem_singleton.1 hx
    exact Reachable.refl x
  dist := fun x => by
    by_cases hx : x = s
    · simp [hx, init, found]
    · simp [hx, init, found]
  sorted := List.pairwise_singleton _ s
  near := fun x hx y hy => by
    obtain rfl := List.mem_singleton.1 hx
    obtain rfl := List.mem_singleton.1 hy
    omega
  closed := fun x hx => absurd hx List.not_mem_nil
  distinct := fun w => List.nodup_nil
  predecessors := fun w v => by simp [init]
  sigma := fun w => by
    by_cases hw : w = s
    · subst hw
      simp [init]
      norm_num
    · simp [hw, init]
      norm_num

/-- The next node is the nearest of those that wait. -/
theorem Explored.head_le (h : Explored G s search) (hqueue : search.queue = v :: queue)
    (hx : x ∈ search.queue) : G.dist s v ≤ G.dist s x := by
  have hsorted := (List.pairwise_append.1 h.sorted).2.1
  rw [hqueue] at hsorted hx
  obtain rfl | hx := List.mem_cons.1 hx
  · exact le_rfl
  · exact (List.pairwise_cons.1 hsorted).1 x hx

theorem mem_found : x ∈ search.found ↔ x ∈ search.stack ∨ x ∈ search.queue := by
  rw [found, List.mem_append, List.mem_reverse]

/-- What is nearer than the next node has been visited, if it is found. -/
theorem Explored.visited_of_lt (h : Explored G s search) (hqueue : search.queue = v :: queue)
    (hx : x ∈ search.found) (hlt : G.dist s x < G.dist s v) : x ∈ search.stack := by
  refine (mem_found.1 hx).resolve_right fun hwaits => ?_
  have hle := h.head_le hqueue hwaits
  omega

/-- Whatever is no further than the next node is found. -/
theorem Explored.mem_of_dist_le (h : Explored G s search) (hqueue : search.queue = v :: queue)
    (hx : G.Reachable s x) (hle : G.dist s x ≤ G.dist s v) : x ∈ search.found := by
  induction hn : G.dist s x generalizing x with
  | zero =>
    obtain rfl := hx.dist_eq_zero_iff.1 hn
    exact h.source
  | succ n ih =>
    have hne : s ≠ x := by
      rintro rfl
      rw [dist_self] at hn
      omega
    obtain ⟨u, hu⟩ := exists_mem_preds hx hne
    obtain ⟨hadj, hdist⟩ := mem_preds.1 hu
    have hu : u ∈ search.found := ih (hx.trans hadj.symm.reachable) (by omega) (by omega)
    exact h.closed u (h.visited_of_lt hqueue hu (by omega)) x hadj

/-- What comes just before the next node has been visited. -/
theorem Explored.preds_visited (h : Explored G s search) (hqueue : search.queue = v :: queue)
    {u : String} (hu : u ∈ preds G s v) : u ∈ search.stack := by
  obtain ⟨hadj, hdist⟩ := mem_preds.1 hu
  have hv : G.Reachable s v := h.reach v (mem_found.2 (.inr (hqueue ▸ List.mem_cons_self)))
  have hu : u ∈ search.found :=
    h.mem_of_dist_le hqueue (hv.trans hadj.symm.reachable) (by omega)
  exact h.visited_of_lt hqueue hu (by omega)

/-- Then all its paths are counted. -/
theorem Explored.sigma_eq (h : Explored G s search) (hx : G.Reachable s x)
    (hall : ∀ u ∈ preds G s x, u ∈ search.stack) : search.sigma x = pathCount G s x := by
  have hset : (search.predecessors x).toFinset = preds G s x := by
    ext u
    rw [List.mem_toFinset, h.predecessors]
    exact and_iff_right_of_imp (hall u)
  rw [h.sigma, ← List.sum_toFinset _ (h.distinct x), hset]
  by_cases hs : x = s
  · subst hs
    have hnone : preds G x x = ∅ := by
      ext u
      simp [mem_preds]
    simp [hnone]
  · rw [if_neg hs, zero_add, pathCount_eq_sum hx (Ne.symm hs)]
    push_cast
    rfl

variable (G s) in
/-- What a step does that visits `v` and finds some nodes. -/
structure Expanded (v : String) (queue new : List String) (search t : PathSearch ℚ) : Prop where
  /-- `v` was the next one. -/
  next : search.queue = v :: queue
  /-- It is visited. -/
  stack : t.stack = v :: search.stack
  /-- What is found waits. -/
  queue : t.queue = queue ++ new
  /-- Once. -/
  nodup : new.Nodup
  /-- It is found for the first time, one step further. -/
  fresh : ∀ x ∈ new, x ∉ search.found ∧ G.Adj v x ∧ G.dist s x = G.dist s v + 1
  /-- All neighbours are found. -/
  closed : ∀ x, G.Adj v x → x ∈ search.found ∨ x ∈ new
  /-- Distances. -/
  dist : ∀ x, t.dist x = if x ∈ new then search.dist v + 1 else search.dist x
  /-- The paths to `v` go on. -/
  sigma : ∀ x, t.sigma x =
    if v ∈ preds G s x then search.sigma x + search.sigma v else search.sigma x
  /-- By way of `v`. -/
  predecessors : ∀ x, t.predecessors x =
    if v ∈ preds G s x then search.predecessors x ++ [v] else search.predecessors x

/-- What has not been found has no distance. -/
theorem Explored.dist_neg_iff (h : Explored G s search) : search.dist x < 0 ↔ x ∉ search.found := by
  rw [h.dist x]
  split_ifs with hx
  · exact iff_of_false (by omega) fun hnot => hnot hx
  · exact iff_of_true (by omega) hx

/-- No neighbour of the next node that has not been found is as near as it. -/
theorem Explored.next_layer (hlists : Lists G neighbors) (h : Explored G s search)
    (hqueue : search.queue = v :: queue) (hmem : x ∈ neighbors v) (hx : x ∉ search.found) :
    G.Adj v x ∧ G.dist s x = G.dist s v + 1 := by
  have hvfound : v ∈ search.found := mem_found.2 (.inr (hqueue ▸ List.mem_cons_self))
  have hreach : G.Reachable s v := h.reach v hvfound
  have hadj : G.Adj v x := (hlists.adj v x).2 ⟨fun heq => hx (heq ▸ hvfound), hmem⟩
  have hle := dist_le_succ hreach hadj
  have hgt : ¬G.dist s x ≤ G.dist s v := fun hle' =>
    hx (h.mem_of_dist_le hqueue (hreach.trans hadj.reachable) hle')
  exact ⟨hadj, by omega⟩

/-- The scan sees the neighbours that the next node comes just before. -/
theorem Explored.steps_iff (hlists : Lists G neighbors) (h : Explored G s search)
    (hqueue : search.queue = v :: queue) :
    x ∈ neighbors v ∧ search.Steps v x ↔ v ∈ preds G s x := by
  have hvfound : v ∈ search.found := mem_found.2 (.inr (hqueue ▸ List.mem_cons_self))
  have hdistv : search.dist v = G.dist s v := (h.dist v).trans (if_pos hvfound)
  rw [mem_preds, Steps, h.dist_neg_iff]
  by_cases hx : x ∈ search.found
  · have hdistx : search.dist x = G.dist s x := (h.dist x).trans (if_pos hx)
    rw [hlists.adj, hdistx, hdistv]
    constructor
    · rintro ⟨hmem, hnot | hdist⟩
      · exact absurd hx hnot
      · refine ⟨⟨?_, hmem⟩, by omega⟩
        rintro rfl
        omega
    · rintro ⟨⟨-, hmem⟩, hdist⟩
      exact ⟨hmem, .inr (by omega)⟩
  · constructor
    · rintro ⟨hmem, -⟩
      obtain ⟨hadj, hdist⟩ := h.next_layer hlists hqueue hmem hx
      exact ⟨hadj, hdist.symm⟩
    · rintro ⟨hadj, -⟩
      exact ⟨((hlists.adj v x).1 hadj).2, .inl hx⟩

/-- What a step does. -/
theorem Explored.expanded (hlists : Lists G neighbors) (h : Explored G s search)
    (hqueue : search.queue = v :: queue) :
    ∃ new, Expanded G s v queue new search (search.step neighbors) := by
  have hvfound : v ∈ search.found := mem_found.2 (.inr (hqueue ▸ List.mem_cons_self))
  have hdistv : search.dist v = G.dist s v := (h.dist v).trans (if_pos hvfound)
  let start : PathSearch ℚ := { search with stack := v :: search.stack, queue := queue }
  have hscan : Scanned v (neighbors v) start (search.step neighbors) := by
    rw [PathSearch.step, hqueue]
    exact scanned_foldl (hlists.nodup v) (show 0 ≤ search.dist v by omega)
  have hnew : ∀ x, x ∈ (neighbors v).filter (fun w => search.dist w < 0) ↔
      x ∈ neighbors v ∧ search.dist x < 0 := by
    intro x
    rw [List.mem_filter, decide_eq_true_eq]
  have hsteps : ∀ x, x ∈ neighbors v ∧ start.Steps v x ↔ v ∈ preds G s x := by
    intro x
    show x ∈ neighbors v ∧ search.Steps v x ↔ _
    exact h.steps_iff hlists hqueue
  refine ⟨(neighbors v).filter fun w => search.dist w < 0, ?_⟩
  constructor
  case next => exact hqueue
  case stack => exact hscan.stack
  case queue => exact hscan.queue
  case nodup => exact (hlists.nodup v).filter _
  case fresh =>
    intro x hx
    obtain ⟨hmem, hneg⟩ := (hnew x).1 hx
    have hx := h.dist_neg_iff.1 hneg
    exact ⟨hx, h.next_layer hlists hqueue hmem hx⟩
  case closed =>
    intro x hadj
    by_cases hx : x ∈ search.found
    · exact .inl hx
    · exact .inr ((hnew x).2 ⟨((hlists.adj v x).1 hadj).2, h.dist_neg_iff.2 hx⟩)
  case dist =>
    intro x
    rw [hscan.dist x]
    exact if_congr (hnew x).symm rfl rfl
  case sigma =>
    intro x
    rw [hscan.sigma x]
    exact if_congr (hsteps x) rfl rfl
  case predecessors =>
    intro x
    rw [hscan.predecessors x]
    exact if_congr (hsteps x) rfl rfl

theorem Expanded.found {new : List String} (h : Expanded G s v queue new search t) :
    t.found = search.found ++ new := by
  rw [PathSearch.found, h.stack, h.queue, PathSearch.found, h.next]
  simp

/-- A step keeps the invariant. -/
theorem Explored.step {new : List String} (h : Explored G s search)
    (he : Expanded G s v queue new search t) : Explored G s t := by
  have hvqueue : v ∈ search.queue := he.next ▸ List.mem_cons_self
  have hvfound : v ∈ search.found := mem_found.2 (.inr hvqueue)
  have hfound := he.found
  have hv : v ∉ search.stack := by
    have hnodup := h.nodup
    rw [PathSearch.found, he.next] at hnodup
    have hdisjoint := List.disjoint_of_nodup_append hnodup
    exact fun hmem => hdisjoint (List.mem_reverse.2 hmem) List.mem_cons_self
  have hlayer : ∀ x ∈ t.found, G.dist s x ≤ G.dist s v + 1 := by
    rw [hfound, List.forall_mem_append]
    exact ⟨fun x hx => h.near x hx v hvqueue, fun x hx => (he.fresh x hx).2.2.le⟩
  have hpred : ∀ w, v ∉ search.predecessors w := fun w hmem => hv ((h.predecessors w v).1 hmem).1
  constructor
  case nodup =>
    rw [hfound]
    exact h.nodup.append he.nodup fun x hx hnew => (he.fresh x hnew).1 hx
  case source =>
    rw [hfound]
    exact List.mem_append_left _ h.source
  case reach =>
    rw [hfound, List.forall_mem_append]
    exact ⟨h.reach, fun x hx => (h.reach v hvfound).trans (he.fresh x hx).2.1.reachable⟩
  case dist =>
    intro x
    have hmem : x ∈ t.found ↔ x ∈ search.found ∨ x ∈ new := by rw [hfound, List.mem_append]
    rw [he.dist]
    by_cases hx : x ∈ new
    · rw [if_pos hx, if_pos (hmem.2 (.inr hx)), (he.fresh x hx).2.2, h.dist v, if_pos hvfound]
      push_cast
      rfl
    · rw [if_neg hx, h.dist x]
      exact if_congr (hmem.trans (or_iff_left hx)).symm rfl rfl
  case sorted =>
    rw [hfound, List.pairwise_append]
    refine ⟨h.sorted, ?_, fun x hx y hy => ?_⟩
    · refine he.nodup.imp_of_mem fun hx hy _ => ?_
      rw [(he.fresh _ hx).2.2, (he.fresh _ hy).2.2]
    · rw [(he.fresh y hy).2.2]
      exact h.near x hx v hvqueue
  case near =>
    intro x hx y hy
    have hle : G.dist s v ≤ G.dist s y := by
      rw [he.queue] at hy
      obtain hy | hy := List.mem_append.1 hy
      · exact h.head_le he.next (he.next ▸ List.mem_cons_of_mem v hy)
      · rw [(he.fresh y hy).2.2]
        exact Nat.le_succ _
    exact (hlayer x hx).trans (Nat.succ_le_succ hle)
  case closed =>
    rw [he.stack, hfound, List.forall_mem_cons]
    exact ⟨fun y hadj => List.mem_append.2 (he.closed y hadj),
      fun x hx y hadj => List.mem_append_left _ (h.closed x hx y hadj)⟩
  case distinct =>
    intro w
    rw [he.predecessors]
    split_ifs
    · exact (h.distinct w).append (List.nodup_singleton v) fun x hx hmem =>
        hpred w (List.mem_singleton.1 hmem ▸ hx)
    · exact h.distinct w
  case predecessors =>
    intro w u
    rw [he.predecessors, he.stack, List.mem_cons]
    split_ifs with hw
    · rw [List.mem_append, List.mem_singleton, h.predecessors]
      constructor
      · rintro (⟨hmem, hu⟩ | rfl)
        · exact ⟨.inr hmem, hu⟩
        · exact ⟨.inl rfl, hw⟩
      · rintro ⟨rfl | hmem, hu⟩
        · exact .inr rfl
        · exact .inl ⟨hmem, hu⟩
    · rw [h.predecessors]
      constructor
      · rintro ⟨hmem, hu⟩
        exact ⟨.inr hmem, hu⟩
      · rintro ⟨rfl | hmem, hu⟩
        · exact absurd hu hw
        · exact ⟨hmem, hu⟩
  case sigma =>
    intro w
    have hsigma : search.sigma v = pathCount G s v :=
      h.sigma_eq (h.reach v hvfound) fun u hu => h.preds_visited he.next hu
    rw [he.sigma, he.predecessors]
    by_cases hw : v ∈ preds G s w
    · rw [if_pos hw, if_pos hw, h.sigma, hsigma, List.map_append, List.sum_append, List.map_singleton,
        List.sum_singleton, add_assoc]
    · rw [if_neg hw, if_neg hw]
      exact h.sigma w

/-- **The search**: what it finds, how far it is and how many shortest paths there are. -/
theorem explored_run (hlists : Lists G neighbors) (h : Explored G s search) (fuel : ℕ) :
    Explored G s (search.run neighbors fuel) := by
  induction fuel generalizing search with
  | zero => exact h
  | succ fuel ih =>
    rw [run]
    split_ifs with hempty
    · exact h
    · obtain ⟨v, queue, hqueue⟩ := List.exists_cons_of_ne_nil fun heq => hempty (List.isEmpty_iff.2 heq)
      obtain ⟨new, he⟩ := h.expanded hlists hqueue
      exact ih (h.step he)

variable (G s) in
/-- What a search from `s` leaves that has ended. -/
structure Solved (search : PathSearch ℚ) : Prop where
  /-- Nothing is on the stack twice. -/
  nodup : search.stack.Nodup
  /-- What can be reached is on the stack. -/
  mem : ∀ x, x ∈ search.stack ↔ G.Reachable s x
  /-- What is far leaves it first. -/
  sorted : search.stack.Pairwise fun x y => G.dist s y ≤ G.dist s x
  /-- No predecessor is listed twice. -/
  distinct : ∀ w, (search.predecessors w).Nodup
  /-- All are listed. -/
  predecessors : ∀ w v, v ∈ search.predecessors w ↔ G.Reachable s w ∧ v ∈ preds G s w
  /-- The paths are counted. -/
  sigma : ∀ x, G.Reachable s x → search.sigma x = pathCount G s x

theorem Explored.solved (h : Explored G s search) (hend : search.queue = []) : Solved G s search := by
  have hmem : ∀ x, x ∈ search.found ↔ x ∈ search.stack := by simp [found, hend]
  have hreach : ∀ x, x ∈ search.stack ↔ G.Reachable s x := by
    refine fun x => ⟨fun hx => h.reach x ((hmem x).2 hx), fun hx => ?_⟩
    rw [reachable_iff_reflTransGen] at hx
    induction hx with
    | refl => exact (hmem s).1 h.source
    | tail _ hadj ih => exact (hmem _).1 (h.closed _ ih _ hadj)
  have hpreds : ∀ w v, G.Reachable s w → v ∈ preds G s w → v ∈ search.stack := fun w v hw hv =>
    (hreach v).2 (hw.trans (mem_preds.1 hv).1.symm.reachable)
  have hfound : search.found = search.stack.reverse := by rw [found, hend, List.append_nil]
  constructor
  case nodup => exact List.nodup_reverse.1 (hfound ▸ h.nodup)
  case mem => exact hreach
  case sorted => exact List.pairwise_reverse.1 (hfound ▸ h.sorted)
  case distinct => exact h.distinct
  case predecessors =>
    intro w v
    rw [h.predecessors]
    constructor
    · rintro ⟨hv, hp⟩
      exact ⟨((hreach v).1 hv).trans (mem_preds.1 hp).1.reachable, hp⟩
    · rintro ⟨hw, hp⟩
      exact ⟨hpreds w v hw hp, hp⟩
  case sigma => exact fun x hx => h.sigma_eq hx fun u hu => hpreds x u hx hu

/-! ### Back-propagation -/

/-- What `w` gives back, if it is not its own predecessor. -/
theorem giveBack_apply {delta : String → ℚ} (hnodup : (search.predecessors w).Nodup)
    (hw : w ∉ search.predecessors w) (x : String) :
    search.giveBack delta w x = if x ∈ search.predecessors w then
      delta x + (search.sigma x / search.sigma w) * (1 + delta w) else delta x := by
  have hone : (1.0 : ℚ) = 1 := by norm_num
  rw [giveBack, hone]
  generalize search.predecessors w = l at hnodup hw
  induction l generalizing delta with
  | nil => rfl
  | cons v l ih =>
    obtain ⟨hv, hl⟩ := List.nodup_cons.1 hnodup
    obtain ⟨hne, hw⟩ := not_or.1 (mt List.mem_cons.2 hw)
    rw [List.foldl_cons, ih hl hw, Function.update_of_ne hne]
    by_cases hx : x = v
    · subst hx
      rw [if_neg hv, Function.update_self, if_pos List.mem_cons_self]
    · rw [Function.update_of_ne hx]
      simp [hx]

variable {nodes : Finset String}

variable (G s nodes) in
/-- What the nodes in a list give back to `v`. -/
noncomputable def returned (done : List String) (v : String) : ℚ :=
  (done.map fun w => if v ∈ preds G s w then
    (pathCount G s v / pathCount G s w : ℚ) * (1 + dependency G nodes s w) else 0).sum

theorem returned_concat (done : List String) (w v : String) :
    returned G s nodes (done ++ [w]) v = returned G s nodes done v + if v ∈ preds G s w then
      (pathCount G s v / pathCount G s w : ℚ) * (1 + dependency G nodes s w) else 0 := by
  rw [returned, List.map_append, List.sum_append, List.map_singleton, List.sum_singleton, returned]

/-- When all that comes after it has given back, a node has what depends on it. -/
theorem returned_eq {done : List String} (hdone : done.Nodup)
    (hnodes : ∀ x, G.Reachable s x → x ∈ nodes) (hw : G.Reachable s w)
    (hall : ∀ u ∈ succs G s w, u ∈ done) : returned G s nodes done w = dependency G nodes s w := by
  have hset : done.toFinset.filter (fun u => w ∈ preds G s u) = succs G s w := by
    ext u
    rw [Finset.mem_filter, List.mem_toFinset, mem_preds_iff_mem_succs]
    exact and_iff_right_of_imp (hall u)
  rw [returned, ← List.sum_toFinset _ hdone, ← Finset.sum_filter, hset, dependency_eq_sum hnodes hw]

/-- What comes after a node has left the stack before it. -/
theorem Solved.succs_before (h : Solved G s search) {done rest : List String}
    (hstack : search.stack = done ++ w :: rest) : ∀ u ∈ succs G s w, u ∈ done := by
  intro u hu
  obtain ⟨hadj, hdist⟩ := mem_succs.1 hu
  have hw : w ∈ search.stack := by simp [hstack]
  have hmem : u ∈ search.stack := (h.mem u).2 (((h.mem w).1 hw).trans hadj.reachable)
  have hsorted := h.sorted
  rw [hstack] at hmem hsorted
  have hlater := List.pairwise_cons.1 (List.pairwise_append.1 hsorted).2.1
  obtain hu | hu := List.mem_append.1 hmem
  · exact hu
  · obtain rfl | hu := List.mem_cons.1 hu
    · omega
    · have hle := hlater.1 u hu
      omega

/-- A node leaves the stack and gives back. -/
def popStack (search : PathSearch ℚ) (s : String) (scores : (String → ℚ) × (String → ℚ)) (w : String) :
    (String → ℚ) × (String → ℚ) :=
  let delta := search.giveBack scores.1 w
  (delta, if w ≠ s then Function.update scores.2 w (scores.2 w + delta w) else scores.2)

theorem backPropagate_eq_foldl (search : PathSearch ℚ) (s : String) (betweenness : String → ℚ) :
    search.backPropagate s betweenness =
      (search.stack.foldl (search.popStack s) (fun _ => 0, betweenness)).2 := by
  have hzero : (0.0 : ℚ) = 0 := by norm_num
  rw [backPropagate, hzero]
  rfl

/-- **Back-propagation**, as far as it has come. -/
theorem Solved.foldl_popStack (h : Solved G s search) (hnodes : ∀ x, G.Reachable s x → x ∈ nodes)
    (betweenness : String → ℚ) {done : List String} (hdone : done <+: search.stack) :
    let scores := done.foldl (search.popStack s) (fun _ => 0, betweenness)
    scores.1 = returned G s nodes done ∧ ∀ v, scores.2 v = betweenness v +
      if v ∈ done ∧ v ≠ s then dependency G nodes s v else 0 := by
  induction done using List.reverseRecOn with
  | nil =>
    refine ⟨?_, fun v => ?_⟩
    · funext v
      simp [returned]
    · simp
  | append_singleton done w ih =>
    obtain ⟨rest, hstack⟩ := hdone
    rw [List.append_assoc, List.singleton_append] at hstack
    obtain ⟨hdelta, hscores⟩ := ih ⟨w :: rest, hstack⟩
    have hnodup := h.nodup
    rw [← hstack] at hnodup
    have hw : w ∉ done := fun hmem =>
      List.disjoint_of_nodup_append hnodup hmem List.mem_cons_self
    have hreach : G.Reachable s w := (h.mem w).1 (by simp [← hstack])
    have hself : w ∉ search.predecessors w := fun hmem => by
      have hdist := (mem_preds.1 ((h.predecessors w w).1 hmem).2).2
      omega
    have hdep : returned G s nodes done w = dependency G nodes s w :=
      returned_eq (List.nodup_append.1 hnodup).1 hnodes hreach (h.succs_before hstack.symm)
    have hgive : ∀ v, search.giveBack (returned G s nodes done) w v =
        returned G s nodes (done ++ [w]) v := by
      intro v
      rw [giveBack_apply (h.distinct w) hself, returned_concat, hdep]
      by_cases hv : v ∈ preds G s w
      · have hreachv : G.Reachable s v := hreach.trans (mem_preds.1 hv).1.symm.reachable
        rw [if_pos ((h.predecessors w v).2 ⟨hreach, hv⟩), if_pos hv, h.sigma v hreachv,
          h.sigma w hreach]
      · rw [if_neg fun hmem => hv ((h.predecessors w v).1 hmem).2, if_neg hv, add_zero]
    have hgivew : search.giveBack (returned G s nodes done) w w = dependency G nodes s w := by
      rw [giveBack_apply (h.distinct w) hself, if_neg hself, hdep]
    rw [List.foldl_append, List.foldl_cons, List.foldl_nil]
    generalize done.foldl (search.popStack s) (fun _ => 0, betweenness) = scores at hdelta hscores ⊢
    rw [popStack]
    dsimp only
    rw [hdelta, hgivew]
    refine ⟨funext hgive, fun v => ?_⟩
    by_cases hv : v = w
    · subst hv
      by_cases hs : v = s
      · simp [hs, hscores]
      · simp [hs, hw, hscores]
    · have hsame : (if w ≠ s then Function.update scores.2 w (scores.2 w + dependency G nodes s w)
          else scores.2) v = scores.2 v := by
        split_ifs
        · exact Function.update_of_ne hv _ _
        · rfl
      rw [hsame, hscores]
      simp [hv]

/-- **What one source adds**: to every other node, how much of the paths from the source goes through
it. -/
theorem Solved.backPropagate (h : Solved G s search) (hnodes : ∀ x, G.Reachable s x → x ∈ nodes)
    (betweenness : String → ℚ) (v : String) : search.backPropagate s betweenness v =
      betweenness v + if v ≠ s then dependency G nodes s v else 0 := by
  obtain ⟨-, hscores⟩ := h.foldl_popStack hnodes betweenness (List.prefix_refl _)
  rw [backPropagate_eq_foldl, hscores]
  by_cases hv : G.Reachable s v
  · simp only [(h.mem v).2 hv, true_and]
  · simp [dependency_of_not_reachable hv]

end PathSearch

/-! ### All sources -/

section Sources

variable {neighbors : String → List String} {nodes : List String}

/-- A search takes at most as many steps as there are nodes. -/
theorem queue_run_init (hclosed : ∀ x y, y ∈ neighbors x → y ∈ nodes) {s : String} (hs : s ∈ nodes) :
    ((PathSearch.init s : PathSearch ℚ).run neighbors nodes.length).queue = [] :=
  PathSearch.queue_run (fun x _ y hy => List.mem_toFinset.2 (hclosed x y hy)) (List.mem_toFinset.2 hs)
    nodes.toFinset_card_le

variable {G : SimpleGraph String} [LocallyFinite G]

/-- The loop over the sources. -/
theorem foldl_backPropagate (hlists : PathSearch.Lists G neighbors)
    (hclosed : ∀ x y, y ∈ neighbors x → y ∈ nodes) (sources : List String)
    (hsources : ∀ s ∈ sources, s ∈ nodes) (betweenness : String → ℚ) (v : String) :
    sources.foldl (fun betweenness s => ((PathSearch.init s).run neighbors
      nodes.length).backPropagate s betweenness) betweenness v = betweenness v +
        (sources.map fun s => if v ≠ s then dependency G nodes.toFinset s v else 0).sum := by
  induction sources generalizing betweenness with
  | nil => simp
  | cons s sources ih =>
    obtain ⟨hs, hsources⟩ := List.forall_mem_cons.1 hsources
    have hnodes : ∀ x, G.Reachable s x → x ∈ nodes.toFinset := by
      intro x hx
      rw [reachable_iff_reflTransGen] at hx
      rw [List.mem_toFinset]
      induction hx with
      | refl => exact hs
      | tail _ hadj _ => exact hclosed _ _ ((hlists.adj _ _).1 hadj).2
    have hsolved := (PathSearch.explored_run hlists PathSearch.explored_init nodes.length).solved
      (queue_run_init hclosed hs)
    rw [List.foldl_cons, ih hsources, hsolved.backPropagate hnodes, List.map_cons, List.sum_cons,
      add_assoc]

/-- **The algorithm**: with exact numbers it computes betweenness centrality. -/
theorem computeBetweenness_eq_centrality (hlists : PathSearch.Lists G neighbors)
    (hclosed : ∀ x y, y ∈ neighbors x → y ∈ nodes) (hnodup : nodes.Nodup) (v : String) :
    computeBetweenness nodes neighbors v = centrality G nodes.toFinset v := by
  have hzero : (0.0 : ℚ) = 0 := by norm_num
  have htwo : (2.0 : ℚ) = 2 := by norm_num
  rw [computeBetweenness]
  dsimp only
  rw [foldl_backPropagate hlists hclosed nodes (fun _ hs => hs), hzero, htwo, zero_add,
    ← List.sum_toFinset _ hnodup, ← Finset.sum_filter, Finset.filter_ne, centrality_eq]

end Sources

/-! ### The function -/

/-- What `compute_betweenness` is given: a symmetric table of neighbours among some nodes. -/
structure Network where
  /-- The nodes. -/
  nodes : Finset String
  /-- `adj`. -/
  adj : KeyMap String (Finset String)
  /-- Neighbours have each other. -/
  symm : ∀ x y, y ∈ (adj x).getD ∅ → x ∈ (adj y).getD ∅
  /-- They are nodes. -/
  closed : ∀ x y, y ∈ (adj x).getD ∅ → y ∈ nodes

namespace Network

/-- An order in which the nodes are given. -/
structure Listing (net : Network) where
  /-- The nodes in order. -/
  list : List String
  /-- No node comes twice. -/
  nodup : list.Nodup
  /-- The nodes come, and nothing else. -/
  mem : ∀ x, x ∈ list ↔ x ∈ net.nodes

/-- The graph. No shortest path takes a loop. -/
def graph (net : Network) : SimpleGraph String where
  Adj x y := x ≠ y ∧ y ∈ (net.adj x).getD ∅
  symm := ⟨fun x y h => ⟨h.1.symm, net.symm x y h.2⟩⟩
  loopless := ⟨fun _ h => h.1 rfl⟩

instance (net : Network) : LocallyFinite net.graph := fun x =>
  Fintype.ofFinset (((net.adj x).getD ∅).filter fun y => x ≠ y) fun y => by
    rw [Finset.mem_filter, mem_neighborSet, graph, and_comm]

/-- The centrality of each node. -/
noncomputable def centralities (net : Network) : KeyMap String ℚ := fun v =>
  if v ∈ net.nodes then some (centrality net.graph net.nodes v) else none

variable (net : Network) (visits : Visits)

theorem mem_rows {x y : String} :
    y ∈ PathTables.rows visits net.adj x ↔ y ∈ (net.adj x).getD ∅ := by
  rw [PathTables.rows]
  cases net.adj x with
  | none => simp
  | some neighbors => exact visits.mem _ neighbors y

theorem lists_rows : PathSearch.Lists net.graph (PathTables.rows visits net.adj) where
  adj x y := and_congr_right fun _ => (net.mem_rows visits).symm
  nodup x := by
    rw [PathTables.rows]
    cases net.adj x with
    | none => exact List.nodup_nil
    | some neighbors => exact visits.nodup _ neighbors

end Network

/-- **Betweenness centrality**: in whatever order the nodes and the neighbours are visited,
`compute_betweenness` ends without a panic, and the value of a node is the sum, over the unordered
pairs of two other nodes that are connected, of the number of shortest paths through it by the number
of shortest paths. -/
theorem betweenness_eq_centrality (net : Network) (listing : net.Listing) (visits : Visits) :
    (PathTables.computeBetweenness visits listing.list net.adj).run =
      .ok (some net.centralities) := by
  have hset : listing.list.toFinset = net.nodes := by
    ext x
    rw [List.mem_toFinset, listing.mem]
  have hclosed : ∀ x y, y ∈ PathTables.rows visits net.adj x → y ∈ listing.list := fun x y hy =>
    (listing.mem y).2 (net.closed x y ((net.mem_rows visits).1 hy))
  have hvalues : (KeyMap.on listing.list
      (computeBetweenness listing.list (PathTables.rows visits net.adj)) : KeyMap String ℚ) =
        net.centralities := by
    funext v
    rw [KeyMap.on, Network.centralities,
      computeBetweenness_eq_centrality (net.lists_rows visits) hclosed listing.nodup, hset]
    exact if_congr (listing.mem v) rfl rfl
  rw [PathTables.computeBetweenness_eq hclosed fun s hs => queue_run_init hclosed hs, hvalues]
  rfl

/-! ### The analysis -/

namespace SwarmSnapshot

/-- What the analysis gives to `compute_betweenness`. -/
def network (snapshot : SwarmSnapshot) : Network where
  nodes := snapshot.activeIds
  adj := fun x => some (snapshot.adj x)
  symm := fun _ _ h => mem_adj_comm.1 h
  closed := fun _ _ h => (mem_adj.1 h).2.1

/-- **The analysis** scores each peer that is not stale by its centrality. -/
theorem betweenness_eq (visits : Visits) (snapshot : SwarmSnapshot) :
    (betweenness visits snapshot : List (String × ℚ)) =
      (visits.order .betweenness snapshot.activeIds).map fun v =>
        (v, centrality snapshot.network.graph snapshot.activeIds v) := by
  have hlists : PathSearch.Lists snapshot.network.graph (neighbors visits snapshot) :=
    snapshot.network.lists_rows visits
  have hclosed : ∀ x y, y ∈ neighbors visits snapshot x → y ∈ nodes visits snapshot := fun x y hy =>
    mem_nodes.2 (mem_adj.1 (mem_neighbors.1 hy)).2.1
  have hset : (nodes visits snapshot).toFinset = snapshot.activeIds := by
    ext x
    rw [List.mem_toFinset, mem_nodes]
  refine List.map_congr_left fun v _ => ?_
  rw [computeBetweenness_eq_centrality hlists hclosed (visits.nodup _ _), hset]

end SwarmSnapshot

end PodpingAlpha.Monitor
