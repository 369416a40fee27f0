import Mathlib.Data.Finset.Card
import Mathlib.Logic.Relation

/-!
# Components of a graph

A graph given by the list of neighbours of each node. A breadth-first search from a node takes nodes
from the front of a queue and appends the neighbours that it has not met before. Searching again
from every node that no search has met cuts the nodes into components. The search is given fuel.

* `Search.queue_run` — as much fuel as there are nodes empties the queue.
* `Search.Inv.mem_component_iff` — in an undirected graph a search finds what can be reached.
* `partition_components` — in an undirected graph the components are the classes of "can be reached".
* `pairwise_components` — they come in the order of their first nodes.
-/

namespace PodpingAlpha.Components

universe u

variable {α : Type u}

/-- A search: what it has met, what waits in the queue, and what has left it. -/
structure Search (α : Type u) where
  /-- What this search or an earlier one has met. -/
  visited : Finset α
  /-- What is yet to be expanded. -/
  queue : List α
  /-- What has been expanded. -/
  component : List α

/-- `y` can be reached from `x`. -/
def Reach (neighbors : α → List α) (x y : α) : Prop :=
  Relation.ReflTransGen (fun x y => y ∈ neighbors x) x y

namespace Search

variable [DecidableEq α]

/-- A neighbour that is new is appended to the queue. -/
def meet (s : Search α) (neighbor : α) : Search α :=
  if neighbor ∈ s.visited then s
  else { s with visited := insert neighbor s.visited, queue := s.queue ++ [neighbor] }

/-- One node is taken from the queue and expanded. -/
def step (neighbors : α → List α) (s : Search α) : Search α :=
  match s.queue with
  | [] => s
  | node :: queue =>
    (neighbors node).foldl meet { s with queue := queue, component := s.component ++ [node] }

/-- The search goes on until the queue is empty. -/
def run (neighbors : α → List α) : ℕ → Search α → Search α
  | 0, s => s
  | fuel + 1, s => if s.queue.isEmpty then s else run neighbors fuel (s.step neighbors)

/-- A search begins at `start`. -/
def init (start : α) (visited : Finset α) : Search α where
  visited := insert start visited
  queue := [start]
  component := []

variable {neighbors : α → List α} {nodes old : Finset α} {start : α} {s : Search α}

/-! ### What a search keeps -/

/-- Meeting a list of neighbours appends those that are new, each once. -/
theorem foldl_meet (s : Search α) (met : List α) : ∃ added : List α,
    met.foldl meet s =
      { s with visited := s.visited ∪ added.toFinset, queue := s.queue ++ added } ∧
    added.Nodup ∧ ∀ x, x ∈ added ↔ x ∈ met ∧ x ∉ s.visited := by
  induction met generalizing s with
  | nil => exact ⟨[], by simp, List.nodup_nil, by simp⟩
  | cons neighbor met ih =>
    obtain ⟨added, heq, hnodup, hadded⟩ := ih (s.meet neighbor)
    rw [List.foldl_cons, heq]
    unfold meet at hadded ⊢
    split_ifs at hadded ⊢ with hmem
    · refine ⟨added, rfl, hnodup, fun x => ?_⟩
      rw [hadded, List.mem_cons]
      exact ⟨fun ⟨hx, hnew⟩ => ⟨.inr hx, hnew⟩,
        fun ⟨hx, hnew⟩ => ⟨hx.resolve_left fun h => hnew (h ▸ hmem), hnew⟩⟩
    · refine ⟨neighbor :: added, ?_, ?_, fun x => ?_⟩
      · simp [Finset.insert_union]
      · refine List.nodup_cons.2 ⟨fun h => ?_, hnodup⟩
        exact ((hadded neighbor).1 h).2 (Finset.mem_insert_self neighbor s.visited)
      · rw [List.mem_cons, List.mem_cons, hadded, Finset.mem_insert]
        by_cases hx : x = neighbor
        · simp [hx, hmem]
        · simp [hx]

/-- What holds of a search from `start`, where `old` has been met before it. -/
structure Inv (neighbors : α → List α) (old : Finset α) (start : α) (s : Search α) : Prop where
  /-- What has been met is old, waits, or has been expanded. -/
  visited : ∀ x, x ∈ s.visited ↔ x ∈ old ∨ x ∈ s.component ++ s.queue
  /-- Nothing is found twice. -/
  nodup : (s.component ++ s.queue).Nodup
  /-- Nothing old is found. -/
  fresh : ∀ x ∈ s.component ++ s.queue, x ∉ old
  /-- The start is found. -/
  found : start ∈ s.component ++ s.queue
  /-- What is found can be reached. -/
  reach : ∀ x ∈ s.component ++ s.queue, Reach neighbors start x
  /-- The neighbours of what has been expanded have been met. -/
  closed : ∀ x ∈ s.component, ∀ y ∈ neighbors x, y ∈ s.visited

theorem inv_init (h : start ∉ old) : (init start old).Inv neighbors old start where
  visited x := by
    show x ∈ insert start old ↔ _
    rw [Finset.mem_insert, or_comm]
    simp [init]
  nodup := List.nodup_singleton start
  fresh x hx := by
    obtain rfl := List.mem_singleton.1 hx
    exact h
  found := List.mem_singleton_self start
  reach x hx := by
    obtain rfl := List.mem_singleton.1 hx
    exact .refl
  closed x hx := absurd hx List.not_mem_nil

/-- A step keeps the invariant. -/
theorem Inv.step (h : s.Inv neighbors old start) : (s.step neighbors).Inv neighbors old start := by
  unfold Search.step
  split
  · exact h
  · rename_i node queue hqueue
    obtain ⟨added, heq, hnodup, hadded⟩ :=
      foldl_meet { s with queue := queue, component := s.component ++ [node] } (neighbors node)
    have hfound : s.component ++ [node] ++ (queue ++ added) = s.component ++ s.queue ++ added := by
      rw [hqueue]
      simp
    have hnew : ∀ x ∈ added, x ∈ neighbors node ∧ x ∉ old ∧ x ∉ s.component ++ s.queue :=
      fun x hx => by
        obtain ⟨hx, hnew⟩ := (hadded x).1 hx
        exact ⟨hx, not_or.1 (mt (h.visited x).2 hnew)⟩
    have hnode : Reach neighbors start node := h.reach node (by simp [hqueue])
    rw [heq]
    constructor
    case visited =>
      intro x
      show x ∈ s.visited ∪ added.toFinset ↔ x ∈ old ∨ x ∈ s.component ++ [node] ++ (queue ++ added)
      rw [hfound, Finset.mem_union, List.mem_toFinset, List.mem_append (t := added), h.visited, or_assoc]
    case nodup =>
      show (s.component ++ [node] ++ (queue ++ added)).Nodup
      rw [hfound]
      exact h.nodup.append hnodup fun x hx hadd => (hnew x hadd).2.2 hx
    case fresh =>
      show ∀ x ∈ s.component ++ [node] ++ (queue ++ added), x ∉ old
      rw [hfound]
      intro x hx
      rcases List.mem_append.1 hx with hx | hx
      · exact h.fresh x hx
      · exact (hnew x hx).2.1
    case found =>
      show start ∈ s.component ++ [node] ++ (queue ++ added)
      rw [hfound]
      exact List.mem_append_left added h.found
    case reach =>
      show ∀ x ∈ s.component ++ [node] ++ (queue ++ added), Reach neighbors start x
      rw [hfound]
      intro x hx
      rcases List.mem_append.1 hx with hx | hx
      · exact h.reach x hx
      · exact hnode.tail (hnew x hx).1
    case closed =>
      intro x hx y hy
      show y ∈ s.visited ∪ added.toFinset
      rw [Finset.mem_union, List.mem_toFinset]
      rcases List.mem_append.1 hx with hx | hx
      · exact .inl (h.closed x hx y hy)
      · -- the node just expanded: its neighbours are old news or have been appended
        obtain rfl := List.mem_singleton.1 hx
        by_cases hmem : y ∈ s.visited
        · exact .inl hmem
        · exact .inr ((hadded y).2 ⟨hy, hmem⟩)

/-- A run keeps the invariant. -/
theorem Inv.run (h : s.Inv neighbors old start) (fuel : ℕ) :
    (s.run neighbors fuel).Inv neighbors old start := by
  induction fuel generalizing s with
  | zero => exact h
  | succ fuel ih =>
    rw [Search.run]
    split_ifs
    · exact h
    · exact ih h.step

/-! ### The end of a search -/

/-- Every step expands one node. -/
theorem length_component_step (h : s.queue ≠ []) :
    (s.step neighbors).component.length = s.component.length + 1 := by
  unfold step
  split
  · contradiction
  · rename_i node queue hqueue
    obtain ⟨added, heq, -, -⟩ :=
      foldl_meet { s with queue := queue, component := s.component ++ [node] } (neighbors node)
    rw [heq]
    exact List.length_append

omit [DecidableEq α] in
/-- Neighbours of nodes are nodes, and so is what can be reached from a node. -/
theorem reach_subset (hnodes : ∀ x ∈ nodes, ∀ y ∈ neighbors x, y ∈ nodes) (hstart : start ∈ nodes)
    {x : α} (h : Reach neighbors start x) : x ∈ nodes := by
  induction h with
  | refl => exact hstart
  | tail _ hlink ih => exact hnodes _ ih _ hlink

/-- What is found fits into the nodes. -/
theorem Inv.length_le (h : s.Inv neighbors old start)
    (hnodes : ∀ x ∈ nodes, ∀ y ∈ neighbors x, y ∈ nodes) (hstart : start ∈ nodes) :
    s.component.length + s.queue.length ≤ nodes.card := by
  have hsub : (s.component ++ s.queue).toFinset ⊆ nodes := fun x hx =>
    reach_subset hnodes hstart (h.reach x (List.mem_toFinset.1 hx))
  have hcard := Finset.card_le_card hsub
  rw [List.toFinset_card_of_nodup h.nodup, List.length_append] at hcard
  exact hcard

/-- **A search ends**: with as much fuel as there are nodes, nothing waits any more. -/
theorem queue_run (h : s.Inv neighbors old start)
    (hnodes : ∀ x ∈ nodes, ∀ y ∈ neighbors x, y ∈ nodes) (hstart : start ∈ nodes) {fuel : ℕ}
    (hfuel : nodes.card ≤ fuel + s.component.length) : (s.run neighbors fuel).queue = [] := by
  induction fuel generalizing s with
  | zero =>
    have hle := h.length_le hnodes hstart
    exact List.length_eq_zero_iff.1 (by rw [run]; omega)
  | succ fuel ih =>
    rw [run]
    split_ifs with hempty
    · exact List.isEmpty_iff.1 hempty
    · refine ih h.step ?_
      rw [length_component_step fun hnil => hempty (List.isEmpty_iff.2 hnil)]
      omega

omit [DecidableEq α] in
/-- **What a search finds** that has ended, in an undirected graph: all that can be reached. -/
theorem Inv.mem_component_iff (h : s.Inv neighbors old start) (hend : s.queue = [])
    (hsymm : ∀ x y, y ∈ neighbors x → x ∈ neighbors y) (hold : ∀ x ∈ old, ∀ y ∈ neighbors x, y ∈ old)
    {x : α} : x ∈ s.component ↔ Reach neighbors start x := by
  have hfound : s.component ++ s.queue = s.component := by rw [hend, List.append_nil]
  refine ⟨fun hx => h.reach x (List.mem_append_left _ hx), fun hreach => ?_⟩
  induction hreach with
  | refl => exact hfound ▸ h.found
  | @tail x y _ hlink ih =>
    rcases (h.visited y).1 (h.closed x ih y hlink) with hy | hy
    · -- what is old leads to old nodes only
      exact absurd (hold y hy x (hsymm x y hlink)) (h.fresh x (List.mem_append_left _ ih))
    · exact hfound ▸ hy

end Search

/-! ### All components -/

variable [DecidableEq α]

/-- A node that no search has met begins the next search. -/
def nextComponent (neighbors : α → List α) (fuel : ℕ) (found : Finset α × List (List α)) (node : α) :
    Finset α × List (List α) :=
  if node ∈ found.1 then found
  else
    let search := (Search.init node found.1).run neighbors fuel
    (search.visited, found.2 ++ [search.component])

/-- The nodes, cut into what one search finds at a time. -/
def components (neighbors : α → List α) (fuel : ℕ) (nodes : List α) : List (List α) :=
  (nodes.foldl (nextComponent neighbors fuel) (∅, [])).2

omit [DecidableEq α] in
theorem Reach.symm {neighbors : α → List α} (hsymm : ∀ x y, y ∈ neighbors x → x ∈ neighbors y)
    {x y : α} (h : Reach neighbors x y) : Reach neighbors y x := by
  induction h with
  | refl => exact .refl
  | tail _ hlink ih => exact ih.head (hsymm _ _ hlink)

/-- The lists are the classes of "can be reached" on the nodes. -/
structure Partition (neighbors : α → List α) (nodes : Finset α) (cs : List (List α)) : Prop where
  /-- Every node is in a list, and nothing else is. -/
  mem : ∀ x, x ∈ cs.flatten ↔ x ∈ nodes
  /-- No node is in two lists, or twice in one. -/
  nodup : cs.flatten.Nodup
  /-- No list is empty. -/
  ne_nil : ∀ c ∈ cs, c ≠ []
  /-- A list has what can be reached from any of its nodes. -/
  reach : ∀ c ∈ cs, ∀ x ∈ c, ∀ y, y ∈ c ↔ Reach neighbors x y

variable {neighbors : α → List α} {nodes visited : Finset α} {cs : List (List α)} {c : List α}

namespace Partition

omit [DecidableEq α] in
/-- A node is in one of the lists. -/
theorem exists_mem (h : Partition neighbors visited cs) {x : α} (hx : x ∈ visited) :
    ∃ c ∈ cs, x ∈ c :=
  List.mem_flatten.1 ((h.mem x).2 hx)

omit [DecidableEq α] in
/-- The members of the lists are nodes. -/
theorem mem_of_mem (h : Partition neighbors visited cs) (hc : c ∈ cs) {x : α} (hx : x ∈ c) :
    x ∈ visited :=
  (h.mem x).1 (List.mem_flatten.2 ⟨c, hc, hx⟩)

omit [DecidableEq α] in
/-- No list leads out of the nodes. -/
theorem closed (h : Partition neighbors visited cs) :
    ∀ x ∈ visited, ∀ y ∈ neighbors x, y ∈ visited := by
  intro x hx y hy
  obtain ⟨c, hc, hmem⟩ := h.exists_mem hx
  exact h.mem_of_mem hc ((h.reach c hc x hmem y).2 (.single hy))

omit [DecidableEq α] in
/-- The lists of two different places have nothing in common. -/
theorem index_eq (h : Partition neighbors visited cs) {i j : ℕ} {d : List α} (hi : cs[i]? = some c)
    (hj : cs[j]? = some d) {x : α} (hc : x ∈ c) (hd : x ∈ d) : i = j := by
  obtain ⟨hlti, rfl⟩ := List.getElem?_eq_some_iff.1 hi
  obtain ⟨hltj, rfl⟩ := List.getElem?_eq_some_iff.1 hj
  have hdisjoint := List.pairwise_iff_getElem.1 (List.nodup_flatten.1 h.nodup).2
  rcases lt_trichotomy i j with hlt | heq | hlt
  · exact absurd hd (hdisjoint i j hlti hltj hlt hc)
  · exact heq
  · exact absurd hc (hdisjoint j i hltj hlti hlt hd)

/-- One more search keeps the partition. -/
theorem next (h : Partition neighbors visited cs) (hsymm : ∀ x y, y ∈ neighbors x → x ∈ neighbors y)
    (hnodes : ∀ x ∈ nodes, ∀ y ∈ neighbors x, y ∈ nodes) (hvisited : visited ⊆ nodes) {node : α}
    (hnode : node ∈ nodes) {fuel : ℕ} (hfuel : nodes.card ≤ fuel) :
    let found := nextComponent neighbors fuel (visited, cs) node
    Partition neighbors found.1 found.2 ∧ visited ⊆ found.1 ∧ found.1 ⊆ nodes ∧ node ∈ found.1 := by
  intro found
  unfold found nextComponent
  split_ifs with hmem
  · exact ⟨h, subset_rfl, hvisited, hmem⟩
  · have hinv : ((Search.init node visited).run neighbors fuel).Inv neighbors visited node :=
      (Search.inv_init hmem).run fuel
    have hend : ((Search.init node visited).run neighbors fuel).queue = [] :=
      Search.queue_run (Search.inv_init hmem) hnodes hnode (by omega)
    have hreach : ∀ x, x ∈ ((Search.init node visited).run neighbors fuel).component ↔
        Reach neighbors node x := fun x => hinv.mem_component_iff hend hsymm h.closed
    generalize (Search.init node visited).run neighbors fuel = s at hinv hend hreach
    have hfound : s.component ++ s.queue = s.component := by rw [hend, List.append_nil]
    have hmem_visited : ∀ x, x ∈ s.visited ↔ x ∈ visited ∨ x ∈ s.component := fun x =>
      hfound ▸ hinv.visited x
    have hstart : node ∈ s.component := (hreach node).2 .refl
    refine ⟨⟨fun x => ?_, ?_, ?_, ?_⟩, fun x hx => (hmem_visited x).2 (.inl hx), fun x hx => ?_,
      (hmem_visited node).2 (.inr hstart)⟩
    · rw [List.flatten_append, List.mem_append, h.mem, List.flatten_singleton, hmem_visited]
    · rw [List.flatten_append, List.flatten_singleton]
      refine h.nodup.append (hfound ▸ hinv.nodup) fun x hold hnew => ?_
      exact hinv.fresh x (List.mem_append_left _ hnew) ((h.mem x).1 hold)
    · intro c hc
      rcases List.mem_append.1 hc with hc | hc
      · exact h.ne_nil c hc
      · obtain rfl := List.mem_singleton.1 hc
        exact List.ne_nil_of_mem hstart
    · intro c hc x hx y
      rcases List.mem_append.1 hc with hc | hc
      · exact h.reach c hc x hx y
      · obtain rfl := List.mem_singleton.1 hc
        have hx := (hreach x).1 hx
        rw [hreach]
        exact ⟨fun hy => (hx.symm hsymm).trans hy, fun hy => hx.trans hy⟩
    · rcases (hmem_visited x).1 hx with hx | hx
      · exact hvisited hx
      · exact Search.reach_subset hnodes hnode ((hreach x).1 hx)

end Partition

/-- Searches from a list of nodes keep the partition and meet all of the list. -/
theorem partition_foldl (hsymm : ∀ x y, y ∈ neighbors x → x ∈ neighbors y)
    (hnodes : ∀ x ∈ nodes, ∀ y ∈ neighbors x, y ∈ nodes) {fuel : ℕ} (hfuel : nodes.card ≤ fuel)
    {todo : List α} (htodo : ∀ x ∈ todo, x ∈ nodes) (h : Partition neighbors visited cs)
    (hvisited : visited ⊆ nodes) :
    let found := todo.foldl (nextComponent neighbors fuel) (visited, cs)
    Partition neighbors found.1 found.2 ∧ visited ⊆ found.1 ∧ found.1 ⊆ nodes ∧
      ∀ x ∈ todo, x ∈ found.1 := by
  induction todo generalizing visited cs with
  | nil => exact ⟨h, subset_rfl, hvisited, fun x hx => absurd hx List.not_mem_nil⟩
  | cons node todo ih =>
    obtain ⟨hnode, htodo⟩ := List.forall_mem_cons.1 htodo
    obtain ⟨hnext, hmono, hsub, hmem⟩ := h.next hsymm hnodes hvisited hnode hfuel
    obtain ⟨hlast, hmono', hsub', hall⟩ := ih htodo hnext hsub
    exact ⟨hlast, hmono.trans hmono', hsub', List.forall_mem_cons.2 ⟨hmono' hmem, hall⟩⟩

/-- **The components of an undirected graph** are the classes of "can be reached". -/
theorem partition_components (hsymm : ∀ x y, y ∈ neighbors x → x ∈ neighbors y)
    (hnodes : ∀ x ∈ nodes, ∀ y ∈ neighbors x, y ∈ nodes) {fuel : ℕ} (hfuel : nodes.card ≤ fuel)
    {todo : List α} (htodo : ∀ x, x ∈ todo ↔ x ∈ nodes) :
    Partition neighbors nodes (components neighbors fuel todo) := by
  have hnone : Partition neighbors ∅ [] := ⟨by simp, List.nodup_nil, by simp, by simp⟩
  obtain ⟨hall, -, hsub, hmem⟩ := partition_foldl hsymm hnodes hfuel (fun x => (htodo x).1) hnone
    (Finset.empty_subset nodes)
  have hvisited : (todo.foldl (nextComponent neighbors fuel) (∅, [])).1 = nodes :=
    hsub.antisymm fun x hx => hmem x ((htodo x).2 hx)
  exact hvisited ▸ hall

/-! ### The order of the components -/

/-- Searches from a list of nodes find the components in the order of their first nodes. -/
theorem pairwise_foldl (hsymm : ∀ x y, y ∈ neighbors x → x ∈ neighbors y)
    (hnodes : ∀ x ∈ nodes, ∀ y ∈ neighbors x, y ∈ nodes) {fuel : ℕ} (hfuel : nodes.card ≤ fuel)
    {todo : List α} (htodo : ∀ x ∈ todo, x ∈ nodes) :
    let found := todo.foldl (nextComponent neighbors fuel) (∅, [])
    found.2.Pairwise (fun c d => todo.findIdx (· ∈ c) < todo.findIdx (· ∈ d)) ∧
      ∀ c ∈ found.2, todo.findIdx (· ∈ c) < todo.length := by
  have hnone : Partition neighbors ∅ [] := ⟨by simp, List.nodup_nil, by simp, by simp⟩
  induction todo using List.reverseRecOn with
  | nil => exact ⟨List.Pairwise.nil, fun c hc => absurd hc List.not_mem_nil⟩
  | append_singleton todo node ih =>
    have htodo' : ∀ x ∈ todo, x ∈ nodes := fun x hx => htodo x (List.mem_append_left _ hx)
    have hnode : node ∈ nodes := htodo node (List.mem_append_right _ (List.mem_singleton_self node))
    obtain ⟨hpart, -, -, hall⟩ := partition_foldl hsymm hnodes hfuel htodo' hnone
      (Finset.empty_subset nodes)
    obtain ⟨hsorted, hfirst⟩ := ih htodo'
    rw [List.foldl_append, List.foldl_cons, List.foldl_nil]
    generalize todo.foldl (nextComponent neighbors fuel) (∅, []) = found at hpart hall hsorted hfirst ⊢
    -- where a component was met does not change
    have hkeep : ∀ c ∈ found.2, (todo ++ [node]).findIdx (· ∈ c) = todo.findIdx (· ∈ c) := fun c hc => by
      rw [List.findIdx_append, if_pos (hfirst c hc)]
    have hsorted' : found.2.Pairwise
        (fun c d => (todo ++ [node]).findIdx (· ∈ c) < (todo ++ [node]).findIdx (· ∈ d)) :=
      hsorted.imp_of_mem fun hc hd hlt => by rwa [hkeep _ hc, hkeep _ hd]
    have hlength : (todo ++ [node]).length = todo.length + 1 := List.length_append
    unfold nextComponent
    split_ifs with hmem
    · refine ⟨hsorted', fun c hc => ?_⟩
      have hlt := hfirst c hc
      rw [hkeep c hc]
      omega
    · have hinv : ((Search.init node found.1).run neighbors fuel).Inv neighbors found.1 node :=
        (Search.inv_init hmem).run fuel
      have hend : ((Search.init node found.1).run neighbors fuel).queue = [] :=
        Search.queue_run (Search.inv_init hmem) hnodes hnode (by omega)
      dsimp only
      generalize (Search.init node found.1).run neighbors fuel = s at hinv hend ⊢
      have hfound : s.component ++ s.queue = s.component := by rw [hend, List.append_nil]
      -- the new one is met at its node, the last of the list
      have hlast : (todo ++ [node]).findIdx (· ∈ s.component) = todo.length := by
        have hnot : todo.findIdx (· ∈ s.component) = todo.length :=
          List.findIdx_eq_length_of_false fun x hx => decide_eq_false fun hc =>
            hinv.fresh x (List.mem_append_left _ hc) (hall x hx)
        have hstart : node ∈ s.component := hfound ▸ hinv.found
        rw [List.findIdx_append, hnot, if_neg (lt_irrefl _), List.findIdx_cons, decide_eq_true hstart]
        exact Nat.zero_add _
      refine ⟨List.pairwise_append.2 ⟨hsorted', List.pairwise_singleton _ _, fun c hc d hd => ?_⟩,
        fun c hc => ?_⟩
      · rw [List.mem_singleton.1 hd, hlast, hkeep c hc]
        exact hfirst c hc
      · rcases List.mem_append.1 hc with hc | hc
        · have hlt := hfirst c hc
          rw [hkeep c hc]
          omega
        · rw [List.mem_singleton.1 hc, hlast]
          omega

/-- **The order of the components** is that of their first nodes in the list. -/
theorem pairwise_components (hsymm : ∀ x y, y ∈ neighbors x → x ∈ neighbors y)
    (hnodes : ∀ x ∈ nodes, ∀ y ∈ neighbors x, y ∈ nodes) {fuel : ℕ} (hfuel : nodes.card ≤ fuel)
    {todo : List α} (htodo : ∀ x ∈ todo, x ∈ nodes) : (components neighbors fuel todo).Pairwise
      fun c d => todo.findIdx (· ∈ c) < todo.findIdx (· ∈ d) :=
  (pairwise_foldl hsymm hnodes hfuel htodo).1

end PodpingAlpha.Components
