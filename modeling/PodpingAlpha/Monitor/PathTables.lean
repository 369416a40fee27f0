import PodpingAlpha.Library.KeyMap
import PodpingAlpha.Monitor.Topology

/-!
# Betweenness, with hash tables

`compute_betweenness` of `gossip-monitor/src/topology.rs` once more, with the hash tables of the
source. To index one by a key that is not there panics, and so does `get_mut(..).unwrap()`.

A neighbour that is not among the nodes would make the function panic. Where there is none, the tables
have the nodes as their keys from beginning to end, and what is under them is what the functions of
`PathSearch` have there.

* `step_of`, `run_of` — the search.
* `popStack_of`, `backPropagate_of` — back-propagation.
* `computeBetweenness_eq` — the whole.
-/

namespace PodpingAlpha.Monitor

open Outcome (Rust)

variable {F : Type}

/-- The search from one source of `compute_betweenness`. -/
structure PathTables (F : Type) where
  /-- `stack`, the last node first. -/
  stack : List String
  /-- `predecessors`. -/
  predecessors : KeyMap String (List String)
  /-- `sigma`. -/
  sigma : KeyMap String F
  /-- `dist`. -/
  dist : KeyMap String ℤ
  /-- `queue`. -/
  queue : List String

namespace PathTables

/-- The search begins at `s`. -/
def init [OfScientific F] (nodes : List String) (s : String) : PathTables F where
  stack := []
  predecessors := .fill nodes []
  sigma := (KeyMap.fill nodes 0.0).insert s 1.0
  dist := (KeyMap.fill nodes (-1)).insert s 0
  queue := [s]

/-- `w` is found for the first time. -/
def find (dV : ℤ) (t : PathTables F) (w : String) : Rust (PathTables F) := do
  let dW ← t.dist.index w
  if dW < 0 then pure { t with dist := t.dist.insert w (dV + 1), queue := t.queue ++ [w] } else pure t

section Search

variable [Add F]

/-- There is a shortest path to `w` by way of `v`. -/
def count (v : String) (dV : ℤ) (t : PathTables F) (w : String) : Rust (PathTables F) := do
  let dW ← t.dist.index w
  if dW = dV + 1 then
    let sigmaV ← t.sigma.index v
    let sigma ← t.sigma.modify w (· + sigmaV)
    let predecessors ← t.predecessors.modify w (· ++ [v])
    pure { t with sigma, predecessors }
  else pure t

/-- A neighbour `w` of `v` is looked at. -/
def look (v : String) (dV : ℤ) (t : PathTables F) (w : String) : Rust (PathTables F) := do
  let t ← t.find dV w
  t.count v dV w

/-- One node is taken from the queue, and its neighbours are looked at. -/
def step (visits : Visits) (adj : KeyMap String (Finset String)) (t : PathTables F) :
    Rust (PathTables F) :=
  match t.queue with
  | [] => pure t
  | v :: queue => do
    let t := { t with stack := v :: t.stack, queue }
    let dV ← t.dist.index v
    match adj v with
    | some neighbors => (visits.order (.adj v) neighbors).foldlM (look v dV) t
    | none => pure t

/-- The search goes on until the queue is empty. It fails if that takes too many steps. -/
def run (visits : Visits) (adj : KeyMap String (Finset String)) :
    ℕ → PathTables F → OptionT Rust (PathTables F)
  | 0, t => if t.queue.isEmpty then pure t else failure
  | fuel + 1, t =>
    if t.queue.isEmpty then pure t
    else do
      let t ← (t.step visits adj : Rust (PathTables F))
      run visits adj fuel t

end Search

section Scores

variable [Add F] [Mul F] [Div F] [OfScientific F]

/-- What `w` gives back to one of its predecessors. -/
def giveTo (t : PathTables F) (w : String) (delta : KeyMap String F) (v : String) :
    Rust (KeyMap String F) := do
  let sigmaV ← t.sigma.index v
  let sigmaW ← t.sigma.index w
  let deltaW ← delta.index w
  let d := (sigmaV / sigmaW) * (1.0 + deltaW)
  delta.modify v (· + d)

/-- A node leaves the stack and gives back. -/
def popStack (s : String) (t : PathTables F) (scores : KeyMap String F × KeyMap String F) (w : String) :
    Rust (KeyMap String F × KeyMap String F) := do
  let predecessors ← t.predecessors.index w
  let delta ← predecessors.foldlM (t.giveTo w) scores.1
  if w ≠ s then
    let deltaW ← delta.index w
    let betweenness ← scores.2.modify w (· + deltaW)
    pure (delta, betweenness)
  else pure (delta, scores.2)

/-- The nodes give back in the order in which they leave the stack. -/
def backPropagate (nodes : List String) (t : PathTables F) (s : String)
    (betweenness : KeyMap String F) : Rust (KeyMap String F) := do
  let scores ← t.stack.foldlM (t.popStack s) (KeyMap.fill nodes 0.0, betweenness)
  pure scores.2

/-- One turn of the loop over the sources. -/
def addSource (visits : Visits) (nodes : List String) (adj : KeyMap String (Finset String))
    (betweenness : KeyMap String F) (s : String) : OptionT Rust (KeyMap String F) := do
  -- every round takes another node from the queue
  let t ← run visits adj nodes.length (init nodes s)
  (t.backPropagate nodes s betweenness : Rust (KeyMap String F))

/-- `compute_betweenness`. -/
def computeBetweenness (visits : Visits) (nodes : List String) (adj : KeyMap String (Finset String)) :
    OptionT Rust (KeyMap String F) := do
  let betweenness ← nodes.foldlM (addSource visits nodes adj) (KeyMap.fill nodes 0.0)
  pure (betweenness.mapValues (· / 2.0))

end Scores

/-! ### The two versions -/

/-- The tables of a search, which have the nodes as keys. -/
def of (nodes : List String) (search : PathSearch F) : PathTables F where
  stack := search.stack
  predecessors := .on nodes search.predecessors
  sigma := .on nodes search.sigma
  dist := .on nodes search.dist
  queue := search.queue

/-- A search that stays among the nodes. -/
structure Inside (nodes : List String) (search : PathSearch F) : Prop where
  /-- What has been visited. -/
  stack : ∀ v ∈ search.stack, v ∈ nodes
  /-- What comes just before. -/
  predecessors : ∀ w, ∀ v ∈ search.predecessors w, v ∈ nodes
  /-- What waits. -/
  queue : ∀ v ∈ search.queue, v ∈ nodes

variable {nodes : List String} {search : PathSearch F} {s v w : String} {dV : ℤ}

theorem init_eq [OfScientific F] (hs : s ∈ nodes) : (init nodes s : PathTables F) = of nodes (.init s) := by
  simp only [init, of, PathSearch.init, KeyMap.fill_eq, KeyMap.insert_on hs]

theorem inside_init [OfScientific F] (hs : s ∈ nodes) : Inside nodes (.init s : PathSearch F) where
  stack := fun _ hv => absurd hv List.not_mem_nil
  predecessors := fun _ _ hv => absurd hv List.not_mem_nil
  queue := fun _ hv => List.mem_singleton.1 hv ▸ hs

theorem find_of (hw : w ∈ nodes) : (of nodes search).find dV w = pure (of nodes (search.find dV w)) := by
  rw [find, PathSearch.find]
  simp only [of, KeyMap.index_on hw, KeyMap.insert_on hw, pure, Except.pure, bind, Except.bind]
  split_ifs <;> rfl

section Search

variable [Add F]

theorem count_of (hv : v ∈ nodes) (hw : w ∈ nodes) :
    (of nodes search).count v dV w = pure (of nodes (search.count v dV w)) := by
  rw [count, PathSearch.count]
  simp only [of, KeyMap.index_on hw, KeyMap.index_on hv, KeyMap.modify_on hw, pure, Except.pure, bind,
    Except.bind]
  split_ifs <;> rfl

theorem look_of (hv : v ∈ nodes) (hw : w ∈ nodes) :
    (of nodes search).look v dV w = pure (of nodes ((search.find dV w).count v dV w)) := by
  rw [look, find_of hw, pure_bind, count_of hv hw]

theorem Inside.look (h : Inside nodes search) (hv : v ∈ nodes) (hw : w ∈ nodes) :
    Inside nodes ((search.find dV w).count v dV w) := by
  have hfind : Inside nodes (search.find dV w) := by
    rw [PathSearch.find]
    split_ifs
    · refine ⟨h.stack, h.predecessors, fun x hx => ?_⟩
      obtain hx | hx := List.mem_append.1 hx
      · exact h.queue x hx
      · exact List.mem_singleton.1 hx ▸ hw
    · exact h
  rw [PathSearch.count]
  split_ifs
  · refine ⟨hfind.stack, fun x u hu => ?_, hfind.queue⟩
    by_cases hx : x = w
    · subst hx
      dsimp only at hu
      rw [Function.update_self] at hu
      obtain hu | hu := List.mem_append.1 hu
      · exact hfind.predecessors x u hu
      · exact List.mem_singleton.1 hu ▸ hv
    · dsimp only at hu
      rw [Function.update_of_ne hx] at hu
      exact hfind.predecessors x u hu
  · exact hfind

/-- The neighbours of a node in the order in which they are visited, if it is in the table. -/
def rows (visits : Visits) (adj : KeyMap String (Finset String)) (v : String) : List String :=
  (adj v).elim [] (visits.order (.adj v))

variable {visits : Visits} {adj : KeyMap String (Finset String)}

/-- A step. -/
theorem step_of (hrows : ∀ x y, y ∈ rows visits adj x → y ∈ nodes) (h : Inside nodes search) :
    (of nodes search).step visits adj = pure (of nodes (search.step (rows visits adj))) ∧
      Inside nodes (search.step (rows visits adj)) := by
  obtain ⟨stack, predecessors, sigma, dist, queue⟩ := search
  cases queue with
  | nil => exact ⟨rfl, h⟩
  | cons v queue =>
    have hv : v ∈ nodes := h.queue v List.mem_cons_self
    have hinside : Inside nodes (⟨v :: stack, predecessors, sigma, dist, queue⟩ : PathSearch F) :=
      ⟨List.forall_mem_cons.2 ⟨hv, h.stack⟩, h.predecessors,
        fun x hx => h.queue x (List.mem_cons_of_mem v hx)⟩
    obtain ⟨hloop, hinside'⟩ := foldlM_eq (a := of nodes) (I := Inside nodes) (f := look v (dist v))
      (g := fun search w => (search.find (dist v) w).count v (dist v) w)
      (fun search w hw hin => ⟨look_of hv (hrows v w hw), hin.look hv (hrows v w hw)⟩) hinside
    refine ⟨?_, hinside'⟩
    rw [PathSearch.step, ← hloop, step]
    dsimp only [of]
    rw [KeyMap.index_on hv, rows]
    cases adj v <;> rfl

/-- A search. -/
theorem run_of (hrows : ∀ x y, y ∈ rows visits adj x → y ∈ nodes) (h : Inside nodes search)
    (fuel : ℕ) (hend : (search.run (rows visits adj) fuel).queue = []) :
    (of nodes search).run visits adj fuel = pure (of nodes (search.run (rows visits adj) fuel)) ∧
      Inside nodes (search.run (rows visits adj) fuel) := by
  induction fuel generalizing search with
  | zero =>
    have hempty : (of nodes search).queue.isEmpty = true := List.isEmpty_iff.2 hend
    exact ⟨if_pos hempty, h⟩
  | succ fuel ih =>
    rw [PathSearch.run] at hend ⊢
    rw [run]
    show (if search.queue.isEmpty then _ else _) = _ ∧ _
    by_cases hempty : search.queue.isEmpty = true
    · rw [if_pos hempty, if_pos hempty]
      exact ⟨rfl, h⟩
    · rw [if_neg hempty] at hend
      rw [if_neg hempty, if_neg hempty]
      obtain ⟨hstep, hinside⟩ := step_of hrows h
      obtain ⟨hrun, hinside'⟩ := ih hinside hend
      rw [hstep]
      exact ⟨hrun, hinside'⟩

end Search

section Scores

variable [Add F] [Mul F] [Div F] [OfScientific F]

/-- One node of the stack. -/
theorem popStack_of (h : Inside nodes search) (hw : w ∈ nodes) (scores : (String → F) × (String → F)) :
    (of nodes search).popStack s (.on nodes scores.1, .on nodes scores.2) w =
      pure (.on nodes (search.giveBack scores.1 w), .on nodes
        (if w ≠ s then Function.update scores.2 w (scores.2 w + search.giveBack scores.1 w w)
          else scores.2)) := by
  have hgive : ∀ delta : String → F, ∀ v ∈ search.predecessors w,
      (of nodes search).giveTo w (.on nodes delta) v = pure (KeyMap.on nodes (Function.update delta v
        (delta v + (search.sigma v / search.sigma w) * (1.0 + delta w)))) := by
    intro delta v hv
    have hv : v ∈ nodes := h.predecessors w v hv
    simp only [giveTo, of, KeyMap.index_on hv, KeyMap.index_on hw, KeyMap.modify_on hv, pure,
      Except.pure, bind, Except.bind]
  have hloop : (search.predecessors w).foldlM ((of nodes search).giveTo w) (.on nodes scores.1) =
      pure (KeyMap.on nodes (search.giveBack scores.1 w)) := foldlM_pure hgive scores.1
  have hindex : (of nodes search).predecessors.index w = pure (search.predecessors w) :=
    KeyMap.index_on hw
  rw [popStack, hindex, pure_bind, hloop, pure_bind]
  split_ifs
  · rw [KeyMap.index_on hw]
    show (KeyMap.modify (.on nodes scores.2) w _ >>= _) = _
    rw [KeyMap.modify_on hw]
    rfl
  · rfl

/-- The stack. -/
theorem backPropagate_of (h : Inside nodes search) (betweenness : String → F) :
    (of nodes search).backPropagate nodes s (.on nodes betweenness) =
      pure (.on nodes (search.backPropagate s betweenness)) := by
  have hloop := foldlM_pure (f := (of nodes search).popStack s)
    (a := fun scores : (String → F) × (String → F) =>
      (KeyMap.on nodes scores.1, KeyMap.on nodes scores.2))
    (g := fun scores w => (search.giveBack scores.1 w,
      if w ≠ s then Function.update scores.2 w (scores.2 w + search.giveBack scores.1 w w)
      else scores.2))
    (fun scores w hw => popStack_of h (h.stack w hw) scores) (fun _ => 0.0, betweenness)
  rw [backPropagate, KeyMap.fill_eq]
  show (search.stack.foldlM _ _ >>= _) = _
  rw [hloop]
  rfl

/-- **The two versions**: the hash tables never lack a key, the loops end, and the result has the nodes
as its keys. -/
theorem computeBetweenness_eq {visits : Visits} {adj : KeyMap String (Finset String)}
    (hrows : ∀ x y, y ∈ rows visits adj x → y ∈ nodes) (hsearch : ∀ s ∈ nodes,
      ((PathSearch.init s : PathSearch F).run (rows visits adj) nodes.length).queue = []) :
    computeBetweenness visits nodes adj =
      pure (.on nodes (Monitor.computeBetweenness nodes (rows visits adj) : String → F)) := by
  have hsource : ∀ betweenness : String → F, ∀ s ∈ nodes,
      addSource visits nodes adj (.on nodes betweenness) s = pure (KeyMap.on nodes
        (((PathSearch.init s).run (rows visits adj) nodes.length).backPropagate s betweenness)) := by
    intro betweenness s hs
    obtain ⟨hrun, hinside⟩ := run_of hrows (inside_init hs) nodes.length (hsearch s hs)
    rw [addSource, init_eq hs, hrun, pure_bind, backPropagate_of hinside]
    rfl
  rw [computeBetweenness, KeyMap.fill_eq, foldlM_pure hsource, pure_bind, KeyMap.mapValues_on]
  rfl

end Scores

end PathTables

end PodpingAlpha.Monitor
