import Mathlib.Algebra.BigOperators.Field
import Mathlib.Algebra.BigOperators.Sym
import Mathlib.Algebra.Order.BigOperators.Group.Finset
import Mathlib.Combinatorics.SimpleGraph.Metric
import Mathlib.Combinatorics.SimpleGraph.Walk.Counting
import Mathlib.Data.Rat.Cast.Order
import Mathlib.SetTheory.Cardinal.Order
import Mathlib.Tactic.FieldSimp
import Mathlib.Tactic.Ring

/-!
# Shortest paths and how central a node is

In a graph where each node has finitely many neighbours, the shortest walks between two nodes can be
counted; they are paths. A node is the more central the greater its part of the shortest paths between
the other nodes. From one source, that part can be computed from the far nodes to the near ones.

* `pathCount_eq_sum` — the shortest paths to a node, by the nodes just before it.
* `pathCountThrough_eq` — the shortest paths through a node.
* `dependency_eq_sum` — what goes through a node, by the nodes just after it.
* `centrality_eq` — every pair has two ends.
-/

namespace PodpingAlpha.Geodesics

open SimpleGraph

universe u

variable {V : Type u} {G : SimpleGraph V} {s t v w : V}

/-! ### Walks -/

/-- A neighbour is at most one step further. -/
theorem dist_le_succ (hs : G.Reachable s v) (h : G.Adj v w) : G.dist s w ≤ G.dist s v + 1 := by
  have htri := hs.dist_triangle_left w
  rwa [dist_eq_one_iff_adj.2 h] at htri

/-- Two walks make one, and in one way if their lengths are given. -/
theorem append_inj {p p' : G.Walk s v} {q q' : G.Walk v t} (hlength : p.length = p'.length)
    (h : p.append q = p'.append q') : p = p' ∧ q = q' := by
  have hsupport := congrArg Walk.support h
  rw [Walk.support_append, Walk.support_append] at hsupport
  have hsame : p.support.length = p'.support.length := by
    rw [Walk.length_support, Walk.length_support, hlength]
  obtain ⟨hp, hq⟩ := List.append_inj hsupport hsame
  refine ⟨Walk.ext_support hp, Walk.ext_support ?_⟩
  rw [← q.cons_tail_support, ← q'.cons_tail_support, hq]

section Neighbors

variable (G) [LocallyFinite G]

/-- The nodes that come just before `t` on a shortest path from `s`. -/
noncomputable def preds (s t : V) : Finset V :=
  (G.neighborFinset t).filter fun v => G.dist s v + 1 = G.dist s t

/-- The nodes that come just after `v` on a shortest path from `s`. -/
noncomputable def succs (s v : V) : Finset V :=
  (G.neighborFinset v).filter fun w => G.dist s w = G.dist s v + 1

variable {G}

theorem mem_preds : v ∈ preds G s t ↔ G.Adj v t ∧ G.dist s v + 1 = G.dist s t := by
  rw [preds, Finset.mem_filter, mem_neighborFinset, G.adj_comm]

theorem mem_succs : w ∈ succs G s v ↔ G.Adj v w ∧ G.dist s w = G.dist s v + 1 := by
  rw [succs, Finset.mem_filter, mem_neighborFinset]

theorem mem_preds_iff_mem_succs : v ∈ preds G s w ↔ w ∈ succs G s v := by
  rw [mem_preds, mem_succs, eq_comm]

end Neighbors

/-! ### Counting -/

section Counts

variable [DecidableEq V] (G) [LocallyFinite G]

/-- How many walks of a length there are. -/
def walkCount (n : ℕ) (s t : V) : ℕ := (G.finsetWalkLength n s t).card

/-- The shortest paths. -/
noncomputable def geodesics (s t : V) : Finset (G.Walk s t) := G.finsetWalkLength (G.dist s t) s t

/-- How many shortest paths there are. -/
noncomputable def pathCount (s t : V) : ℕ := (geodesics G s t).card

/-- How many of them go through `v`. -/
noncomputable def pathCountThrough (v s t : V) : ℕ :=
  ((geodesics G s t).filter fun p => v ∈ p.support).card

variable {G} {n : ℕ}

theorem mem_geodesics {p : G.Walk s t} : p ∈ geodesics G s t ↔ p.length = G.dist s t :=
  mem_finsetWalkLength_iff

/-- A first step and the rest. -/
theorem walkCount_succ (n : ℕ) (s t : V) :
    walkCount G (n + 1) s t = ∑ w ∈ G.neighborFinset s, walkCount G n w t := by
  have hsum : ∑ w ∈ G.neighborFinset s, walkCount G n w t =
      ∑ w : G.neighborSet s, walkCount G n w t :=
    Finset.sum_subtype _ (fun w => G.mem_neighborFinset s w) _
  rw [walkCount, finsetWalkLength, hsum, Finset.card_biUnion]
  · exact Finset.sum_congr rfl fun w _ => Finset.card_map _
  · -- walks with different first steps are different
    intro w _ w' _ hne
    rw [Function.onFun, Finset.disjoint_left]
    intro p hp hp'
    obtain ⟨q, -, rfl⟩ := Finset.mem_map.1 hp
    obtain ⟨q', -, hq'⟩ := Finset.mem_map.1 hp'
    have hsteps := Walk.cons.inj hq'
    exact hne (Subtype.ext hsteps.1.symm)

theorem walkCount_comm (n : ℕ) (s t : V) : walkCount G n s t = walkCount G n t s := by
  refine Finset.card_nbij' Walk.reverse Walk.reverse ?_ ?_ ?_ ?_
  · intro p hp
    simpa [mem_finsetWalkLength_iff] using hp
  · intro p hp
    simpa [mem_finsetWalkLength_iff] using hp
  · exact fun p _ => p.reverse_reverse
  · exact fun p _ => p.reverse_reverse

/-- A last step and what comes before. -/
theorem walkCount_succ' (n : ℕ) (s t : V) :
    walkCount G (n + 1) s t = ∑ w ∈ G.neighborFinset t, walkCount G n s w := by
  rw [walkCount_comm, walkCount_succ]
  exact Finset.sum_congr rfl fun w _ => walkCount_comm n w s

theorem walkCount_pos_iff : 0 < walkCount G n s t ↔ ∃ p : G.Walk s t, p.length = n := by
  rw [walkCount, Finset.card_pos]
  exact exists_congr fun p => mem_finsetWalkLength_iff

/-- No walk is shorter than the distance. -/
theorem walkCount_of_lt_dist (h : n < G.dist s t) : walkCount G n s t = 0 := by
  by_contra hne
  obtain ⟨p, hp⟩ := walkCount_pos_iff.1 (Nat.pos_of_ne_zero hne)
  have hle := dist_le p
  omega

/-! ### Shortest paths -/

theorem pathCount_eq (s t : V) : pathCount G s t = walkCount G (G.dist s t) s t := rfl

theorem pathCount_comm (s t : V) : pathCount G s t = pathCount G t s := by
  rw [pathCount_eq, pathCount_eq, dist_comm, walkCount_comm]

@[simp] theorem pathCount_self (s : V) : pathCount G s s = 1 := by
  rw [pathCount_eq, dist_self, walkCount, finsetWalkLength]
  simp

theorem pathCount_pos_iff : 0 < pathCount G s t ↔ G.Reachable s t := by
  rw [pathCount_eq, walkCount_pos_iff]
  exact ⟨fun ⟨p, _⟩ => ⟨p⟩, fun h => h.exists_walk_length_eq_dist⟩

/-- **The count**: the shortest paths to a node are those to the nodes just before it. -/
theorem pathCount_eq_sum (hs : G.Reachable s t) (hne : s ≠ t) :
    pathCount G s t = ∑ v ∈ preds G s t, pathCount G s v := by
  obtain ⟨n, hn⟩ := Nat.exists_eq_succ_of_ne_zero (hs.pos_dist_of_ne hne).ne'
  rw [pathCount_eq, hn, walkCount_succ', preds, Finset.sum_filter]
  refine Finset.sum_congr rfl fun v hv => ?_
  have hadj : G.Adj t v := (G.mem_neighborFinset t v).1 hv
  have hle := dist_le_succ (hs.trans hadj.reachable) hadj.symm
  split_ifs with hdist
  · rw [pathCount_eq]
    congr 1
    omega
  · exact walkCount_of_lt_dist (by omega)

/-- Just before a node there is another one, unless the path begins there. -/
theorem exists_mem_preds (hs : G.Reachable s t) (hne : s ≠ t) : ∃ v, v ∈ preds G s t := by
  have hpos := pathCount_pos_iff.2 hs
  rw [pathCount_eq_sum hs hne] at hpos
  exact Finset.nonempty_of_sum_ne_zero hpos.ne'

/-! ### Through a node -/

/-- The shortest paths from `v` to `t` that continue shortest paths from `s`. -/
noncomputable def onward (G : SimpleGraph V) [LocallyFinite G] (s v t : V) : ℕ :=
  if G.dist s v + G.dist v t = G.dist s t then pathCount G v t else 0

/-- **Through a node**: a shortest path to it and one that continues it. -/
theorem pathCountThrough_eq (hs : G.Reachable s v) (t : V) :
    pathCountThrough G v s t = pathCount G s v * onward G s v t := by
  have htri := hs.dist_triangle_left t
  rw [onward]
  split_ifs with hdist
  · rw [pathCount, pathCount, ← Finset.card_product]
    refine (Finset.card_bij (fun pq _ => pq.1.append pq.2) ?_ ?_ ?_).symm
    · rintro ⟨p, q⟩ hpq
      obtain ⟨hp, hq⟩ := Finset.mem_product.1 hpq
      rw [mem_geodesics] at hp hq
      rw [Finset.mem_filter, mem_geodesics, Walk.length_append, hp, hq]
      exact ⟨hdist, Walk.support_subset_support_append_left p q p.end_mem_support⟩
    · rintro ⟨p, q⟩ hpq ⟨p', q'⟩ hpq' heq
      have hp := mem_geodesics.1 (Finset.mem_product.1 hpq).1
      have hp' := mem_geodesics.1 (Finset.mem_product.1 hpq').1
      obtain ⟨rfl, rfl⟩ := append_inj (hp.trans hp'.symm) heq
      rfl
    · intro p hp
      rw [Finset.mem_filter, mem_geodesics] at hp
      obtain ⟨hp, hv⟩ := hp
      have hlength := congrArg Walk.length (p.take_spec hv)
      rw [Walk.length_append] at hlength
      have hbefore := dist_le (p.takeUntil v hv)
      have hafter := dist_le (p.dropUntil v hv)
      refine ⟨(p.takeUntil v hv, p.dropUntil v hv), ?_, p.take_spec hv⟩
      rw [Finset.mem_product, mem_geodesics, mem_geodesics]
      dsimp only
      omega
  · rw [mul_zero, pathCountThrough, Finset.card_eq_zero, Finset.filter_eq_empty_iff]
    intro p hp hv
    rw [mem_geodesics] at hp
    have hlength := congrArg Walk.length (p.take_spec hv)
    rw [Walk.length_append] at hlength
    have hbefore := dist_le (p.takeUntil v hv)
    have hafter := dist_le (p.dropUntil v hv)
    omega

@[simp] theorem onward_self (s t : V) : onward G s t t = 1 := by
  simp [onward]

/-- What continues a shortest path takes a first step. -/
theorem onward_eq_sum (hs : G.Reachable s v) (ht : G.Reachable s t) (hne : v ≠ t) :
    onward G s v t = ∑ w ∈ succs G s v, onward G s w t := by
  have hvt : G.Reachable v t := hs.symm.trans ht
  have htri := hs.dist_triangle_left t
  rw [onward]
  split_ifs with hdist
  · obtain ⟨n, hn⟩ := Nat.exists_eq_succ_of_ne_zero (hvt.pos_dist_of_ne hne).ne'
    rw [pathCount_eq, hn, walkCount_succ, succs, Finset.sum_filter]
    refine Finset.sum_congr rfl fun w hw => ?_
    have hadj : G.Adj v w := (G.mem_neighborFinset v w).1 hw
    have hw : G.Reachable s w := hs.trans hadj.reachable
    have hstep := dist_le_succ hs hadj
    have hrest := hw.dist_triangle_left t
    have hfirst := dist_le_succ (hvt.symm) hadj
    have hback := dist_le_succ (hvt.symm.trans hadj.reachable) hadj.symm
    rw [G.dist_comm (u := t) (v := w), G.dist_comm (u := t) (v := v)] at hfirst hback
    rw [onward]
    by_cases hn' : G.dist w t = n
    · rw [if_pos (by omega), if_pos (by omega), pathCount_eq, hn']
    · rw [walkCount_of_lt_dist (by omega)]
      split_ifs
      · omega
      · rfl
      · rfl
  · refine (Finset.sum_eq_zero fun w hw => ?_).symm
    obtain ⟨hadj, hw⟩ := mem_succs.1 hw
    have hback := dist_le_succ (hvt.symm.trans hadj.reachable) hadj.symm
    rw [G.dist_comm (u := t) (v := w), G.dist_comm (u := t) (v := v)] at hback
    rw [onward, if_neg (by omega)]

/-! ### Dependencies -/

variable (G) in
/-- The part of the shortest paths from `s` to `t` that goes through `v`. -/
noncomputable def share (v s t : V) : ℚ := pathCountThrough G v s t / pathCount G s t

variable (G) in
/-- How much of the paths from `s` to the other nodes goes through `v`. -/
noncomputable def dependency (nodes : Finset V) (s v : V) : ℚ := ∑ t ∈ nodes.erase v, share G v s t

theorem share_eq (hs : G.Reachable s v) (t : V) :
    share G v s t = pathCount G s v * onward G s v t / pathCount G s t := by
  rw [share, pathCountThrough_eq hs]
  push_cast
  rfl

theorem share_of_not_reachable (h : ¬G.Reachable s t) : share G v s t = 0 := by
  have hnone : pathCount G s t = 0 := by
    rw [← Nat.le_zero]
    exact not_lt.1 (mt pathCount_pos_iff.1 h)
  simp [share, hnone]

/-- Nothing depends on a node that cannot be reached. -/
theorem dependency_of_not_reachable (h : ¬G.Reachable s v) (nodes : Finset V) :
    dependency G nodes s v = 0 := by
  refine Finset.sum_eq_zero fun t _ => ?_
  have hnone : pathCountThrough G v s t = 0 := by
    rw [pathCountThrough, Finset.card_eq_zero, Finset.filter_eq_empty_iff]
    exact fun p _ hv => h ⟨p.takeUntil v hv⟩
  simp [share, hnone]

theorem pathCount_ne_zero (h : G.Reachable s t) : (pathCount G s t : ℚ) ≠ 0 :=
  Nat.cast_ne_zero.2 (pathCount_pos_iff.2 h).ne'

/-- Every path to `t` goes through `t`. -/
theorem share_self (h : G.Reachable s t) : share G t s t = 1 := by
  rw [share_eq h, onward_self, Nat.cast_one, mul_one, div_self (pathCount_ne_zero h)]

/-- No shortest path goes through a node that is further away than its end. -/
theorem share_of_succ (hs : G.Reachable s v) (hw : w ∈ succs G s v) : share G w s v = 0 := by
  obtain ⟨hadj, hdist⟩ := mem_succs.1 hw
  rw [share_eq (hs.trans hadj.reachable), onward, if_neg (by omega)]
  simp

/-- What goes through `v` goes on through the nodes after it. -/
theorem share_eq_sum (hs : G.Reachable s v) (hne : v ≠ t) :
    share G v s t = ∑ w ∈ succs G s v, (pathCount G s v / pathCount G s w : ℚ) * share G w s t := by
  by_cases ht : G.Reachable s t
  · rw [share_eq hs, onward_eq_sum hs ht hne]
    push_cast
    rw [Finset.mul_sum, Finset.sum_div]
    refine Finset.sum_congr rfl fun w hw => ?_
    have hreach : G.Reachable s w := hs.trans (mem_succs.1 hw).1.reachable
    have hw : (pathCount G s w : ℚ) ≠ 0 := pathCount_ne_zero hreach
    rw [share_eq hreach]
    field_simp
  · rw [share_of_not_reachable ht]
    refine (Finset.sum_eq_zero fun w _ => ?_).symm
    rw [share_of_not_reachable ht, mul_zero]

/-- **The recurrence**: the dependency on a node is made of those on the nodes just after it. -/
theorem dependency_eq_sum {nodes : Finset V} (hnodes : ∀ x, G.Reachable s x → x ∈ nodes)
    (hs : G.Reachable s v) :
    dependency G nodes s v = ∑ w ∈ succs G s v,
      (pathCount G s v / pathCount G s w : ℚ) * (1 + dependency G nodes s w) := by
  calc dependency G nodes s v
      = ∑ t ∈ nodes.erase v, ∑ w ∈ succs G s v,
          (pathCount G s v / pathCount G s w : ℚ) * share G w s t :=
        Finset.sum_congr rfl fun t ht => share_eq_sum hs (Finset.ne_of_mem_erase ht).symm
    _ = ∑ w ∈ succs G s v, (pathCount G s v / pathCount G s w : ℚ) *
          ∑ t ∈ nodes.erase v, share G w s t := by
        rw [Finset.sum_comm]
        simp only [Finset.mul_sum]
    _ = _ := by
        refine Finset.sum_congr rfl fun w hw => ?_
        have hreach : G.Reachable s w := hs.trans (mem_succs.1 hw).1.reachable
        rw [Finset.sum_erase nodes (share_of_succ hs hw),
          ← Finset.add_sum_erase nodes _ (hnodes w hreach), share_self hreach, dependency]

/-! ### Centrality -/

theorem pathCountThrough_comm (v s t : V) : pathCountThrough G v s t = pathCountThrough G v t s := by
  refine Finset.card_nbij' Walk.reverse Walk.reverse ?_ ?_ ?_ ?_
  · intro p hp
    simpa [mem_geodesics, dist_comm] using hp
  · intro p hp
    simpa [mem_geodesics, dist_comm] using hp
  · exact fun p _ => p.reverse_reverse
  · exact fun p _ => p.reverse_reverse

theorem share_comm (v s t : V) : share G v s t = share G v t s := by
  rw [share, share, pathCountThrough_comm, pathCount_comm]

/-- The path from a node to itself goes through no other node. -/
theorem share_diag (h : s ≠ v) : share G v s s = 0 := by
  have hnone : pathCountThrough G v s s = 0 := by
    rw [pathCountThrough, Finset.card_eq_zero, Finset.filter_eq_empty_iff]
    intro p hp
    rw [mem_geodesics, dist_self] at hp
    obtain rfl := Walk.eq_nil_iff_nil.2 (Walk.length_eq_zero_iff.1 hp)
    simpa using h.symm
  simp [share, hnone]

open Classical in
variable (G) in
/-- The part of the shortest paths between two nodes that goes through `v`, if there are any. -/
noncomputable def pairShare (v : V) : Sym2 V → ℚ :=
  Sym2.lift ⟨fun s t => if G.Reachable s t then share G v s t else 0, fun s t => by
    dsimp only
    rw [share_comm, G.reachable_comm]⟩

variable (G) in
/-- **Betweenness centrality**: the sum over the unordered pairs of two of the other nodes. -/
noncomputable def centrality (nodes : Finset V) (v : V) : ℚ :=
  ∑ pair ∈ (nodes.erase v).sym2 with ¬pair.IsDiag, pairShare G v pair

theorem pairShare_mk (v s t : V) : pairShare G v s(s, t) = share G v s t := by
  rw [pairShare, Sym2.lift_mk]
  dsimp only
  split_ifs with h
  · rfl
  · exact (share_of_not_reachable h).symm

end Counts

/-- Each pair is counted from both of its ends: in order. -/
theorem centrality_eq_of_order [LinearOrder V] [LocallyFinite G] (nodes : Finset V) (v : V) :
    centrality G nodes v = (∑ s ∈ nodes.erase v, dependency G nodes s v) / 2 := by
  have hdiag : ∑ p ∈ (nodes.erase v).diag, share G v p.1 p.2 = 0 := by
    refine Finset.sum_eq_zero fun p hp => ?_
    obtain ⟨hp, heq⟩ := Finset.mem_diag.1 hp
    rw [← heq]
    exact share_diag (Finset.ne_of_mem_erase hp)
  have hswap : ∑ p ∈ (nodes.erase v).offDiag with ¬p.1 < p.2, share G v p.1 p.2 =
      ∑ p ∈ (nodes.erase v).offDiag with p.1 < p.2, share G v p.1 p.2 := by
    refine Finset.sum_nbij' Prod.swap Prod.swap ?_ ?_ (fun _ _ => rfl) (fun _ _ => rfl)
      fun p _ => share_comm v p.1 p.2
    · rintro ⟨s, t⟩ hp
      rw [Prod.swap_prod_mk]
      simp only [Finset.mem_filter, Finset.mem_offDiag, not_lt] at hp ⊢
      exact ⟨⟨hp.1.2.1, hp.1.1, hp.1.2.2.symm⟩, lt_of_le_of_ne hp.2 hp.1.2.2.symm⟩
    · rintro ⟨s, t⟩ hp
      rw [Prod.swap_prod_mk]
      simp only [Finset.mem_filter, Finset.mem_offDiag, not_lt] at hp ⊢
      exact ⟨⟨hp.1.2.1, hp.1.1, hp.1.2.2.symm⟩, hp.2.le⟩
  have hpairs : centrality G nodes v =
      ∑ p ∈ (nodes.erase v).offDiag with p.1 < p.2, share G v p.1 p.2 := by
    rw [centrality, Finset.sum_sym2_filter_not_isDiag]
    exact Finset.sum_congr rfl fun p _ => pairShare_mk v p.1 p.2
  have hordered : ∑ s ∈ nodes.erase v, dependency G nodes s v =
      ∑ p ∈ (nodes.erase v).offDiag, share G v p.1 p.2 := by
    simp only [dependency]
    rw [← Finset.sum_product', ← Finset.diag_union_offDiag,
      Finset.sum_union (Finset.disjoint_diag_offDiag _), hdiag, zero_add]
  rw [hordered, ← Finset.sum_filter_add_sum_filter_not _ fun p : V × V => p.1 < p.2, hswap, ← hpairs]
  ring

/-- **Each pair is counted from both of its ends.** -/
theorem centrality_eq [inst : DecidableEq V] [LocallyFinite G] (nodes : Finset V) (v : V) :
    centrality G nodes v = (∑ s ∈ nodes.erase v, dependency G nodes s v) / 2 := by
  obtain ⟨order, -⟩ := exists_wellFoundedLT V
  obtain rfl : inst = order.toDecidableEq := Subsingleton.elim _ _
  exact centrality_eq_of_order nodes v

end PodpingAlpha.Geodesics
