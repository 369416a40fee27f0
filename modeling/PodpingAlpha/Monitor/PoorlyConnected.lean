import PodpingAlpha.Monitor.Healing
import Mathlib.Algebra.Order.Ring.Rat
import Mathlib.Data.Finset.Sort
import Mathlib.Data.String.Basic

/-!
# Poorly connected peers

Which peers with fewer than two neighbours get a suggestion. Step 5 counts the entries of a node in
`adj`, and a peer that lists itself is its own neighbour there.

## What is proved

* `mem_mainComponent_iff` — the chosen component, in terms of the graph and the order of the nodes.
* `mainSuggestion_isSome_iff` — what step 5 does with a poorly connected node.
* `noticed_iff` — all of them get a suggestion exactly when none that lists itself, is in the chosen
  component and has one other neighbour sees much beyond it.
* `self_listed_unnoticed` — three peers, one of which lists itself.
-/

namespace PodpingAlpha.Monitor

open Components (Reach Partition)

universe u

/-! ### The graph -/

namespace SwarmSnapshot

variable (snapshot : SwarmSnapshot)

instance (x y : String) : Decidable (snapshot.Reports x y) :=
  inferInstanceAs (Decidable (∃ peer ∈ _, _))

/-- The other peers that are not stale and adjacent to `x`. -/
def others (x : String) : Finset String :=
  snapshot.activeIds.filter fun y => y ≠ x ∧ (snapshot.Reports x y ∨ snapshot.Reports y x)

/-- There is a path. -/
def Joined (x y : String) : Prop := Relation.ReflTransGen (fun x y => y ∈ snapshot.adj x) x y

end SwarmSnapshot

section Choice

open Classical in
/-- How many peers a peer is joined to. -/
noncomputable def SwarmSnapshot.size (snapshot : SwarmSnapshot) (x : String) : ℕ :=
  (snapshot.activeIds.filter (snapshot.Joined x)).card

open Classical in
/-- The place of the first of these in `nodes`. -/
noncomputable def firstMet (visits : Visits) (snapshot : SwarmSnapshot) (x : String) : ℕ :=
  (nodes visits snapshot).findIdx fun y => snapshot.Joined x y

/-- The peers that `x` is joined to are more than those of any other one, or as many, and met
later. -/
def InLargest (visits : Visits) (snapshot : SwarmSnapshot) (x : String) : Prop :=
  ∀ z ∈ snapshot.activeIds, ¬snapshot.Joined x z → snapshot.size z < snapshot.size x ∨
    snapshot.size z = snapshot.size x ∧ firstMet visits snapshot z < firstMet visits snapshot x

variable {visits : Visits} {snapshot : SwarmSnapshot} {x y z : String}

theorem reach_iff_joined : Reach (neighbors visits snapshot) x y ↔ snapshot.Joined x y := by
  have hlink : (fun x y => y ∈ neighbors visits snapshot x) = fun x y => y ∈ snapshot.adj x := by
    funext x y
    exact propext mem_neighbors
  rw [Reach, hlink]
  exact Iff.rfl

/-- A component is what each of its nodes is joined to. -/
theorem mem_component_iff {component : List String} (hc : component ∈ components visits snapshot)
    (hx : x ∈ component) : y ∈ component ↔ snapshot.Joined x y := by
  rw [partition_components.reach component hc x hx y, reach_iff_joined]

theorem length_component {component : List String} (hc : component ∈ components visits snapshot)
    (hx : x ∈ component) : component.length = snapshot.size x := by
  classical
  have hpartition : Partition (neighbors visits snapshot) _ (components visits snapshot) :=
    partition_components
  have hnodup := (List.nodup_flatten.1 hpartition.nodup).1 component hc
  rw [← List.toFinset_card_of_nodup hnodup, SwarmSnapshot.size]
  congr 1
  ext y
  rw [List.mem_toFinset, Finset.mem_filter, mem_component_iff hc hx]
  refine (and_iff_right_of_imp fun hy => ?_).symm
  exact partition_components.mem_of_mem hc ((mem_component_iff hc hx).2 hy)

theorem findIdx_component {component : List String} (hc : component ∈ components visits snapshot)
    (hx : x ∈ component) :
    (nodes visits snapshot).findIdx (· ∈ component) = firstMet visits snapshot x := by
  rw [firstMet]
  congr 1
  funext y
  exact decide_eq_decide.2 (mem_component_iff hc hx)

/-- Components come in the order of their first nodes. -/
theorem firstMet_lt {i j : ℕ} {c d : List String} (hij : i < j)
    (hi : (components visits snapshot)[i]? = some c) (hj : (components visits snapshot)[j]? = some d)
    (hx : x ∈ c) (hy : y ∈ d) : firstMet visits snapshot x < firstMet visits snapshot y := by
  have hsorted : (components visits snapshot).Pairwise fun c d =>
      (nodes visits snapshot).findIdx (· ∈ c) < (nodes visits snapshot).findIdx (· ∈ d) := by
    refine @Components.pairwise_components _ _ _ snapshot.activeIds (fun x y hy => ?_)
      (fun x _ y hy => ?_) _ length_nodes.ge _ fun x => mem_nodes.1
    · exact mem_neighbors.2 (SwarmSnapshot.mem_adj_comm.1 (mem_neighbors.1 hy))
    · exact (SwarmSnapshot.mem_adj.1 (mem_neighbors.1 hy)).2.1
  rw [← findIdx_component (List.mem_of_getElem? hi) hx, ← findIdx_component (List.mem_of_getElem? hj) hy]
  obtain ⟨hlti, rfl⟩ := List.getElem?_eq_some_iff.1 hi
  obtain ⟨hltj, rfl⟩ := List.getElem?_eq_some_iff.1 hj
  exact List.pairwise_iff_getElem.1 hsorted i j hlti hltj hij

/-- The first of the greatest comes before the others. -/
theorem eq_or_rel_of_argmax {α : Type*} [DecidableEq α] {R : α → α → Prop} {score : α → ℕ}
    {l : List α} (hl : l.Pairwise R) {m a : α} (hm : m ∈ l.argmax score) (ha : a ∈ l)
    (hle : score m ≤ score a) : m = a ∨ R m a := by
  have hmem := List.argmax_mem hm
  rcases (List.index_of_argmax hm ha hle).lt_or_eq with hlt | heq
  · have hrel := List.pairwise_iff_getElem.1 hl _ _ (List.idxOf_lt_length_iff.2 hmem)
      (List.idxOf_lt_length_iff.2 ha) hlt
    rw [List.getElem_idxOf, List.getElem_idxOf] at hrel
    exact .inr hrel
  · exact .inl ((List.idxOf_inj hmem).1 heq)

/-- Of the largest components the last one is chosen. -/
theorem le_largestIdx {j : ℕ} {d : List String} (hj : (components visits snapshot)[j]? = some d)
    (hlength : d.length = (mainComponent visits snapshot).length) (hx : x ∈ snapshot.activeIds) :
    j ≤ largestIdx visits snapshot := by
  obtain ⟨hmain, hlargest⟩ := getElem?_largestIdx visits hx
  have hdown : (components visits snapshot).zipIdx.reverse.Pairwise fun a b => b.2 < a.2 := by
    rw [List.pairwise_reverse, ← List.pairwise_map (f := Prod.snd) (R := (· < ·)), List.zipIdx_map_snd]
    exact List.pairwise_lt_range'
  have hmem : ∀ {c : List String} {i : ℕ}, (components visits snapshot)[i]? = some c →
      (c, i) ∈ (components visits snapshot).zipIdx.reverse := fun hget =>
    List.mem_reverse.2 (List.mk_mem_zipIdx_iff_getElem?.2 hget)
  have hchosen : (mainComponent visits snapshot, largestIdx visits snapshot) ∈
      (components visits snapshot).zipIdx.reverse.argmax fun c => c.1.length := by
    obtain ⟨⟨main, i⟩, hargmax⟩ := Option.ne_none_iff_exists'.1
      (mt (List.argmax_eq_none (f := fun c : List String × ℕ => c.1.length)).1
        (List.ne_nil_of_mem (hmem hmain)))
    have hidx : largestIdx visits snapshot = i := by rw [largestIdx, hargmax, Option.elim_some]
    have hget := List.mk_mem_zipIdx_iff_getElem?.1 (List.mem_reverse.1 (List.argmax_mem hargmax))
    rw [← hidx, hmain] at hget
    rw [Option.some.inj hget, hidx]
    exact hargmax
  rcases eq_or_rel_of_argmax hdown hchosen (hmem hj) hlength.ge with heq | hlt
  · exact (Prod.mk.inj heq).2.ge
  · exact hlt.le

/-- **The chosen component**. -/
theorem mem_mainComponent_iff (hx : x ∈ snapshot.activeIds) :
    x ∈ mainComponent visits snapshot ↔ InLargest visits snapshot x := by
  obtain ⟨hmain, hlargest⟩ := getElem?_largestIdx visits hx
  have hmem := List.mem_of_getElem? hmain
  have hpart : Partition _ _ (components visits snapshot) := partition_components
  constructor
  · intro hin z hz hnot
    obtain ⟨d, hd, hzd⟩ := hpart.exists_mem hz
    obtain ⟨j, hj⟩ := List.mem_iff_getElem?.1 hd
    rw [← length_component hd hzd, ← length_component hmem hin]
    rcases (hlargest d hd).lt_or_eq with hlt | heq
    · exact .inl hlt
    · refine .inr ⟨heq, firstMet_lt (lt_of_le_of_ne (le_largestIdx hj heq hx) fun hij => ?_) hj hmain hzd hin⟩
      rw [hij, hmain] at hj
      obtain rfl := Option.some.inj hj
      exact hnot ((mem_component_iff hmem hin).1 hzd)
  · intro hall
    by_contra hout
    obtain ⟨d, hd, hxd⟩ := hpart.exists_mem hx
    obtain ⟨j, hj⟩ := List.mem_iff_getElem?.1 hd
    obtain ⟨z, hz⟩ := List.exists_mem_of_ne_nil _ (hpart.ne_nil _ hmem)
    have hnot : ¬snapshot.Joined x z := fun hjoined => by
      have hzd := (mem_component_iff hd hxd).2 hjoined
      have hij := hpart.index_eq hj hmain hzd hz
      rw [hij, hmain] at hj
      exact hout (Option.some.inj hj ▸ hxd)
    have hle := hlargest d hd
    rcases hall z (hpart.mem_of_mem hmem hz) hnot with hlt | ⟨heq, hlt⟩
    · rw [← length_component hd hxd, ← length_component hmem hz] at hlt
      omega
    · rw [← length_component hd hxd, ← length_component hmem hz] at heq
      have hji : j < largestIdx visits snapshot := by
        refine lt_of_le_of_ne (le_largestIdx hj heq.symm hx) fun hij => ?_
        rw [hij, hmain] at hj
        exact hout (Option.some.inj hj ▸ hxd)
      exact absurd (firstMet_lt hji hj hmain hxd hz) (by omega)

end Choice

/-! ### The neighbours -/

namespace SwarmSnapshot

variable {snapshot : SwarmSnapshot} {x y : String}

theorem mem_others : y ∈ snapshot.others x ↔
    y ∈ snapshot.activeIds ∧ y ≠ x ∧ (snapshot.Reports x y ∨ snapshot.Reports y x) :=
  Finset.mem_filter

/-- In `adj` a peer that lists itself is there as well. -/
theorem mem_adj_iff (hx : x ∈ snapshot.activeIds) :
    y ∈ snapshot.adj x ↔ y ∈ snapshot.others x ∨ y = x ∧ snapshot.Reports x x := by
  rw [mem_adj, mem_others]
  by_cases hyx : y = x
  · subst hyx
    simp [hx]
  · simp [hx, hyx]

theorem adj_eq_others (hx : x ∈ snapshot.activeIds) (hself : ¬snapshot.Reports x x) :
    snapshot.adj x = snapshot.others x := by
  ext y
  rw [mem_adj_iff hx, or_iff_left fun h => hself h.2]

theorem adj_eq_insert (hx : x ∈ snapshot.activeIds) (hself : snapshot.Reports x x) :
    snapshot.adj x = insert x (snapshot.others x) := by
  ext y
  rw [mem_adj_iff hx, and_iff_left hself, Finset.mem_insert, or_comm]

/-- The only other neighbour of `x` is adjacent to it. -/
theorem adjacent_of_others (hx : x ∈ snapshot.activeIds) (hothers : snapshot.others x = {y}) :
    y ∈ snapshot.activeIds ∧ y ≠ x ∧ y ∈ snapshot.adj x := by
  have hy : y ∈ snapshot.others x := hothers ▸ Finset.mem_singleton_self y
  obtain ⟨hactive, hne, -⟩ := mem_others.1 hy
  exact ⟨hactive, hne, (mem_adj_iff hx).2 (.inl hy)⟩

/-- The nodes at two hops are then the others of this neighbour. -/
theorem twoHop_eq (hx : x ∈ snapshot.activeIds) (hself : snapshot.Reports x x)
    (hothers : snapshot.others x = {y}) : twoHop snapshot x = (snapshot.others y).erase x := by
  obtain ⟨hy, hne, -⟩ := adjacent_of_others hx hothers
  have hadj : snapshot.adj x = {x, y} := by rw [adj_eq_insert hx hself, hothers]
  ext z
  rw [twoHop, Finset.mem_biUnion, Finset.mem_erase]
  simp only [hadj, Finset.mem_insert, Finset.mem_singleton, exists_eq_or_imp, exists_eq_left,
    Finset.mem_filter, not_or]
  constructor
  · rintro (⟨h, hzx, -, hzy⟩ | ⟨h, hzx, -, hzy⟩)
    · exact absurd h (not_or.2 ⟨hzx, hzy⟩)
    · exact ⟨hzx, ((mem_adj_iff hy).1 h).resolve_right fun h => hzy h.1⟩
  · rintro ⟨hzx, h⟩
    exact .inr ⟨(mem_adj_iff hy).2 (.inl h), hzx, hzx, (mem_others.1 h).2.1⟩

end SwarmSnapshot

section Suggestions

variable {F : Type u} [Add F] [Sub F] [Mul F] [Div F] [NatCast F] [OfScientific F] [LT F]
  [DecidableLT F]
variable {visits : Visits} {snapshot : SwarmSnapshot} {now : UInt64} {x y : String}

/-- The peers adjacent to `y` but for `x`, of all others than `x`. -/
def reachBeyond (F : Type u) [Div F] [NatCast F] (snapshot : SwarmSnapshot) (x y : String) : F :=
  (((snapshot.others y).erase x).card : F) / ((snapshot.activeIds.card - 1 : ℕ) : F)

omit [Add F] [Sub F] [Mul F] [LT F] [DecidableLT F] in
/-- A node and its only other neighbour are one edge, of one that is possible. -/
theorem clusterDensity_eq (hx : x ∈ snapshot.activeIds) (hself : snapshot.Reports x x)
    (hothers : snapshot.others x = {y}) :
    clusterDensity (F := F) visits snapshot x = ((1 : ℕ) : F) / ((1 : ℕ) : F) := by
  obtain ⟨-, hne, hyx⟩ := SwarmSnapshot.adjacent_of_others hx hothers
  have hadj : snapshot.adj x = {x, y} := by rw [SwarmSnapshot.adj_eq_insert hx hself, hothers]
  have hcard : (snapshot.adj x).card = 2 := by rw [hadj, Finset.card_pair hne.symm]
  have hedges : edgesAmongNeighbors snapshot (visits.order (.neighbors x) (snapshot.adj x)) = 1 := by
    have hmem := visits.mem (.neighbors x) (snapshot.adj x)
    have hnodup := visits.nodup (.neighbors x) (snapshot.adj x)
    generalize visits.order (.neighbors x) (snapshot.adj x) = order at hmem hnodup
    have hperm : order.Perm [x, y] := by
      refine (List.perm_ext_iff_of_nodup hnodup (by simp [hne.symm])).2 fun z => ?_
      rw [hmem, hadj]
      simp
    -- in either order the two are adjacent
    obtain ⟨a, b, rfl⟩ := List.length_eq_two.1 hperm.length_eq
    have hab : b ∈ snapshot.adj a := by
      have ha : a = x ∨ a = y := by simpa using hperm.mem_iff.1 List.mem_cons_self
      have hb : b = x ∨ b = y := by simpa using hperm.mem_iff.1 (List.mem_cons_of_mem a List.mem_cons_self)
      have hdistinct : a ≠ b := by simpa using hnodup
      rcases ha with rfl | rfl <;> rcases hb with rfl | rfl
      · exact absurd rfl hdistinct
      · exact hyx
      · exact SwarmSnapshot.mem_adj_comm.1 hyx
      · exact absurd rfl hdistinct
    simp [edgesAmongNeighbors, hab]
  rw [clusterDensity, hcard, hedges]
  rfl

omit [Add F] [Sub F] [Mul F] [LT F] [DecidableLT F] in
theorem externalReach_eq (hx : x ∈ snapshot.activeIds) (hself : snapshot.Reports x x)
    (hothers : snapshot.others x = {y}) :
    externalReach (F := F) visits snapshot x = reachBeyond F snapshot x y := by
  obtain ⟨hy, hne, -⟩ := SwarmSnapshot.adjacent_of_others hx hothers
  have hmany : 1 < snapshot.activeIds.card := Finset.one_lt_card.2 ⟨x, hx, y, hy, hne.symm⟩
  rw [externalReach, length_nodes, if_pos hmany, SwarmSnapshot.twoHop_eq hx hself hothers, reachBeyond]

/-- **What step 5 does with a poorly connected node**: it gets a suggestion, unless it lists itself
and its only other neighbour has many more. -/
theorem mainSuggestion_isSome_iff (hunit : (0.8 : F) < ((1 : ℕ) : F) / ((1 : ℕ) : F))
    (hx : x ∈ snapshot.activeIds) (hpoor : (snapshot.others x).card < 2) :
    (mainSuggestion (F := F) visits snapshot x).isSome ↔
      ∀ y, snapshot.Reports x x → snapshot.others x = {y} → reachBeyond F snapshot x y < 0.3 := by
  by_cases hself : snapshot.Reports x x
  · have hadj := SwarmSnapshot.adj_eq_insert hx hself
    have hnot : x ∉ snapshot.others x := fun h => (SwarmSnapshot.mem_others.1 h).2.1 rfl
    have hcard : (snapshot.adj x).card = (snapshot.others x).card + 1 := by
      rw [hadj, Finset.card_insert_of_notMem hnot]
    by_cases hone : (snapshot.others x).card = 1
    · obtain ⟨y, hothers⟩ := Finset.card_eq_one.1 hone
      have hiff : (∀ z, snapshot.Reports x x → snapshot.others x = {z} → reachBeyond F snapshot x z < 0.3) ↔
          reachBeyond F snapshot x y < 0.3 := by
        refine ⟨fun h => h y hself hothers, fun h z _ hz => ?_⟩
        rwa [← Finset.singleton_injective (hothers.symm.trans hz)]
      rw [hiff, mainSuggestion]
      dsimp only
      rw [if_neg (by omega), clusterDensity_eq hx hself hothers, externalReach_eq hx hself hothers]
      split_ifs with h
      · exact iff_of_true rfl h.2
      · exact iff_of_false Bool.false_ne_true fun hreach => h ⟨hunit, hreach⟩
    · refine iff_of_true ?_ fun y _ hy => absurd (hy ▸ Finset.card_singleton y) hone
      rw [mainSuggestion]
      dsimp only
      rw [if_pos (by omega)]
      rfl
  · refine iff_of_true ?_ fun y h => absurd h hself
    rw [mainSuggestion]
    dsimp only
    rw [if_pos (by rwa [SwarmSnapshot.adj_eq_others hx hself])]
    rfl

/-- Who gets a suggestion: the nodes outside the chosen component, and in it those of step 5. -/
theorem target_iff (hx : x ∈ snapshot.activeIds) :
    (∃ s ∈ (analyzeTopology (F := F) visits snapshot now).suggestions, s.targetNodeId = x) ↔
      (x ∈ mainComponent visits snapshot → (mainSuggestion (F := F) visits snapshot x).isSome) := by
  constructor
  · rintro ⟨s, hs, rfl⟩ hmain
    rcases mem_suggestions.1 hs with h | ⟨nodeId, -, h⟩
    · -- no other component has a node of the chosen one
      obtain ⟨component, i, hget, hi, nodeId, hnode, rfl⟩ := mem_isolatedSuggestions.1 h
      exact absurd (partition_components.index_eq hget (getElem?_of_mem_mainComponent hmain) hnode hmain) hi
    · rw [(mainSuggestion_eq_some h).1, h]
      rfl
  · intro h
    by_cases hmain : x ∈ mainComponent visits snapshot
    · obtain ⟨s, hs⟩ := Option.isSome_iff_exists.1 (h hmain)
      exact ⟨s, mem_suggestions.2 (.inr ⟨x, hmain, hs⟩), (mainSuggestion_eq_some hs).1⟩
    · obtain ⟨s, hs, htarget, -⟩ := exists_suggestion (F := F) now hx hmain
      exact ⟨s, hs, htarget⟩

/-- **Poorly connected peers are noticed**, every one with fewer than two neighbours besides itself,
if and only if none of them lists itself, is in the largest component and has one other neighbour that
is adjacent to 0.3 of the peers or more. -/
theorem noticed_iff (hunit : (0.8 : F) < ((1 : ℕ) : F) / ((1 : ℕ) : F)) (visits : Visits)
    (snapshot : SwarmSnapshot) (now : UInt64) :
    (∀ x ∈ snapshot.activeIds, (snapshot.others x).card < 2 →
      ∃ s ∈ (analyzeTopology (F := F) visits snapshot now).suggestions, s.targetNodeId = x) ↔
    ∀ x ∈ snapshot.activeIds, ∀ y, snapshot.Reports x x → snapshot.others x = {y} →
      InLargest visits snapshot x → reachBeyond F snapshot x y < 0.3 := by
  refine forall₂_congr fun x hx => ?_
  constructor
  · intro h y hself hothers hlargest
    have hpoor : (snapshot.others x).card < 2 := by
      rw [hothers, Finset.card_singleton]
      omega
    have hsome := (target_iff hx).1 (h hpoor) ((mem_mainComponent_iff hx).2 hlargest)
    exact (mainSuggestion_isSome_iff hunit hx hpoor).1 hsome y hself hothers
  · intro h hpoor
    refine (target_iff hx).2 fun hmain => ?_
    refine (mainSuggestion_isSome_iff hunit hx hpoor).2 fun y hself hothers => ?_
    exact h y hself hothers ((mem_mainComponent_iff hx).1 hmain)

end Suggestions

/-! ### A peer that lists itself -/

/-- Every table is visited from its last key to its first. -/
def sortedVisits : Visits where
  order _ keys := keys.sort (· ≥ ·)
  nodup _ keys := Finset.sort_nodup keys _
  mem _ _ _ := Finset.mem_sort _

/-- Two peers, the first of which lists itself. -/
def selfListedPair : SwarmSnapshot := ⟨[⟨"a", false, ["a", "b"]⟩, ⟨"b", false, ["a"]⟩]⟩

/-- The neighbour of `a` sees nobody else. -/
theorem noticed_iff_pair :
    ∃ s ∈ (analyzeTopology (F := ℚ) sortedVisits selfListedPair 7).suggestions, s.targetNodeId = "a" := by
  refine (noticed_iff (F := ℚ) (by norm_num) sortedVisits selfListedPair 7).2 ?_ "a" (by decide) (by decide)
  intro x hx y hself hothers _
  have hpeers : ∀ x ∈ selfListedPair.activeIds, selfListedPair.Reports x x → x = "a" := by decide
  obtain rfl := hpeers x hx hself
  have honly : selfListedPair.others "a" = {"b"} := by decide
  obtain rfl := Finset.singleton_injective (honly.symm.trans hothers)
  have hbeyond : ((selfListedPair.others "b").erase "a").card = 0 := by decide
  rw [reachBeyond, hbeyond]
  norm_num

/-- Three peers in a row, the first of which lists itself. -/
def selfListedRow : SwarmSnapshot :=
  ⟨[⟨"a", false, ["a", "b"]⟩, ⟨"b", false, ["a", "c"]⟩, ⟨"c", false, ["b"]⟩]⟩

/-- The neighbour of `a` sees another peer, a half of all others: `a` is not noticed. -/
theorem self_listed_unnoticed : ¬∀ x ∈ selfListedRow.activeIds, (selfListedRow.others x).card < 2 →
    ∃ s ∈ (analyzeTopology (F := ℚ) sortedVisits selfListedRow 7).suggestions, s.targetNodeId = x := by
  intro h
  have ha : "a" ∈ selfListedRow.activeIds := by decide
  have hself : selfListedRow.Reports "a" "a" := by decide
  have hothers : selfListedRow.others "a" = {"b"} := by decide
  have hmain : "a" ∈ mainComponent sortedVisits selfListedRow := by
    refine (mem_mainComponent_iff ha).2 fun z hz hnot => absurd ?_ hnot
    have hpeers : ∀ z ∈ selfListedRow.activeIds, z = "a" ∨ z = "b" ∨ z = "c" := by decide
    have hab : selfListedRow.Joined "a" "b" := .single (by decide)
    rcases hpeers z hz with rfl | rfl | rfl
    · exact .refl
    · exact hab
    · exact hab.tail (by decide)
  have hsome := (target_iff ha).1 (h "a" ha (by decide)) hmain
  have hless := (mainSuggestion_isSome_iff (by norm_num) ha (by decide)).1 hsome "b" hself hothers
  have hbeyond : ((selfListedRow.others "b").erase "a").card = 1 := by decide
  have hall : selfListedRow.activeIds.card = 3 := by decide
  rw [reachBeyond, hbeyond, hall] at hless
  norm_num at hless

end PodpingAlpha.Monitor
