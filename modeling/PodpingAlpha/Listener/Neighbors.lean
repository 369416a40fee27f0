import PodpingAlpha.Listener.Reconnect

/-!
# Tracking the neighbors

The receive task updates `neighbor_count` and then `neighbor_ids`, without a lock around both. On a
reconnect the monitor spawns the new receive task first, and then clears the one and resets the other.

The reports that the two hold are those of one subscription, the tracked one: the current one, and in the
middle of a reconnect, until the count is reset, still the one before.

## What is proved

* `neighbors_tracked` — the two agree, are those of the current subscription, and the count does not
  wrap, in every run in which only the task of the tracked subscription updates them.
* `reconnect_forgets_neighbor` — the new task deals with a report before the reset.
-/

namespace PodpingAlpha.Listener

open Transition

universe u

namespace Tasks

variable {ν : Type u}

/-! ### The property and the condition -/

/-- The monitor has counted a new generation, and has not reset the count. -/
def Renewing (s : Tasks ν) : Prop :=
  s.monitor = .spawning ∨ s.monitor = .clearing ∨ s.monitor = .resetting

instance (s : Tasks ν) : Decidable s.Renewing := inferInstanceAs (Decidable (_ ∨ _ ∨ _))

/-- The tracked subscription. -/
def tracked (s : Tasks ν) : ℕ := if s.Renewing then s.generation - 1 else s.generation

/-- A receive task is between its two updates, or the monitor is renewing. -/
def HalfDone (s : Tasks ν) : Prop := s.Renewing ∨ ∃ g r, s.receive g = .listing r

/-- Where no update is half done, the count and the ids agree, and are those of the current
subscription. -/
def Consistent (s : Tasks ν) : Prop :=
  ¬s.HalfDone → s.neighborCount = s.neighborIds.card ∧ s.neighborIds = s.up s.generation

/-- `fetch_sub(1)` is not executed at zero. -/
def NoWrap (s : Tasks ν) (a : TasksLabel ν) : Prop :=
  ∀ g id, a = .receive g → s.receive g = .counting (.neighborDown id) → s.neighborCount ≠ 0

/-- The count has room for a node that comes up. -/
def Room (s : Tasks ν) : Report ν → Prop
  | .neighborUp _ => s.neighborCount + 1 < u32Size
  | .neighborDown _ | .other => True

/-- The count is updated by the task of the tracked subscription only, and has room; and so are the ids,
and not between their reset and the count's. -/
def MayUpdate (s : Tasks ν) (g : ℕ) : ReceiveAt ν → Prop
  | .counting r => g = s.tracked ∧ s.Room r
  | .listing _ => g = s.tracked ∧ s.monitor ≠ .resetting
  | _ => True

/-- The step keeps track of the neighbors. -/
def Tracks (s : Tasks ν) : TasksLabel ν → Prop
  | .receive g => s.MayUpdate g (s.receive g)
  | _ => True

instance (s : Tasks ν) : (r : Report ν) → Decidable (s.Room r)
  | .neighborUp _ => Nat.decLt _ _
  | .neighborDown _ | .other => instDecidableTrue

instance (s : Tasks ν) (g : ℕ) : (r : ReceiveAt ν) → Decidable (s.MayUpdate g r)
  | .counting _ | .listing _ => instDecidableAnd
  | .unborn | .looping | .taken _ | .left | .unflagged | .active | .failing | .ended => instDecidableTrue

instance (s : Tasks ν) : (a : TasksLabel ν) → Decidable (s.Tracks a)
  | .receive g => inferInstanceAs (Decidable (s.MayUpdate g (s.receive g)))
  | .monitor _ | .report _ _ | .leave _ | .panic _ | .watchdog | .isolation | .health | .announced _
  | .signal | .tick _ => instDecidableTrue

/-! ### The invariant -/

/-- What a task between its two updates adds to the count. -/
def half : ReceiveAt ν → ℤ
  | .listing (.neighborUp _) => 1
  | .listing (.neighborDown _) => -1
  | _ => 0

/-- The report that a task is dealing with. -/
def dealing : ReceiveAt ν → Option (Report ν)
  | .taken r | .counting r | .listing r => some r
  | _ => none

/-- The tracked subscription is in the count and in the ids. -/
structure Tracked (s : Tasks ν) : Prop where
  positive : 0 < s.generation
  /-- A report that is being dealt with fits. -/
  fits : ∀ g r, dealing (s.receive g) = some r → Fits (s.up g) r
  /-- The generations to come are not there. -/
  future : ∀ g, s.generation < g → s.receive g = .unborn ∧ s.up g = ∅
  /-- The new task has updated nothing before the reset. -/
  fresh : s.Renewing → s.up s.generation = ∅ ∧ half (s.receive s.generation) = 0
  ids : s.neighborIds = if s.monitor = .resetting then ∅ else s.up s.tracked
  count : (s.neighborCount : ℤ) = (s.up s.tracked).card + half (s.receive s.tracked)
  small : s.neighborCount < u32Size

theorem tracked_init (now : ℕ) : (init now : Tasks ν).Tracked where
  positive := Nat.zero_lt_one
  fits g r h := by
    simp only [init] at h
    split_ifs at h <;> cases h
  future g hg := by
    have hne : g ≠ 1 := Nat.ne_of_gt hg
    exact ⟨if_neg hne, rfl⟩
  fresh h := by
    obtain h | h | h := h <;> cases h
  ids := rfl
  count := rfl
  small := Nat.succ_pos _

/-- The invariant is about the tracking and the receive tasks. -/
theorem Tracked.of_frame {s t : Tasks ν} (h : s.Tracked) (hgeneration : t.generation = s.generation)
    (hreceive : t.receive = s.receive) (hup : t.up = s.up) (hids : t.neighborIds = s.neighborIds)
    (hcount : t.neighborCount = s.neighborCount) (hrenewing : t.Renewing ↔ s.Renewing)
    (hresetting : t.monitor = .resetting ↔ s.monitor = .resetting) : t.Tracked := by
  have htracked : t.tracked = s.tracked := by
    simp only [tracked, hrenewing, hgeneration]
  refine ⟨?_, ?_, ?_, ?_, ?_, ?_, ?_⟩
  · exact hgeneration ▸ h.positive
  · rw [hreceive, hup]
    exact h.fits
  · rw [hreceive, hup, hgeneration]
    exact h.future
  · rw [hreceive, hup, hgeneration, hrenewing]
    exact h.fresh
  · rw [hids, hup, htracked]
    simp only [hresetting]
    exact h.ids
  · rw [hcount, hup, hreceive, htracked]
    exact h.count
  · exact hcount ▸ h.small

/-- A receive task moves on, and is not between its two updates. -/
theorem Tracked.move {s : Tasks ν} (h : s.Tracked) {g : ℕ} {r : ReceiveAt ν} (hg : g ≤ s.generation)
    (hold : half (s.receive g) = 0) (hnew : half r = 0)
    (hfits : ∀ q, dealing r = some q → Fits (s.up g) q) : (s.move g r).Tracked := by
  have hhalf : ∀ k, half ((s.move g r).receive k) = half (s.receive k) := by
    intro k
    by_cases hk : k = g
    · rw [hk, hold, receive_move_self, hnew]
    · rw [receive_move_of_ne s hk]
  refine ⟨h.positive, fun k q hq => ?_, fun k hk => ?_, fun hr => ?_, h.ids, ?_, h.small⟩
  · by_cases hk : k = g
    · rw [hk, receive_move_self] at hq
      exact hk ▸ hfits q hq
    · rw [receive_move_of_ne s hk] at hq
      exact h.fits k q hq
  · have hne : k ≠ g := by
      rintro rfl
      exact absurd hk (Nat.not_lt.2 hg)
    rw [receive_move_of_ne s hne]
    exact h.future k hk
  · exact ⟨(h.fresh hr).1, (hhalf _).trans (h.fresh hr).2⟩
  · rw [hhalf]
    exact h.count

/-- A receive task moves on, and deals with nothing. -/
theorem Tracked.idle {s : Tasks ν} (h : s.Tracked) {g : ℕ} {r : ReceiveAt ν} (hg : g ≤ s.generation)
    (hold : half (s.receive g) = 0) (hnew : dealing r = none) : (s.move g r).Tracked := by
  have hhalf : half r = 0 := by
    cases r with
    | listing q => cases hnew
    | _ => rfl
  refine h.move hg hold hhalf fun q hq => ?_
  rw [hnew] at hq
  cases hq

/-- A task that was spawned is not of a generation to come. -/
theorem Tracked.le_generation {s : Tasks ν} (h : s.Tracked) {g : ℕ} {r : ReceiveAt ν}
    (hr : s.receive g = r) (hborn : r ≠ .unborn) : g ≤ s.generation := by
  by_contra hlt
  exact hborn (hr.symm.trans (h.future g (Nat.not_le.1 hlt)).1)

/-! ### The monitor -/

/-- The monitor keeps the invariant: a new generation is tracked when the count is reset. -/
theorem Tracked.monitorStep {s t : Tasks ν} (hs : s.Tracked) {ok : Bool}
    (h : s.monitorStep ok = some t) : t.Tracked := by
  cases hm : s.monitor with
  | counting =>
    simp only [Tasks.monitorStep, hm] at h
    cases h
    have htracked : s.tracked = s.generation := by simp [tracked, Renewing, hm]
    obtain ⟨hborn, hup⟩ := hs.future (s.generation + 1) (Nat.lt_succ_self _)
    refine ⟨Nat.succ_pos _, hs.fits, fun g hg => hs.future g (Nat.lt_of_succ_lt hg), fun _ => ?_, ?_, ?_,
      hs.small⟩
    · exact ⟨hup, by rw [hborn]; rfl⟩
    · have hids := hs.ids
      simp [hm, htracked] at hids
      simpa [tracked, Renewing] using hids
    · have hcount := hs.count
      rw [htracked] at hcount
      simpa [tracked, Renewing] using hcount
  | spawning =>
    simp only [Tasks.monitorStep, hm] at h
    cases h
    have hfresh := hs.fresh (.inl hm)
    have hmoved : (s.move s.generation .looping).Tracked :=
      hs.idle le_rfl hfresh.2 rfl
    refine hmoved.of_frame rfl rfl rfl rfl rfl ?_ ?_ <;> simp [Renewing, Tasks.move, hm]
  | clearing =>
    simp only [Tasks.monitorStep, hm] at h
    cases h
    have htracked : s.tracked = s.generation - 1 := by simp [tracked, Renewing, hm]
    refine ⟨hs.positive, hs.fits, hs.future, fun _ => hs.fresh (.inr (.inl hm)), rfl, ?_, hs.small⟩
    have hcount := hs.count
    rw [htracked] at hcount
    simpa [tracked, Renewing] using hcount
  | resetting =>
    simp only [Tasks.monitorStep, hm] at h
    cases h
    obtain ⟨hup, hhalf⟩ := hs.fresh (.inr (.inr hm))
    have hids := hs.ids
    rw [if_pos hm] at hids
    refine ⟨hs.positive, hs.fits, hs.future, fun h => ?_, ?_, ?_, Nat.succ_pos _⟩
    · simp [Renewing] at h
    · simpa [tracked, Renewing, hup] using hids
    · simp [tracked, Renewing, hup, hhalf]
  | exited =>
    simp only [Tasks.monitorStep, hm] at h
    cases h
  | woken | joining | splitting =>
    simp only [Tasks.monitorStep, hm] at h
    cases h
    refine hs.of_frame rfl rfl rfl rfl rfl ?_ ?_ <;> simp only [Renewing, hm] <;> split_ifs <;> simp
  | informed failures requested forced =>
    simp only [Tasks.monitorStep, hm] at h
    split at h <;> cases h <;> refine hs.of_frame rfl rfl rfl rfl rfl ?_ ?_ <;> simp [Renewing, hm]
  | cooling forced =>
    simp only [Tasks.monitorStep, hm] at h
    split at h
    · cases h
      refine hs.of_frame rfl rfl rfl rfl rfl ?_ ?_ <;> simp [Renewing, hm]
    · cases h
      refine hs.of_frame rfl rfl rfl rfl rfl ?_ ?_ <;> simp only [Renewing, hm] <;> split_ifs <;> simp
  | _ =>
    simp only [Tasks.monitorStep, hm] at h
    cases h
    refine hs.of_frame rfl rfl rfl rfl rfl ?_ ?_ <;> simp [Renewing, hm]

/-! ### The receive tasks -/

/-- The new task is not the tracked one while the monitor is renewing. -/
theorem Tracked.ne_generation {s : Tasks ν} (hs : s.Tracked) (h : s.Renewing) :
    s.generation ≠ s.tracked := by
  have := hs.positive
  rw [tracked, if_pos h]
  omega

/-- The count is updated by the task of the tracked subscription. -/
theorem Tracked.recount {s : Tasks ν} (hs : s.Tracked) {g n : ℕ} {r : Report ν}
    (hr : s.receive g = .counting r) (hg : g = s.tracked)
    (hn : (n : ℤ) = s.neighborCount + half (.listing r)) (hsmall : n < u32Size) :
    (Tasks.move { s with neighborCount := n } g (.listing r)).Tracked := by
  have hle := hs.le_generation hr (by simp)
  have hne : ∀ {k}, k ≠ g →
      (Tasks.move { s with neighborCount := n } g (.listing r)).receive k = s.receive k :=
    fun hk => receive_move_of_ne _ hk _
  refine ⟨hs.positive, fun k q hq => ?_, fun k hk => ?_, fun hrenewing => ?_, hs.ids, ?_, hsmall⟩
  · by_cases hk : k = g
    · rw [hk, receive_move_self] at hq
      exact hk ▸ hs.fits g q (by rw [hr]; exact hq)
    · rw [hne hk] at hq
      exact hs.fits k q hq
  · have hk' : k ≠ g := Nat.ne_of_gt (Nat.lt_of_le_of_lt hle hk)
    exact ⟨(hne hk').trans (hs.future k hk).1, (hs.future k hk).2⟩
  · have hgen : s.generation ≠ g := hg ▸ hs.ne_generation hrenewing
    obtain ⟨hup, hhalf⟩ := hs.fresh hrenewing
    exact ⟨hup, (congrArg half (hne hgen)).trans hhalf⟩
  · have hcount := hs.count
    rw [← hg, hr] at hcount
    show (n : ℤ) = (s.up s.tracked).card +
      half ((Tasks.move { s with neighborCount := n } g (.listing r)).receive s.tracked)
    rw [← hg, receive_move_self, hn, hcount]
    simp only [half]
    omega

/-- What a report makes of the nodes that are up. -/
def report [DecidableEq ν] (up : Finset ν) : Report ν → Finset ν
  | .neighborUp id => insert id up
  | .neighborDown id => up.erase id
  | .other => up

theorem list_eq [DecidableEq ν] (s : Tasks ν) (g : ℕ) (r : Report ν) :
    s.list g r = { s with
      neighborIds := report s.neighborIds r
      up := Function.update s.up g (report (s.up g) r) } := by
  cases r with
  | neighborUp id => rfl
  | neighborDown id => rfl
  | other => simp [list, report]

/-- A report that fits adds a node, or takes one away. -/
theorem card_report [DecidableEq ν] {up : Finset ν} {r : Report ν} (h : Fits up r) :
    ((report up r).card : ℤ) = up.card + half (.listing r) := by
  cases r with
  | neighborUp id =>
    rw [report, Finset.card_insert_of_notMem h]
    rfl
  | neighborDown id =>
    have hpos := Finset.card_pos.2 ⟨id, h⟩
    rw [report, Finset.card_erase_of_mem h]
    simp only [half]
    omega
  | other => exact (Int.add_zero _).symm

/-- The ids are updated by the task of the tracked subscription, and the report is dealt with. -/
theorem Tracked.relist [DecidableEq ν] {s : Tasks ν} (hs : s.Tracked) {g : ℕ} {r : Report ν}
    (hr : s.receive g = .listing r) (hg : g = s.tracked) (hm : s.monitor ≠ .resetting) :
    ((s.list g r).move g .looping).Tracked := by
  have hle := hs.le_generation hr (by simp)
  have hcard := card_report (hs.fits g r (by rw [hr]; rfl))
  have hids := hs.ids
  have hcount := hs.count
  rw [if_neg hm, ← hg] at hids
  rw [← hg, hr] at hcount
  rw [list_eq]
  have hreceive : ∀ {k}, k ≠ g → (Tasks.move { s with
      neighborIds := report s.neighborIds r
      up := Function.update s.up g (report (s.up g) r) } g .looping).receive k = s.receive k :=
    fun hk => receive_move_of_ne _ hk _
  have hup : ∀ {k}, k ≠ g → Function.update s.up g (report (s.up g) r) k = s.up k :=
    fun hk => Function.update_of_ne hk _ _
  refine ⟨hs.positive, fun k q hq => ?_, fun k hk => ?_, fun hrenewing => ?_, ?_, ?_, hs.small⟩
  · by_cases hk : k = g
    · rw [hk, receive_move_self] at hq
      cases hq
    · rw [hreceive hk] at hq
      exact (congrArg (Fits · q) (hup hk)).mpr (hs.fits k q hq)
  · have hk' : k ≠ g := Nat.ne_of_gt (Nat.lt_of_le_of_lt hle hk)
    exact ⟨(hreceive hk').trans (hs.future k hk).1, (hup hk').trans (hs.future k hk).2⟩
  · have hgen : s.generation ≠ g := hg ▸ hs.ne_generation hrenewing
    obtain ⟨hempty, hhalf⟩ := hs.fresh hrenewing
    exact ⟨(hup hgen).trans hempty, (congrArg half (hreceive hgen)).trans hhalf⟩
  · show report s.neighborIds r = if s.monitor = .resetting then ∅ else
      Function.update s.up g (report (s.up g) r) s.tracked
    rw [if_neg hm, ← hg, Function.update_self, hids]
  · show (s.neighborCount : ℤ) = (Function.update s.up g (report (s.up g) r) s.tracked).card +
      half ((Tasks.move _ g .looping).receive s.tracked)
    rw [← hg, Function.update_self, receive_move_self, hcount, hcard]
    exact (Int.add_zero _).symm

theorem fetchAdd_of_lt {n : ℕ} (h : n + 1 < u32Size) : fetchAdd n = n + 1 := Nat.mod_eq_of_lt h

theorem fetchSub_of_pos {n : ℕ} (hpos : 0 < n) (h : n < u32Size) : fetchSub n = n - 1 := by
  rw [fetchSub, show n + (u32Size - 1) = n - 1 + u32Size by omega, Nat.add_mod_right,
    Nat.mod_eq_of_lt (by omega)]

/-- A node that goes down is counted. -/
theorem Tracked.pos {s : Tasks ν} (hs : s.Tracked) {g : ℕ} {id : ν}
    (hr : s.receive g = .counting (.neighborDown id)) (hg : g = s.tracked) : 0 < s.neighborCount := by
  have hmem : id ∈ s.up g := hs.fits g (.neighborDown id) (by rw [hr]; rfl)
  have hpos := Finset.card_pos.2 ⟨id, hmem⟩
  have hcount := hs.count
  rw [← hg, hr] at hcount
  simp only [half] at hcount
  omega

/-- The count is updated by the task of the tracked subscription. -/
theorem Tracked.counted {s : Tasks ν} (hs : s.Tracked) {g : ℕ} {r : Report ν}
    (hr : s.receive g = .counting r) (hG : s.Tracks (.receive g)) :
    ((s.count r).move g (.listing r)).Tracked := by
  simp only [Tracks, MayUpdate, hr] at hG
  obtain ⟨hg, hroom⟩ := hG
  cases r with
  | neighborUp id =>
    refine hs.recount hr hg ?_ ?_ <;> rw [fetchAdd_of_lt hroom]
    · exact Int.natCast_succ _
    · exact hroom
  | neighborDown id =>
    have hpos := hs.pos hr hg
    have hsmall := hs.small
    refine hs.recount hr hg ?_ ?_ <;> rw [fetchSub_of_pos hpos hsmall]
    · simp only [half]
      omega
    · omega
  | other =>
    refine hs.move (hs.le_generation hr (by simp)) (by rw [hr]; rfl) rfl fun q hq => ?_
    exact hs.fits g q (by rw [hr]; exact hq)

theorem Tracked.receiveStep [DecidableEq ν] {s t : Tasks ν} (hs : s.Tracked) {g : ℕ}
    (h : s.receiveStep g = some t) (hG : s.Tracks (.receive g)) : t.Tracked := by
  cases hr : s.receive g with
  | taken r =>
    simp only [Tasks.receiveStep, hr] at h
    have hg := hs.le_generation hr (by simp)
    have hold : half (s.receive g) = 0 := by rw [hr]; rfl
    have hfits : ∀ q, some r = some q → Fits (s.up g) q := fun q hq => hs.fits g q (by rw [hr]; exact hq)
    split at h
    · cases r <;> cases h <;> first | exact hs.move hg hold rfl hfits | exact hs.idle hg hold rfl
    · cases h
      exact hs.idle hg hold rfl
  | counting r =>
    simp only [Tasks.receiveStep, hr] at h
    cases h
    exact hs.counted hr hG
  | listing r =>
    simp only [Tasks.receiveStep, hr] at h
    cases h
    simp only [Tracks, MayUpdate, hr] at hG
    exact hs.relist hr hG.1 hG.2
  | left =>
    simp only [Tasks.receiveStep, hr] at h
    cases h
    refine hs.idle (hs.le_generation hr (by simp)) (by rw [hr]; rfl) ?_
    split_ifs <;> rfl
  | unflagged =>
    simp only [Tasks.receiveStep, hr] at h
    cases h
    refine hs.idle (hs.le_generation hr (by simp)) (by rw [hr]; rfl) ?_
    split_ifs <;> rfl
  | active =>
    simp only [Tasks.receiveStep, hr] at h
    cases h
    have hmoved : (s.move g .failing).Tracked :=
      hs.idle (hs.le_generation hr (by simp)) (by rw [hr]; rfl) rfl
    exact hmoved.of_frame rfl rfl rfl rfl rfl Iff.rfl Iff.rfl
  | failing =>
    simp only [Tasks.receiveStep, hr] at h
    cases h
    have hmoved : (s.move g .ended).Tracked :=
      hs.idle (hs.le_generation hr (by simp)) (by rw [hr]; rfl) rfl
    exact hmoved.of_frame rfl rfl rfl rfl rfl Iff.rfl Iff.rfl
  | unborn | looping | ended =>
    simp only [Tasks.receiveStep, hr] at h
    cases h

/-! ### Runs -/

theorem Tracked.step [DecidableEq ν] {s t : Tasks ν} {a : TasksLabel ν} (hs : s.Tracked)
    (hG : s.Tracks a) (h : s.step a = some t) : t.Tracked := by
  cases a with
  | monitor ok => exact hs.monitorStep h
  | receive g => exact hs.receiveStep h hG
  | report g r =>
    simp only [Tasks.step] at h
    split at h
    · rename_i hr
      split_ifs at h with hfits
      cases h
      refine hs.move (hs.le_generation hr (by simp)) (by rw [hr]; rfl) rfl fun q hq => ?_
      cases hq
      exact hfits
    · cases h
  | leave g =>
    simp only [Tasks.step] at h
    split at h
    · rename_i hr
      cases h
      exact hs.idle (hs.le_generation hr (by simp)) (by rw [hr]; rfl) rfl
    · cases h
  | panic g =>
    simp only [Tasks.step] at h
    split at h
    · rename_i hr
      cases h
      exact hs.idle (hs.le_generation hr (by simp)) (by rw [hr]; rfl) rfl
    · cases h
  | isolation | health =>
    simp only [Tasks.step] at h
    split at h <;> cases h <;> exact hs.of_frame rfl rfl rfl rfl rfl Iff.rfl Iff.rfl
  | watchdog | announced | signal | tick =>
    cases h
    exact hs.of_frame rfl rfl rfl rfl rfl Iff.rfl Iff.rfl

/-- Where no update is half done, the tracked subscription is the current one. -/
theorem Tracked.consistent {s : Tasks ν} (hs : s.Tracked) : s.Consistent := by
  intro hno
  have hren : ¬s.Renewing := fun h => hno (.inl h)
  have htracked : s.tracked = s.generation := if_neg hren
  have hids := hs.ids
  rw [if_neg fun h => hren (.inr (.inr h)), htracked] at hids
  have hhalf : half (s.receive s.generation) = 0 := by
    cases hr : s.receive s.generation with
    | listing r => exact absurd (.inr ⟨_, r, hr⟩) hno
    | _ => rfl
  have hcount := hs.count
  rw [htracked, hhalf] at hcount
  refine ⟨?_, hids⟩
  rw [hids]
  omega

theorem Tracked.noWrap {s : Tasks ν} (hs : s.Tracked) {a : TasksLabel ν} (hG : s.Tracks a) :
    s.NoWrap a := by
  rintro g id rfl hr
  simp only [Tracks, MayUpdate, hr] at hG
  exact Nat.ne_of_gt (hs.pos hr hG.1)

/-- **The neighbors are tracked**: in every run in which only the task of the tracked subscription
updates the count, which has room, and the ids, not between their reset and the count's, the two agree
at every moment at which no update is half done, and are those of the current subscription; and the
count is never lowered at zero. -/
theorem neighbors_tracked [DecidableEq ν] (now : ℕ) (labels : List (TasksLabel ν))
    (hG : Along step Tracks (init now) labels) :
    (∀ before s, before <+: labels → run step (init now) before = some s → s.Consistent) ∧
      Along step NoWrap (init now) labels := by
  constructor
  · exact always_of_along (fun _ _ _ hs hG h => hs.step hG h) (fun _ hs => hs.consistent)
      (tracked_init now) hG
  · exact along_of_inv (I := Tracked) (fun _ _ _ hs hG h => hs.step hG h)
      (fun _ _ hs hG => hs.noWrap hG) (tracked_init now) hG

/-- The receive task of a generation deals with a report. -/
def dealtWith (g : ℕ) (r : Report ℕ) : List (TasksLabel ℕ) :=
  .report g r :: List.replicate 3 (.receive g)

/-- After a stall the monitor counts and spawns a new receive task. -/
def respawned : List (TasksLabel ℕ) :=
  .watchdog :: .tick 30000 :: List.replicate 13 (.monitor true)

/-- The new task deals with a node that comes up before the monitor clears the ids and resets the count,
and the node is forgotten; when it goes down, the count wraps. -/
theorem reconnect_forgets_neighbor :
    let forgotten := respawned ++ dealtWith 2 (.neighborUp 7) ++ List.replicate 2 (.monitor true)
    let down : List (TasksLabel ℕ) := [.report 2 (.neighborDown 7), .receive 2]
    (∃ s, run step (init 0) forgotten = some s ∧ s.neighborCount = 0 ∧ s.up s.generation = {7} ∧
      ¬s.Consistent) ∧
    (∃ t, run step (init 0) (forgotten ++ down) = some t ∧ ¬t.NoWrap (.receive 2) ∧
      ∃ u, t.step (.receive 2) = some u ∧ u.neighborCount = 4294967295) := by
  refine ⟨⟨_, rfl, rfl, rfl, fun hs => ?_⟩, ⟨_, rfl, fun hno => hno 2 7 rfl rfl rfl, _, rfl, rfl⟩⟩
  obtain ⟨-, hids⟩ := hs <| by
    rintro (h | ⟨g, r, h⟩)
    · revert h
      decide
    · by_cases hg : g = 2
      · subst hg
        cases h
      · by_cases hg' : g = 1
        · subst hg'
          cases h
        · simp [Tasks.move, Function.update_of_ne, init, count, list, hg, hg'] at h
  revert hids
  decide

/-- A neighbor of each subscription, and one that goes down, with the reports at their times. -/
def trackedRun : List (TasksLabel ℕ) :=
  dealtWith 1 (.neighborUp 7) ++ respawned ++ List.replicate 4 (.monitor true) ++
    dealtWith 2 (.neighborUp 8) ++ dealtWith 2 (.neighborUp 9) ++ dealtWith 2 (.neighborDown 8)

theorem trackedRun_consistent :
    (∀ before s, before <+: trackedRun → run step (init 0) before = some s → s.Consistent) ∧
      Along step NoWrap (init 0) trackedRun :=
  neighbors_tracked 0 trackedRun (by decide)

end Tasks

end PodpingAlpha.Listener
