import PodpingAlpha.FrontEnd.SentFirst

/-!
# Requests

What the queue checker of `podping/src/main.rs` sends to the writers is what a client asked for, or what a
row of the queue said when the process started.

* `sent_requested`.
-/

namespace PodpingAlpha.FrontEnd

open Transition

variable {R : String → Reason → Medium → Prop} {cfg : Config} {s t : State}

/-- What the front-end holds is in `R`. -/
structure Within (R : String → Reason → Medium → Prop) (s : State) : Prop where
  /-- The rows of the queue, -/
  rows : ∀ url row, s.queue.find? url = some row → R url row.reason row.medium
  /-- the requests, -/
  handlers : ∀ h ∈ s.handlers, R h.ping.url h.ping.reason h.ping.medium
  /-- what is left of the batch, -/
  todo : ∀ ping v, .send ping v ∈ s.todo → R ping.url ping.reason ping.medium
  /-- and what was sent. -/
  log : ∀ writer ping v, .sent writer ping v ∈ s.log → R ping.url ping.reason ping.medium

/-- A step of the thread that sends nothing. -/
theorem Within.of_sameContent (hs : Within R s) (hq : SameContent s.queue t.queue)
    (hhandlers : t.handlers = s.handlers) (hlog : t.log = s.log)
    (htodo : ∀ ping v, .send ping v ∈ t.todo → .send ping v ∈ s.todo) : Within R t where
  rows url row h := by
    obtain ⟨row', h', hreason, hmedium⟩ := hq url row h
    exact hreason ▸ hmedium ▸ hs.rows url row' h'
  handlers := hhandlers ▸ hs.handlers
  todo ping v h := hs.todo ping v (htodo ping v h)
  log := hlog ▸ hs.log

/-- A step of a handler, which may write its ping to the queue. -/
theorem Within.handled (hs : Within R s) {i : ℕ} {handler : Handler} {stage : Stage}
    (hi : s.handlers[i]? = some handler)
    (hhandlers : t.handlers = s.handlers.set i ⟨handler.ping, stage, handler.arrival⟩)
    (hq : ∀ url row, t.queue.find? url = some row →
      (url = handler.ping.url ∧ row = handler.ping.row) ∨ s.queue.find? url = some row)
    (hlog : ∀ writer ping v, .sent writer ping v ∈ t.log → .sent writer ping v ∈ s.log)
    (htodo : t.todo = s.todo) : Within R t := by
  have hping := hs.handlers handler (List.mem_of_getElem? hi)
  constructor
  case rows =>
    intro url row h
    rcases hq url row h with ⟨rfl, rfl⟩ | h
    · exact hping
    · exact hs.rows url row h
  case handlers =>
    intro h hmem
    rw [hhandlers] at hmem
    rcases List.mem_or_eq_of_mem_set hmem with hmem | rfl
    · exact hs.handlers h hmem
    · exact hping
  case todo => exact htodo ▸ hs.todo
  case log => exact fun writer ping v h => hs.log writer ping v (hlog writer ping v h)

/-- A message that is sent is left of the batch. -/
theorem Within.log_of_send (hs : Within R s) {ping : Ping} {v : ℕ} {log : List Event}
    (hmem : .send ping v ∈ s.todo) (hlog : log = s.log ∨ log = .sent .gossip ping v :: s.log) :
    ∀ writer p v', .sent writer p v' ∈ log → R p.url p.reason p.medium := by
  rcases hlog with rfl | rfl
  · exact hs.log
  · intro writer p v' h
    rcases List.mem_cons.1 h with heq | h
    · cases heq
      exact hs.todo ping v hmem
    · exact hs.log writer p v' h

/-- A step keeps to `R`, if a request that arrives does. -/
theorem within_step {a : Label} (hs : Within R s)
    (harrive : ∀ url reason medium, a = .arrive url reason medium → R url reason medium)
    (h : step cfg s a = some t) : Within R t := by
  have hrest : ∀ {task : Task} {rest : List Task}, s.todo = task :: rest →
      ∀ ping v, .send ping v ∈ rest → .send ping v ∈ s.todo := by
    intro task rest htodo ping v hmem
    rw [htodo]
    exact List.mem_cons_of_mem _ hmem
  cases move_of_step h with
  | tick => exact hs.of_sameContent (.refl _) rfl rfl fun _ _ h => h
  | @arrive url reason medium =>
    refine ⟨hs.rows, fun h hmem => ?_, hs.todo, hs.log⟩
    rcases List.mem_append.1 hmem with hmem | hmem
    · exact hs.handlers h hmem
    · obtain rfl := List.mem_singleton.1 hmem
      exact harrive url reason medium rfl
  | refused hi hq => exact hs.handled hi rfl (fun _ _ h => .inr h) (fun _ _ _ h => h) rfl
  | missed hi => exact hs.handled hi rfl (fun _ _ h => .inr h) (fun _ _ _ h => h) rfl
  | @inserted i ping arrival queue hi hq =>
    refine hs.handled hi rfl (fun url row hrow => ?_) (fun _ _ _ h => ?_) rfl
    · rw [Table.find?_insert? hq] at hrow
      split_ifs at hrow with hurl
      · exact .inl ⟨hurl.symm, (Option.some.inj hrow).symm⟩
      · exact .inr hrow
    · rcases List.mem_cons.1 h with heq | h
      · cases heq
      · exact h
  | @updated i ping arrival row₀ hi hrow₀ =>
    refine hs.handled hi rfl (fun url row hrow => ?_) (fun _ _ _ h => ?_) rfl
    · rw [find?_updatePingInQueue] at hrow
      split_ifs at hrow with hurl
      · obtain ⟨_, -, rfl⟩ := Option.map_eq_some_iff.1 hrow
        exact .inl ⟨hurl, rfl⟩
      · exact .inr hrow
    · rcases List.mem_cons.1 h with heq | h
      · cases heq
      · exact h
  | idle htodo => exact hs.of_sameContent (.refl _) rfl rfl (hrest htodo)
  | @replied writer rest again reply htodo hsent hagain =>
    refine hs.of_sameContent (.refl _) rfl rfl fun ping v hmem => ?_
    rcases List.mem_append.1 hmem with hmem | hmem
    · rcases List.mem_append.1 hmem with hmem | hmem
      · exact absurd hmem send_notMem_removals
      · cases hagain _ hmem
    · exact hrest htodo ping v hmem
  | removed htodo => exact hs.of_sameContent (sameContent_delete _ _) rfl rfl (hrest htodo)
  | fetched htodo =>
    refine ⟨hs.rows, hs.handlers, fun ping v hmem => ?_, hs.log⟩
    have hmem := (List.mem_append.1 hmem).resolve_right (by simp)
    obtain ⟨ping', hping, heq⟩ := List.mem_map.1 hmem
    cases heq
    obtain ⟨row, hrow, -, rfl⟩ := mem_getPingsFromQueue hping
    exact hs.rows _ row hrow
  | failed htodo htask after hafter =>
    refine hs.of_sameContent (.refl _) rfl rfl fun ping v hmem => ?_
    rcases hafter _ hmem with hfetch | hmem
    · cases hfetch
    · exact hrest htodo ping v hmem
  | @sent ping v rest gossip log htodo hlog =>
    have hmem : .send ping v ∈ s.todo := htodo ▸ List.mem_cons_self
    refine ⟨hs.rows, hs.handlers, fun p v' h => ?_, fun writer p v' h => ?_⟩
    · rcases List.mem_append.1 h with h | h
      · rcases List.mem_cons.1 h with hsettle | h
        · cases hsettle
        · exact absurd h send_notMem_receives
      · exact hs.todo p v' (hrest htodo p v' h)
    · rcases List.mem_cons.1 h with heq | h
      · cases heq
        exact hs.todo ping v hmem
      · exact hs.log_of_send hmem hlog writer p v' h
  | @broke ping v rest gossip log htodo hlog =>
    have hmem : .send ping v ∈ s.todo := htodo ▸ List.mem_cons_self
    refine ⟨hs.rows, hs.handlers, fun p v' h => ?_, hs.log_of_send hmem hlog⟩
    cases List.mem_singleton.1 h
  | settled htodo =>
    refine hs.of_sameContent ?_ rfl rfl (hrest htodo)
    split_ifs
    · exact sameContent_delete _ _
    · exact sameContent_setPingAsInflight _ _
  | reset queue htodo hqueue =>
    refine hs.of_sameContent ?_ rfl rfl fun ping v hmem => ?_
    · rcases hqueue with rfl | rfl
      · exact .refl _
      · exact sameContent_reset _ _
    · rcases List.mem_append.1 hmem with hmem | hmem
      · exact absurd hmem send_notMem_receives
      · cases List.mem_singleton.1 hmem

theorem within_init (queue : Queue) (now : ℕ)
    (hrows : ∀ url row, queue.find? url = some row → R url row.reason row.medium) :
    Within R (State.init cfg queue now) where
  rows := hrows
  handlers := nofun
  todo ping v h := by
    rcases List.mem_append.1 h with h | h
    · exact absurd h send_notMem_receives
    · cases List.mem_singleton.1 h
  log writer ping v h := by
    obtain ⟨row, -, heq⟩ := List.mem_map.1 h
    cases heq

/-- A client asked for it, or the queue had it when the process started. -/
def Requested (queue : Queue) (as : List Label) (url : String) (reason : Reason) (medium : Medium) :
    Prop :=
  .arrive url reason medium ∈ as ∨
    ∃ row, queue.find? url = some row ∧ row.reason = reason ∧ row.medium = medium

/-- What is sent was asked for. -/
theorem sent_requested {queue : Queue} {now : ℕ} {as : List Label}
    (h : run (step cfg) (State.init cfg queue now) as = some s) {writer : Writer} {ping : Ping} {v : ℕ}
    (hsent : .sent writer ping v ∈ s.log) : Requested queue as ping.url ping.reason ping.medium := by
  have hinit : Within (Requested queue as) (State.init cfg queue now) :=
    within_init queue now fun url row hrow => .inr ⟨row, hrow, rfl, rfl⟩
  have hlabels : Along (step cfg) (fun _ a => True ∧ a ∈ as) (State.init cfg queue now) as :=
    along_and_mem (along_iff_forall.2 fun _ _ _ _ _ _ => trivial)
  refine (inv_run_along (fun _ a _ hs ha hstep => ?_) hinit hlabels h).log writer ping v hsent
  exact within_step hs (fun url reason medium heq => .inl (heq ▸ ha.2)) hstep

end PodpingAlpha.FrontEnd
