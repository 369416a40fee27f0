import PodpingAlpha.FrontEnd.QueueChecker

/-!
# Updates that are not forgotten

A request with reason `Update` is answered `Success!` whether or not its row could be inserted. When
the row was there already, the request relies on it: on its being sent again. A row in flight is
not, unless the writers fail.

## What is proved

* `updatesKept_of_timely` — where SQLite fails on key conflicts only: at every moment, each answered
  update has been sent since it arrived or has a row that will be fetched, in every run in which no
  update is answered on a row in flight, or on one that the thread is about to mark or delete, and no
  writer reports on a row that waits.
* `update_in_flight_forgotten` — a run that forgets an update.
-/

namespace PodpingAlpha.FrontEnd

open Transition

/-! ### The property and the condition -/

/-- The statement of the step runs. -/
def Label.Runs : Label → Prop
  | .tick | .arrive .. => True
  | .insert _ runs | .update _ runs => runs = true
  | .thread (.sql runs) => runs = true
  | .thread _ => True

instance (a : Label) : Decidable a.Runs := by
  unfold Label.Runs
  split <;> infer_instance

/-- A message for `url` was sent since the log had length `arrival`. -/
def SentSince (log : List Event) (arrival : ℕ) (url : String) : Prop :=
  ∃ e ∈ log.reverse.drop arrival, messageFor url e

/-- A row for `url` waits to be fetched. -/
def Waits (queue : Queue) (url : String) : Prop :=
  ∃ row, queue.find? url = some row ∧ row.inflight = false

/-- The request asked for an update and was answered. -/
def Handler.Answered (h : Handler) : Prop := h.stage = .answered ∧ h.ping.reason = .update

/-- Every answered update was sent since it arrived, or has a row that waits to be fetched. -/
def UpdatesKept (s : State) : Prop :=
  ∀ h ∈ s.handlers, h.Answered → SentSince s.log h.arrival h.ping.url ∨ Waits s.queue h.ping.url

/-- Every answered update of `url` was sent since it arrived. -/
def AllSent (s : State) (url : String) : Prop :=
  ∀ h ∈ s.handlers, h.Answered → h.ping.url = url → SentSince s.log h.arrival h.ping.url

/-- The url whose row the task marks as in flight or deletes. -/
def Task.clears : Task → Option String
  | .settle ping => some ping.url
  | .remove url _ => some url
  | _ => none

/-- The update whose `INSERT` a step runs. -/
def inserts (s : State) : Label → Option Ping
  | .insert i _ =>
    match s.handlers[i]? with
    | some ⟨ping, .inserting, _⟩ => if ping.reason = .update then some ping else none
    | _ => none
  | _ => none

/-- No update is answered on a row in flight, or on one that the thread is about to mark or delete; and
no writer reports on a row that waits to be fetched. -/
def Timely (s : State) (a : Label) : Prop :=
  (∀ ping ∈ inserts s a, (s.queue.find? ping.url).all (fun row => !row.inflight) ∧
    ∀ task ∈ s.todo, task.clears ≠ some ping.url) ∧
  ∀ reply ∈ a.received, ∀ url ∈ reply.removals.filterMap Task.clears,
    (s.queue.find? url).all Row.inflight

instance (s : State) (a : Label) : Decidable (Timely s a) := inferInstanceAs (Decidable (_ ∧ _))

/-! ### Steps -/

theorem SentSince.mono {log log' : List Event} {arrival : ℕ} {url : String}
    (h : SentSince log arrival url) (hlog : log <:+ log') : SentSince log' arrival url := by
  obtain ⟨e, he, hurl⟩ := h
  obtain ⟨es, rfl⟩ := hlog
  refine ⟨e, ?_, hurl⟩
  rw [List.reverse_append, List.drop_append]
  exact List.mem_append_left _ he

/-- A handler that is to update its row does not ask for an update. -/
def OnlyLiveUpdates (s : State) : Prop := ∀ h ∈ s.handlers, h.stage = .updating → h.ping.reason ≠ .update

/-- What a step must do to keep the updates: messages are not unsent, rows keep waiting, and a
request that it answers is taken care of. -/
theorem UpdatesKept.of_step {s t : State} (hs : UpdatesKept s) (hlog : s.log <:+ t.log)
    (hq : ∀ url, Waits s.queue url → Waits t.queue url)
    (hh : ∀ h ∈ t.handlers, h.Answered → h ∈ s.handlers ∨
      SentSince t.log h.arrival h.ping.url ∨ Waits t.queue h.ping.url) : UpdatesKept t := by
  intro h hmem hans
  rcases hh h hmem hans with hold | hnew
  · exact (hs h hold hans).imp (·.mono hlog) (hq _)
  · exact hnew

theorem waits_delete {queue : Queue} {gone url : String} :
    Waits (deletePingFromQueue gone queue) url ↔ url ≠ gone ∧ Waits queue url := by
  rw [Waits]
  rw [find?_deletePingFromQueue]
  split_ifs with h
  · refine iff_of_false ?_ fun hne => hne.1 h
    rintro ⟨_, hrow, -⟩
    cases hrow
  · exact (and_iff_right h).symm

theorem waits_setPingAsInflight {queue : Queue} {ping : Ping} {url : String} :
    Waits (setPingAsInflight ping queue) url ↔ url ≠ ping.url ∧ Waits queue url := by
  rw [Waits]
  rw [find?_setPingAsInflight]
  split_ifs with h
  · refine iff_of_false ?_ fun hne => hne.1 h
    rintro ⟨row, hrow, hin⟩
    obtain ⟨_, -, rfl⟩ := Option.map_eq_some_iff.1 hrow
    cases hin
  · exact (and_iff_right h).symm

theorem Waits.update {queue : Queue} {url : String} (h : Waits queue url) (ping : Ping) :
    Waits (updatePingInQueue ping queue) url := by
  obtain ⟨row, hrow, hin⟩ := h
  rw [Waits]
  rw [find?_updatePingInQueue]
  split_ifs
  · exact ⟨ping.row, by rw [hrow]; rfl, rfl⟩
  · exact ⟨row, hrow, hin⟩

theorem Waits.reset {queue : Queue} {url : String} (h : Waits queue url) (now : ℕ) :
    Waits (resetPingsInFlight queue now) url := by
  obtain ⟨row, hrow, hin⟩ := h
  rcases find?_resetPingsInFlight queue now url with heq | heq
  · exact ⟨row, heq.trans hrow, hin⟩
  · exact ⟨_, heq.trans (congrArg _ hrow), rfl⟩

theorem Waits.insert {queue queue' : Queue} {ping : Ping} {url : String} (h : Waits queue url)
    (hq : queue.insert? ping.row = some queue') : Waits queue' url := by
  obtain ⟨row, hrow, hin⟩ := h
  rw [Waits]
  rw [Table.find?_insert? hq]
  split_ifs
  · exact ⟨_, rfl, rfl⟩
  · exact ⟨row, hrow, hin⟩

theorem mem_set_handlers {hs : List Handler} {i : ℕ} {new h : Handler} (hmem : h ∈ hs.set i new) :
    h ∈ hs ∨ h = new :=
  (List.mem_or_eq_of_mem_set hmem)

/-! ### The invariant -/

theorem AllSent.mono {s t : State} {url : String} (h : AllSent s url) (hlog : s.log <:+ t.log)
    (hh : ∀ h ∈ t.handlers, h.Answered → h.ping.url = url → h ∈ s.handlers) : AllSent t url :=
  fun handler hmem hans hurl => (h handler (hh handler hmem hans hurl) hans hurl).mono hlog

/-- The updates of a row that does not wait were all sent. -/
theorem UpdatesKept.allSent {s : State} (hs : UpdatesKept s) {url : String}
    (hrow : ¬Waits s.queue url) : AllSent s url :=
  fun h hmem hans hurl => (hs h hmem hans).resolve_right (hurl ▸ hrow)

theorem not_waits {queue : Queue} {url : String} (h : (queue.find? url).all Row.inflight) :
    ¬Waits queue url := by
  rintro ⟨row, hrow, hin⟩
  rw [hrow] at h
  exact absurd (hin.symm.trans h) nofun

/-- The updates are kept, and those of a row about to be marked or deleted were all sent. -/
structure Kept (s : State) : Prop where
  updates : UpdatesKept s
  /-- The requests arrived before now. -/
  arrivals : ∀ h ∈ s.handlers, h.arrival ≤ s.log.length
  live : OnlyLiveUpdates s
  pending : ∀ task ∈ s.todo, ∀ url, task.clears = some url → AllSent s url

/-- A step of the thread that parks and deletes no row keeps the updates, when what it has to do was
there before, or marks and deletes nothing. -/
theorem Kept.quiet {s t : State} (hs : Kept s) (hhandlers : t.handlers = s.handlers)
    (hlog : s.log <:+ t.log) (hq : ∀ url, Waits s.queue url → Waits t.queue url)
    (htodo : ∀ task ∈ t.todo, task ∈ s.todo ∨ task.clears = none) : Kept t where
  updates := hs.updates.of_step hlog hq fun h hmem _ => .inl (hhandlers ▸ hmem)
  arrivals h hmem := (hs.arrivals h (hhandlers ▸ hmem)).trans hlog.length_le
  live h hmem := hs.live h (hhandlers ▸ hmem)
  pending task hmem url hurl := by
    rcases htodo task hmem with hmem | hnone
    · exact (hs.pending task hmem url hurl).mono hlog fun h hmem _ _ => hhandlers ▸ hmem
    · cases hnone.symm.trans hurl

/-- The task that parks or deletes a row keeps the updates, as they were all sent. -/
theorem Kept.clear {s t : State} {task : Task} {rest : List Task} (hs : Kept s)
    (htodo : s.todo = task :: rest) {url : String} (hclears : task.clears = some url)
    (hhandlers : t.handlers = s.handlers) (hlog : t.log = s.log)
    (hq : ∀ url', Waits t.queue url' ↔ url' ≠ url ∧ Waits s.queue url') (hrest : t.todo = rest) :
    Kept t where
  updates := by
    have hsent : AllSent s url := hs.pending task (htodo ▸ List.mem_cons_self) url hclears
    intro h hmem hans
    rw [hhandlers] at hmem
    rw [hlog, hq]
    by_cases hurl : h.ping.url = url
    · exact .inl (hsent h hmem hans hurl)
    · exact (hs.updates h hmem hans).imp_right fun hwaits => ⟨hurl, hwaits⟩
  arrivals h hmem := hlog ▸ hs.arrivals h (hhandlers ▸ hmem)
  live h hmem := hs.live h (hhandlers ▸ hmem)
  pending task' hmem url' hurl := by
    have hmem' : task' ∈ s.todo := htodo ▸ List.mem_cons_of_mem _ (hrest ▸ hmem)
    exact (hs.pending task' hmem' url' hurl).mono (hlog ▸ List.suffix_refl _)
      fun h hmem _ _ => hhandlers ▸ hmem

/-- A handler moves on: what it answers has a row that waits, and that the thread is not about to mark
or delete. -/
theorem Kept.handle {s t : State} {i : ℕ} {old new : Handler} (hs : Kept s)
    (hi : s.handlers[i]? = some old) (hhandlers : t.handlers = s.handlers.set i new)
    (harrival : new.arrival = old.arrival) (hlive : new.stage = .updating → new.ping.reason ≠ .update)
    (htodo : t.todo = s.todo) (hlog : s.log <:+ t.log)
    (hq : ∀ url, Waits s.queue url → Waits t.queue url)
    (hnew : new.Answered → Waits t.queue new.ping.url ∧
      ∀ task ∈ s.todo, task.clears ≠ some new.ping.url) : Kept t where
  updates := by
    refine hs.updates.of_step hlog hq fun h hmem hans => ?_
    rcases mem_set_handlers (hhandlers ▸ hmem) with hmem | rfl
    · exact .inl hmem
    · exact .inr (.inr (hnew hans).1)
  arrivals h hmem := by
    rcases mem_set_handlers (hhandlers ▸ hmem) with hmem | rfl
    · exact (hs.arrivals h hmem).trans hlog.length_le
    · rw [harrival]
      exact (hs.arrivals old (List.mem_of_getElem? hi)).trans hlog.length_le
  live h hmem := by
    rcases mem_set_handlers (hhandlers ▸ hmem) with hmem | rfl
    · exact hs.live h hmem
    · exact hlive
  pending task hmem url hurl := by
    rw [htodo] at hmem
    refine (hs.pending task hmem url hurl).mono hlog fun h hmem' hans hh => ?_
    rcases mem_set_handlers (hhandlers ▸ hmem') with hmem' | rfl
    · exact hmem'
    · exact absurd (hurl.trans (congrArg some hh.symm)) ((hnew hans).2 task hmem)

theorem clears_of_mem_receives {cfg : Config} {task : Task} (h : task ∈ receives cfg) :
    task.clears = none := by
  rw [receives] at h
  split_ifs at h <;> simp only [List.mem_cons, List.not_mem_nil, or_false] at h
  · rcases h with rfl | rfl <;> rfl
  · rw [h]
    rfl

/-- A message is sent after every request that has arrived. -/
theorem sentSince_sent {log : List Event} {arrival : ℕ} (h : arrival ≤ log.length) (writer : Writer)
    (ping : Ping) (v : ℕ) : SentSince (.sent writer ping v :: log) arrival ping.url := by
  refine ⟨.sent writer ping v, ?_, decide_eq_true rfl⟩
  rw [List.reverse_cons, List.drop_append_of_le_length (by rwa [List.length_reverse])]
  exact List.mem_append_right _ List.mem_cons_self

/-- A timely step keeps the updates. -/
theorem Kept.step {cfg : Config} {s t : State} {a : Label} (hs : Kept s) (ha : a.Runs)
    (hG : Timely s a) (h : step cfg s a = some t) : Kept t := by
  have hrest : ∀ {task : Task} {rest : List Task}, s.todo = task :: rest →
      ∀ task' ∈ rest, task' ∈ s.todo ∨ task'.clears = none := by
    intro task rest htodo task' hmem
    rw [htodo]
    exact .inl (List.mem_cons_of_mem _ hmem)
  have hreset : ∀ task ∈ [Task.reset], task ∈ s.todo ∨ task.clears = none := by
    intro task hmem
    rw [List.mem_singleton.1 hmem]
    exact .inr rfl
  cases move_of_step h with
  | tick => exact hs.quiet rfl (List.suffix_refl _) (fun _ h => h) fun _ h => .inl h
  | @arrive url reason medium =>
    have hnew : ∀ h ∈ s.handlers ++ [(⟨⟨url, s.now, reason, medium⟩, .inserting, s.log.length⟩ : Handler)],
        h ∈ s.handlers ∨ h.stage = .inserting ∧ h.arrival = s.log.length := by
      intro h hmem
      rcases List.mem_append.1 hmem with hmem | hmem
      · exact .inl hmem
      · rw [List.mem_singleton.1 hmem]
        exact .inr ⟨rfl, rfl⟩
    refine ⟨hs.updates.of_step (List.suffix_refl _) (fun _ h => h) fun h hmem hans => ?_,
      fun h hmem => ?_, fun h hmem hstage => ?_, fun task hmem url hurl => ?_⟩
    · rcases hnew h hmem with hmem | ⟨hstage, -⟩
      · exact .inl hmem
      · cases hstage.symm.trans hans.1
    · rcases hnew h hmem with hmem | ⟨-, harrival⟩
      · exact hs.arrivals h hmem
      · exact harrival.le
    · rcases hnew h hmem with hmem | ⟨hstage', -⟩
      · exact hs.live h hmem hstage
      · cases hstage'.symm.trans hstage
    · refine (hs.pending task hmem url hurl).mono (List.suffix_refl _) fun h hmem hans _ => ?_
      rcases hnew h hmem with hmem | ⟨hstage, -⟩
      · exact hmem
      · cases hstage.symm.trans hans.1
  | @inserted i ping arrival queue hi hq =>
    refine hs.handle hi rfl rfl (fun hstage => by cases hstage) rfl (List.suffix_cons _ _)
      (fun _ h => h.insert hq) fun hans => ?_
    have hinserts : inserts s (.insert i true) = some ping := by simpa [inserts, hi] using hans.2
    refine ⟨⟨ping.row, ?_, rfl⟩, (hG.1 ping hinserts).2⟩
    rw [Table.find?_insert? hq]
    exact if_pos rfl
  | @refused i runs ping arrival hi hq =>
    obtain ⟨row, hrow⟩ := hq ha
    refine hs.handle hi rfl rfl (fun hstage hreason => ?_) rfl (List.suffix_refl _) (fun _ h => h)
      fun hans => ?_
    · simp only at hstage hreason
      rw [if_pos hreason] at hstage
      cases hstage
    · have hinserts : inserts s (.insert i runs) = some ping := by simpa [inserts, hi] using hans.2
      obtain ⟨hwaits, hclears⟩ := hG.1 ping hinserts
      refine ⟨⟨row, hrow, ?_⟩, hclears⟩
      rw [hrow, Option.all_some] at hwaits
      simpa using hwaits
  | @updated i ping arrival row hi hrow =>
    have hreason := hs.live ⟨ping, .updating, arrival⟩ (List.mem_of_getElem? hi) rfl
    exact hs.handle hi rfl rfl (fun hstage => by cases hstage) rfl (List.suffix_cons _ _)
      (fun _ h => h.update ping) fun hans => absurd hans.2 hreason
  | @missed i runs ping arrival hi =>
    have hreason := hs.live ⟨ping, .updating, arrival⟩ (List.mem_of_getElem? hi) rfl
    exact hs.handle hi rfl rfl (fun hstage => by cases hstage) rfl (List.suffix_refl _)
      (fun _ h => h) fun hans => absurd hans.2 hreason
  | idle htodo => exact hs.quiet rfl (List.suffix_refl _) (fun _ h => h) (hrest htodo)
  | @replied writer rest again reply htodo hsent hagain =>
    have hrun : Kept { s with todo := again ++ rest } := by
      refine hs.quiet rfl (List.suffix_refl _) (fun _ h => h) fun task hmem => ?_
      rcases List.mem_append.1 hmem with hmem | hmem
      · rw [hagain task hmem]
        exact .inr rfl
      · exact hrest htodo task hmem
    rw [List.append_assoc]
    refine ⟨hrun.updates, hrun.arrivals, hrun.live, fun task hmem url hurl => ?_⟩
    rcases List.mem_append.1 hmem with hmem | hmem
    · -- the row is gone or in flight, so its updates were sent
      exact hs.updates.allSent (not_waits
        (hG.2 reply rfl url (List.mem_filterMap.2 ⟨task, hmem, hurl⟩)))
    · exact hrun.pending task hmem url hurl
  | removed htodo => exact hs.clear htodo rfl rfl rfl (fun _ => waits_delete) rfl
  | fetched htodo =>
    refine hs.quiet rfl (List.suffix_refl _) (fun _ h => h) fun task hmem => ?_
    rcases List.mem_append.1 hmem with hmem | hmem
    · obtain ⟨_, -, rfl⟩ := List.mem_map.1 hmem
      exact .inr rfl
    · exact hreset task hmem
  | failed => cases ha
  | @sent ping v rest gossip log htodo hlog =>
    have hsuffix : s.log <:+ log := by
      rcases hlog with rfl | rfl
      · exact List.suffix_refl _
      · exact List.suffix_cons _ _
    have hrun : Kept { s with
        todo := receives cfg ++ rest, sent := s.sent + 1, log := .sent .hive ping v :: log } := by
      refine hs.quiet rfl (hsuffix.trans (List.suffix_cons _ _)) (fun _ h => h) fun task hmem => ?_
      rcases List.mem_append.1 hmem with hmem | hmem
      · exact .inr (clears_of_mem_receives hmem)
      · exact hrest htodo task hmem
    refine ⟨hrun.updates, hrun.arrivals, hrun.live, fun task hmem url hurl => ?_⟩
    rcases List.mem_cons.1 hmem with rfl | hmem
    · cases hurl
      intro h hmem _ hh
      rw [hh]
      exact sentSince_sent ((hs.arrivals h hmem).trans hsuffix.length_le) .hive ping v
    · exact hrun.pending task hmem url hurl
  | @broke ping v rest gossip log htodo hlog =>
    refine hs.quiet rfl ?_ (fun _ h => h) hreset
    rcases hlog with rfl | rfl
    · exact List.suffix_refl _
    · exact List.suffix_cons _ _
  | @settled ping rest htodo =>
    refine hs.clear htodo rfl rfl rfl (fun _ => ?_) rfl
    split_ifs
    · exact waits_delete
    · exact waits_setPingAsInflight
  | @reset rest runs queue htodo hqueue =>
    refine hs.quiet rfl (List.suffix_refl _) (fun url hwaits => ?_) fun task hmem => ?_
    · rcases hqueue with rfl | rfl
      · exact hwaits
      · exact hwaits.reset _
    · rcases List.mem_append.1 hmem with hmem | hmem
      · exact .inr (clears_of_mem_receives hmem)
      · rw [List.mem_singleton.1 hmem]
        exact .inr rfl

theorem kept_init (cfg : Config) (queue : Queue) (now : ℕ) : Kept (State.init cfg queue now) where
  updates h hmem := by cases hmem
  arrivals h hmem := by cases hmem
  live h hmem := by cases hmem
  pending task hmem url hurl := by
    rcases List.mem_append.1 hmem with hmem | hmem
    · cases (clears_of_mem_receives hmem).symm.trans hurl
    · rw [List.mem_singleton.1 hmem] at hurl
      cases hurl

/-- **Updates are not forgotten**: in every run in which SQLite fails on key conflicts only, no update is
answered on a row in flight or on one that the thread is about to mark or delete, and no writer reports
on a row that waits, at every moment each answered update was sent since it arrived or has a row that
waits to be fetched. -/
theorem updatesKept_of_timely (cfg : Config) (queue : Queue) (now : ℕ) (as : List Label)
    (hruns : ∀ a ∈ as, a.Runs) (hG : Along (step cfg) Timely (State.init cfg queue now) as) :
    ∀ pre t, pre <+: as → run (step cfg) (State.init cfg queue now) pre = some t → UpdatesKept t :=
  always_of_along (fun _ _ _ hs hG h => hs.step (hruns _ hG.2) hG.1 h) (fun _ hs => hs.updates)
    (kept_init cfg queue now) (along_and_mem hG)

/-- A feed is updated, sent and parked, and its row is deleted when the writer reports it; a second
update comes after the report, and a third while the row waits. -/
def updatedTwice : List Label :=
  [.arrive "u" .update .podcast, .insert 0 true] ++ List.replicate 16 .tick ++
    [.thread (.received none), .thread (.sql true), .thread (.sends false true), .thread (.sql true),
      .arrive "u" .update .podcast,
      .thread (.received (some (.podpingHiveTransaction 1 (some [["u"]])))), .thread (.sql true),
      .insert 1 true, .arrive "u" .update .podcast, .insert 2 true]

theorem updatedTwice_kept :
    (∃ t, run (step ⟨false, false⟩) (.init ⟨false, false⟩ .empty 0) updatedTwice = some t ∧
      t.queue.rows = [⟨"u", 16, .update, .podcast, false⟩] ∧
      t.handlers.map Handler.stage = [.answered, .answered, .answered]) ∧
    ∀ pre t, pre <+: updatedTwice →
      run (step ⟨false, false⟩) (.init ⟨false, false⟩ .empty 0) pre = some t → UpdatesKept t :=
  ⟨⟨_, rfl, rfl, rfl⟩,
    updatesKept_of_timely ⟨false, false⟩ .empty 0 updatedTwice (by decide) (by decide)⟩

/-- A feed is updated, fetched, sent and parked, and then updated again. The second request is
answered, but the row that it found goes away with the report on the first. -/
theorem update_in_flight_forgotten :
    let cfg : Config := ⟨false, false⟩
    let as : List Label :=
      [.arrive "u" .update .podcast, .insert 0 true] ++ List.replicate 16 .tick ++
        [.thread (.received none), .thread (.sql true), .thread (.sends false true),
          .thread (.sql true), .arrive "u" .update .podcast, .insert 1 true,
          .thread (.received (some (.podpingHiveTransaction 1 (some [["u"]])))),
          .thread (.sql true)]
    (∀ a ∈ as, a.Runs) ∧
      ∃ t, run (step cfg) (.init cfg .empty 0) as = some t ∧ t.queue.rows = [] ∧
        ¬UpdatesKept t := by
  refine ⟨by decide, _, rfl, rfl, fun h => ?_⟩
  have hans := h ⟨⟨"u", 16, .update, .podcast⟩, .answered, 2⟩ (by decide) ⟨rfl, rfl⟩
  rcases hans with hsent | ⟨row, hrow, -⟩
  · revert hsent
    rw [SentSince]
    decide
  · cases hrow

end PodpingAlpha.FrontEnd
