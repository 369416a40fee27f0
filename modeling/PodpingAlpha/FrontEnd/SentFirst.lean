import PodpingAlpha.FrontEnd.QueueChecker

/-!
# Sent before it is parked or deleted

When the thread marks a row as in flight, or deletes it because a transaction came back, has what
the row says been sent? The batch is a snapshot and the two statements are keyed by url alone, so
the answer is about the order in which a handler writes the row, the thread reads it, and the
message goes out.

## What is proved

* `sentFirst_of_undisturbed` — every such statement finds a row whose content was sent since it was
  written, in every run in which no handler rewrites a row that the thread has in hand, and no
  transaction comes in for a row that was rewritten after its last message.
* `upgrade_parked_unsent` — a run in which a `Live` upgrade is parked unsent.
-/

namespace PodpingAlpha.FrontEnd

open Transition

/-! ### The property and the condition -/

/-- The url whose row a step marks as in flight, or deletes because of a transaction. -/
def parks (cfg : Config) (s : State) : Label → Option String
  | .thread (.sql true) =>
    match s.todo with
    | .settle ping :: _ => if cfg.ephemeral then none else some ping.url
    | .remove url true :: _ => some url
    | _ => none
  | _ => none

/-- The event is a message with the content of the row. -/
def carries (row : Row) : Event → Bool
  | .wrote _ => false
  | .sent _ ping _ => ping.url = row.url && ping.reason = row.reason && ping.medium = row.medium

/-- What the row says was sent since it was last written. -/
def Carried (log : List Event) (row : Row) : Prop := ∃ e ∈ sinceWritten row.url log, carries row e

/-- A row that is parked or deleted says what was sent. -/
def SentFirst (cfg : Config) (s : State) (a : Label) : Prop :=
  ∀ url, parks cfg s a = some url → ∀ row, s.queue.find? url = some row → Carried s.log row

/-- The ping that a handler's statement writes to a row. -/
def rewrites (s : State) : Label → Option Ping
  | .insert i true =>
    match s.handlers[i]? with
    | some ⟨ping, .inserting, _⟩ => if s.queue.find? ping.url = none then some ping else none
    | _ => none
  | .update i true =>
    match s.handlers[i]? with
    | some ⟨ping, .updating, _⟩ => if s.queue.find? ping.url = none then none else some ping
    | _ => none
  | _ => none

/-- The thread has the row of `ping` in hand, as it is before `ping` is written: it was fetched with
another content, or is about to be marked as in flight or deleted because of a transaction. -/
def Task.holds (cfg : Config) (ping : Ping) : Task → Bool
  | .send ping' _ => ping'.url = ping.url && (ping'.reason ≠ ping.reason || ping'.medium ≠ ping.medium)
  | .settle ping' => !cfg.ephemeral && ping'.url = ping.url
  | .remove url true => url = ping.url
  | _ => false

/-- A message for `url` went out after the last write of its row. -/
def Followed (url : String) (log : List Event) : Prop := ∃ e ∈ sinceWritten url log, messageFor url e

/-- No handler rewrites a row that the thread has in hand; and a transaction that comes in is about rows
that are gone, or were not rewritten after the last message for them. -/
def Undisturbed (cfg : Config) (s : State) (a : Label) : Prop :=
  (∀ ping ∈ rewrites s a, ∀ task ∈ s.todo, task.holds cfg ping = false) ∧
    ∀ reply ∈ a.received, ∀ url ∈ reply.written, s.queue.find? url ≠ none → Followed url s.log

instance (url : String) (log : List Event) : Decidable (Followed url log) :=
  inferInstanceAs (Decidable (∃ e ∈ _, _))

instance (cfg : Config) (s : State) (a : Label) : Decidable (Undisturbed cfg s a) :=
  inferInstanceAs (Decidable (_ ∧ _))

/-! ### The log -/

theorem lastWritten_wrote (url : String) (ping : Ping) (log : List Event) :
    lastWritten url (.wrote ping :: log) =
      if ping.url = url then some (ping.reason, ping.medium) else lastWritten url log := by
  simp only [lastWritten, List.findSome?_cons, Event.writes]
  split_ifs <;> rfl

@[simp] theorem lastWritten_sent (url : String) (writer : Writer) (ping : Ping) (v : ℕ)
    (log : List Event) : lastWritten url (.sent writer ping v :: log) = lastWritten url log := rfl

theorem sinceWritten_wrote (url : String) (ping : Ping) (log : List Event) :
    sinceWritten url (.wrote ping :: log) =
      if ping.url = url then [] else .wrote ping :: sinceWritten url log := by
  by_cases h : ping.url = url
  · simp [sinceWritten, Event.writes, h]
  · simp [sinceWritten, Event.writes, h]

@[simp] theorem sinceWritten_sent (url : String) (writer : Writer) (ping : Ping) (v : ℕ)
    (log : List Event) :
    sinceWritten url (.sent writer ping v :: log) = .sent writer ping v :: sinceWritten url log := rfl

/-- A write of another row leaves it followed. -/
theorem Followed.wrote {url : String} {log : List Event} (h : Followed url log) {ping : Ping}
    (hne : ping.url ≠ url) : Followed url (.wrote ping :: log) := by
  obtain ⟨e, he, hurl⟩ := h
  refine ⟨e, ?_, hurl⟩
  rw [sinceWritten_wrote, if_neg hne]
  exact List.mem_cons_of_mem _ he

theorem Followed.sent {url : String} {log : List Event} (h : Followed url log) (writer : Writer)
    (ping : Ping) (v : ℕ) : Followed url (.sent writer ping v :: log) := by
  obtain ⟨e, he, hurl⟩ := h
  exact ⟨e, List.mem_cons_of_mem _ he, hurl⟩

theorem followed_sent (writer : Writer) (ping : Ping) (v : ℕ) (log : List Event) :
    Followed ping.url (.sent writer ping v :: log) :=
  ⟨_, List.mem_cons_self, decide_eq_true rfl⟩

/-! ### The invariant -/

/-- The row of `ping` was last given what `ping` says. -/
def Current (log : List Event) (ping : Ping) : Prop :=
  lastWritten ping.url log = some (ping.reason, ping.medium)

/-- The rows say what was last written to them, what is sent after a write says the same, and what is
about to be marked or deleted was sent. -/
structure Inv (cfg : Config) (s : State) : Prop where
  rows : ∀ url row, s.queue.find? url = some row →
    lastWritten url s.log = some (row.reason, row.medium)
  log : ∀ writer ping v, .sent writer ping v ∈ sinceWritten ping.url s.log → Current s.log ping
  sends : ∀ ping v, .send ping v ∈ s.todo → Current s.log ping
  marks : cfg.ephemeral = false → ∀ ping, .settle ping ∈ s.todo → Followed ping.url s.log
  deletions : ∀ url, .remove url true ∈ s.todo → s.queue.find? url ≠ none → Followed url s.log

/-- The rows of the second queue say what those of the first say. -/
def SameContent (q q' : Queue) : Prop :=
  ∀ url row', q'.find? url = some row' →
    ∃ row, q.find? url = some row ∧ row.reason = row'.reason ∧ row.medium = row'.medium

theorem SameContent.refl (q : Queue) : SameContent q q := fun _ row h => ⟨row, h, rfl, rfl⟩

theorem sameContent_delete (url : String) (q : Queue) : SameContent q (deletePingFromQueue url q) := by
  intro url' row' h
  rw [find?_deletePingFromQueue] at h
  split_ifs at h
  exact ⟨row', h, rfl, rfl⟩

theorem sameContent_setPingAsInflight (ping : Ping) (q : Queue) :
    SameContent q (setPingAsInflight ping q) := by
  intro url row' h
  rw [find?_setPingAsInflight] at h
  split_ifs at h
  · obtain ⟨row, hrow, rfl⟩ := Option.map_eq_some_iff.1 h
    exact ⟨row, hrow, rfl, rfl⟩
  · exact ⟨row', h, rfl, rfl⟩

theorem sameContent_reset (q : Queue) (now : ℕ) : SameContent q (resetPingsInFlight q now) := by
  intro url row' h
  rcases find?_resetPingsInFlight q now url with heq | heq
  · exact ⟨row', heq ▸ h, rfl, rfl⟩
  · obtain ⟨row, hrow, rfl⟩ := Option.map_eq_some_iff.1 (heq ▸ h)
    exact ⟨row, hrow, rfl, rfl⟩

theorem SameContent.find?_ne_none {q q' : Queue} (h : SameContent q q') {url : String}
    (hne : q'.find? url ≠ none) : q.find? url ≠ none := by
  obtain ⟨row', hrow'⟩ := Option.ne_none_iff_exists'.1 hne
  obtain ⟨row, hrow, -⟩ := h url row' hrow'
  rw [hrow]
  exact Option.some_ne_none row

/-- The task stands for nothing that was read, sent or reported. -/
def Task.idle : Task → Bool
  | .send .. | .settle _ | .remove _ true => false
  | _ => true

theorem idle_of_mem_receives {cfg : Config} {task : Task} (h : task ∈ receives cfg) :
    task.idle = true := by
  rw [receives] at h
  split_ifs at h <;> simp only [List.mem_cons, List.not_mem_nil, or_false] at h
  · rcases h with rfl | rfl <;> rfl
  · rw [h]
    rfl

theorem idle_of_mem_loopStart {cfg : Config} {task : Task} (h : task ∈ loopStart cfg) :
    task.idle = true := by
  rcases List.mem_append.1 h with h | h
  · exact idle_of_mem_receives h
  · rw [List.mem_singleton.1 h]
    rfl

/-- A step that writes nothing to the rows and sends nothing keeps the invariant, when what is left
to do was there before, idle tasks apart. -/
theorem Inv.of_sameContent {cfg : Config} {s t : State} (hs : Inv cfg s)
    (hq : SameContent s.queue t.queue) (hlog : t.log = s.log)
    (htodo : ∀ task ∈ t.todo, task ∈ s.todo ∨ task.idle) : Inv cfg t where
  rows url row h := by
    obtain ⟨row', h', hreason, hmedium⟩ := hq url row h
    rw [hlog, hs.rows url row' h', hreason, hmedium]
  log writer ping v h := hlog ▸ hs.log writer ping v (hlog ▸ h)
  sends ping v h := hlog ▸ hs.sends ping v ((htodo _ h).resolve_right Bool.false_ne_true)
  marks heph ping h := hlog ▸ hs.marks heph ping ((htodo _ h).resolve_right Bool.false_ne_true)
  deletions url h hrow :=
    hlog ▸ hs.deletions url ((htodo _ h).resolve_right Bool.false_ne_true) (hq.find?_ne_none hrow)

/-- A handler's write keeps the invariant, when the thread does not have the row in hand. -/
theorem Inv.wrote {cfg : Config} {s t : State} {ping : Ping} (hs : Inv cfg s)
    (hq : ∀ url row, t.queue.find? url = some row →
      (url = ping.url ∧ row = ping.row) ∨ url ≠ ping.url ∧ s.queue.find? url = some row)
    (hlog : t.log = .wrote ping :: s.log) (htodo : t.todo = s.todo)
    (hfree : ∀ task ∈ s.todo, task.holds cfg ping = false) : Inv cfg t where
  rows url row h := by
    rw [hlog, lastWritten_wrote]
    rcases hq url row h with ⟨rfl, rfl⟩ | ⟨hne, h⟩
    · rw [if_pos rfl]
      rfl
    · rw [if_neg (Ne.symm hne)]
      exact hs.rows url row h
  log writer p v h := by
    rw [hlog, sinceWritten_wrote] at h
    rw [hlog, Current, lastWritten_wrote]
    split_ifs at h ⊢
    · cases h
    · exact hs.log writer p v ((List.mem_cons.1 h).resolve_left (by simp))
  sends p v h := by
    rw [htodo] at h
    rw [hlog, Current, lastWritten_wrote]
    split_ifs with hurl
    · -- what was fetched is what is written
      have hsame := hfree _ h
      simp only [Task.holds, hurl, decide_true, Bool.true_and, Bool.or_eq_false_iff,
        decide_eq_false_iff_not, not_not] at hsame
      rw [hsame.1, hsame.2]
    · exact hs.sends p v h
  marks heph p h := by
    rw [htodo] at h
    have hne := hfree _ h
    simp only [Task.holds, heph, Bool.not_false, Bool.true_and, decide_eq_false_iff_not] at hne
    rw [hlog]
    exact (hs.marks heph p h).wrote (Ne.symm hne)
  deletions url h hrow := by
    rw [htodo] at h
    have hne : url ≠ ping.url := of_decide_eq_false (hfree _ h)
    obtain ⟨row, hrow⟩ := Option.ne_none_iff_exists'.1 hrow
    rcases hq url row hrow with ⟨heq, -⟩ | ⟨-, hrow'⟩
    · exact absurd heq hne
    · rw [hlog]
      exact (hs.deletions url h (by simp [hrow'])).wrote (Ne.symm hne)

/-- A message that says what its row says keeps the invariant. -/
theorem Inv.message {cfg : Config} {s : State} (hs : Inv cfg s) (writer : Writer) {ping : Ping} (v : ℕ)
    (hping : Current s.log ping) : Inv cfg { s with log := .sent writer ping v :: s.log } where
  rows url row h := by
    rw [lastWritten_sent]
    exact hs.rows url row h
  log writer' p v' h := by
    rw [sinceWritten_sent] at h
    rcases List.mem_cons.1 h with heq | h
    · cases heq
      exact hping
    · exact hs.log writer' p v' h
  sends p v' h := hs.sends p v' h
  marks heph p h := (hs.marks heph p h).sent writer ping v
  deletions url h hrow := (hs.deletions url h hrow).sent writer ping v

/-- What the send to the gossip-writer does to the invariant. -/
theorem Inv.log_of_send {cfg : Config} {s : State} {ping : Ping} {v : ℕ} {log : List Event}
    (hs : Inv cfg s) (hping : Current s.log ping)
    (hlog : log = s.log ∨ log = .sent .gossip ping v :: s.log) :
    Inv cfg { s with log := log } ∧ Current log ping := by
  rcases hlog with rfl | rfl
  · exact ⟨hs, hping⟩
  · exact ⟨hs.message .gossip v hping, hping⟩

theorem exists_of_mem_removals {reply : Reply} {task : Task} (h : task ∈ reply.removals) :
    ∃ url written, task = .remove url written := by
  cases reply with
  | podpingWriteError iri =>
    obtain ⟨url, -, rfl⟩ := List.mem_map.1 h
    exact ⟨url, false, rfl⟩
  | podpingHiveTransaction hiveBlockNum podpings =>
    simp only [Reply.removals] at h
    split_ifs at h
    · cases h
    · obtain ⟨url, -, rfl⟩ := List.mem_map.1 h
      exact ⟨url, true, rfl⟩

theorem send_notMem_removals {reply : Reply} {ping : Ping} {v : ℕ} :
    .send ping v ∉ reply.removals := by
  intro h
  obtain ⟨_, _, heq⟩ := exists_of_mem_removals h
  cases heq

theorem settle_notMem_removals {reply : Reply} {ping : Ping} : .settle ping ∉ reply.removals := by
  intro h
  obtain ⟨_, _, heq⟩ := exists_of_mem_removals h
  cases heq

theorem send_notMem_receives {cfg : Config} {ping : Ping} {v : ℕ} : .send ping v ∉ receives cfg := by
  rw [receives]
  split_ifs <;> simp

/-- A step that disturbs nothing keeps the invariant. -/
theorem inv_step {cfg : Config} {s t : State} {a : Label} (hs : Inv cfg s) (hG : Undisturbed cfg s a)
    (h : step cfg s a = some t) : Inv cfg t := by
  have hrest : ∀ {task : Task} {rest : List Task}, s.todo = task :: rest →
      ∀ task' ∈ rest, task' ∈ s.todo ∨ task'.idle := by
    intro task rest htodo task' hmem
    rw [htodo]
    exact .inl (List.mem_cons_of_mem _ hmem)
  have hreset : ∀ task ∈ [Task.reset], task ∈ s.todo ∨ task.idle := by
    intro task hmem
    rw [List.mem_singleton.1 hmem]
    exact .inr rfl
  cases move_of_step h with
  | tick => exact hs.of_sameContent (.refl _) rfl fun _ h => .inl h
  | arrive => exact hs.of_sameContent (.refl _) rfl fun _ h => .inl h
  | refused hi hq => exact hs.of_sameContent (.refl _) rfl fun _ h => .inl h
  | missed hi => exact hs.of_sameContent (.refl _) rfl fun _ h => .inl h
  | @inserted i ping arrival queue hi hq =>
    have hnone : s.queue.find? ping.url = none := Table.find?_of_insert? hq
    have hwrites : rewrites s (.insert i true) = some ping := by simp [rewrites, hi, hnone]
    refine hs.wrote (fun url row hrow => ?_) rfl rfl (hG.1 ping hwrites)
    rw [Table.find?_insert? hq] at hrow
    split_ifs at hrow with hurl
    · exact .inl ⟨hurl.symm, (Option.some.inj hrow).symm⟩
    · exact .inr ⟨fun heq => hurl heq.symm, hrow⟩
  | @updated i ping arrival row₀ hi hrow₀ =>
    have hwrites : rewrites s (.update i true) = some ping := by simp [rewrites, hi, hrow₀]
    refine hs.wrote (fun url row hrow => ?_) rfl rfl (hG.1 ping hwrites)
    rw [find?_updatePingInQueue] at hrow
    split_ifs at hrow with hurl
    · obtain ⟨_, -, rfl⟩ := Option.map_eq_some_iff.1 hrow
      exact .inl ⟨hurl, rfl⟩
    · exact .inr ⟨hurl, hrow⟩
  | idle htodo => exact hs.of_sameContent (.refl _) rfl (hrest htodo)
  | @replied writer rest again reply htodo hsent hagain =>
    have hrun : Inv cfg { s with todo := again ++ rest } := by
      refine hs.of_sameContent (.refl _) rfl fun task hmem => ?_
      rcases List.mem_append.1 hmem with hmem | hmem
      · rw [hagain task hmem]
        exact .inr rfl
      · exact hrest htodo task hmem
    rw [List.append_assoc]
    refine ⟨hrun.rows, hrun.log, fun ping v hmem => ?_, fun heph ping hmem => ?_, fun url hmem hrow => ?_⟩
    · exact hrun.sends ping v ((List.mem_append.1 hmem).resolve_left send_notMem_removals)
    · exact hrun.marks heph ping ((List.mem_append.1 hmem).resolve_left settle_notMem_removals)
    · rcases List.mem_append.1 hmem with hmem | hmem
      · exact hG.2 reply rfl url (remove_mem_removals.1 hmem) hrow
      · exact hrun.deletions url hmem hrow
  | removed htodo => exact hs.of_sameContent (sameContent_delete _ _) rfl (hrest htodo)
  | fetched htodo =>
    have hbatch : ∀ task ∈ batch s.log (getPingsFromQueue false s.queue s.now) ++ [.reset],
        task.idle ∨ ∃ ping v, task = .send ping v ∧ Current s.log ping := by
      intro task hmem
      rcases List.mem_append.1 hmem with hmem | hmem
      · obtain ⟨ping, hping, rfl⟩ := List.mem_map.1 hmem
        obtain ⟨row, hrow, -, rfl⟩ := mem_getPingsFromQueue hping
        exact .inr ⟨_, _, rfl, hs.rows _ row hrow⟩
      · rw [List.mem_singleton.1 hmem]
        exact .inl rfl
    refine ⟨hs.rows, hs.log, fun ping v hmem => ?_, fun _ ping hmem => ?_, fun url hmem _ => ?_⟩
    · obtain ⟨ping', v', heq, hcurrent⟩ := (hbatch _ hmem).resolve_left Bool.false_ne_true
      cases heq
      exact hcurrent
    · obtain ⟨_, _, heq, -⟩ := (hbatch _ hmem).resolve_left Bool.false_ne_true
      cases heq
    · obtain ⟨_, _, heq, -⟩ := (hbatch _ hmem).resolve_left Bool.false_ne_true
      cases heq
  | failed htodo htask after hafter =>
    refine hs.of_sameContent (.refl _) rfl fun task hmem => ?_
    rcases hafter task hmem with rfl | hmem
    · exact .inr rfl
    · exact hrest htodo task hmem
  | @sent ping v rest gossip log htodo hlog =>
    have hping : Current s.log ping := hs.sends ping v (htodo ▸ List.mem_cons_self)
    obtain ⟨hs', hping'⟩ := hs.log_of_send hping hlog
    have hrun : Inv cfg { s with
        todo := receives cfg ++ rest, sent := s.sent + 1, log := .sent .hive ping v :: log } := by
      refine (hs'.message .hive v hping').of_sameContent (.refl _) rfl fun task hmem => ?_
      rcases List.mem_append.1 hmem with hmem | hmem
      · exact .inr (idle_of_mem_receives hmem)
      · exact hrest htodo task hmem
    refine ⟨hrun.rows, hrun.log, fun p v' hmem => ?_, fun heph p hmem => ?_, fun url hmem hrow => ?_⟩
    · exact hrun.sends p v' ((List.mem_cons.1 hmem).resolve_left (by simp))
    · rcases List.mem_cons.1 hmem with heq | hmem
      · cases heq
        exact followed_sent .hive ping v log
      · exact hrun.marks heph p hmem
    · exact hrun.deletions url ((List.mem_cons.1 hmem).resolve_left (by simp)) hrow
  | @broke ping v rest gossip log htodo hlog =>
    have hping : Current s.log ping := hs.sends ping v (htodo ▸ List.mem_cons_self)
    exact (hs.log_of_send hping hlog).1.of_sameContent (.refl _) rfl hreset
  | settled htodo =>
    refine hs.of_sameContent ?_ rfl (hrest htodo)
    split_ifs
    · exact sameContent_delete _ _
    · exact sameContent_setPingAsInflight _ _
  | reset queue htodo hqueue =>
    refine hs.of_sameContent ?_ rfl fun task hmem => .inr (idle_of_mem_loopStart hmem)
    rcases hqueue with rfl | rfl
    · exact .refl _
    · exact sameContent_reset _ _

/-- The first log says what the rows say. -/
theorem lastWritten_rows (url : String) (rows : List Row) :
    lastWritten url (rows.map fun row => .wrote row.ping) =
      (rows.find? fun row => row.url = url).map fun row => (row.reason, row.medium) := by
  induction rows with
  | nil => rfl
  | cons row rows ih =>
    rw [List.map_cons, lastWritten_wrote, List.find?_cons]
    by_cases h : row.url = url
    · simp [Row.ping, h]
    · have hping : row.ping.url ≠ url := h
      rw [if_neg hping, ih]
      simp only [h, decide_false]

theorem inv_init (cfg : Config) (queue : Queue) (now : ℕ) : Inv cfg (State.init cfg queue now) where
  rows url row h := by
    have hrow : (queue.rows.find? fun r => r.url = url) = some row := h
    rw [State.init, lastWritten_rows, hrow]
    rfl
  log writer ping v h := by
    obtain ⟨_, -, heq⟩ := List.mem_map.1 (List.takeWhile_subset _ h)
    cases heq
  sends ping v h := by cases idle_of_mem_loopStart h
  marks _ ping h := by cases idle_of_mem_loopStart h
  deletions url h := by cases idle_of_mem_loopStart h

/-! ### What is parked or deleted was sent -/

/-- What was sent after the last write of a row is what the row says. -/
theorem Inv.carried {cfg : Config} {s : State} (hs : Inv cfg s) {row : Row}
    (hrow : s.queue.find? row.url = some row) (h : Followed row.url s.log) : Carried s.log row := by
  obtain ⟨e, he, hurl⟩ := h
  refine ⟨e, he, ?_⟩
  cases e with
  | wrote ping => cases hurl
  | sent writer ping v =>
    have hurl : ping.url = row.url := of_decide_eq_true hurl
    have hcurrent : lastWritten ping.url s.log = some (ping.reason, ping.medium) :=
      hs.log writer ping v (hurl ▸ he)
    rw [hurl, hs.rows _ row hrow] at hcurrent
    obtain ⟨hreason, hmedium⟩ := Prod.mk.inj (Option.some.inj hcurrent)
    simp only [carries, hurl, hreason, hmedium, decide_true, Bool.and_true]

theorem followed_of_parks {cfg : Config} {s : State} {a : Label} (hs : Inv cfg s) {url : String}
    (h : parks cfg s a = some url) (hrow : s.queue.find? url ≠ none) : Followed url s.log := by
  unfold parks at h
  split at h
  · split at h
    · rename_i ping rest htodo
      split_ifs at h with heph
      cases h
      exact hs.marks (Bool.eq_false_iff.2 heph) ping (htodo ▸ List.mem_cons_self)
    · rename_i htodo
      cases h
      exact hs.deletions url (htodo ▸ List.mem_cons_self) hrow
    · cases h
  · cases h

/-- **Sent before it is parked**: each row marked as in flight or deleted because of a transaction says
what was sent since it was written, in every run in which no handler rewrites a row that the thread has
in hand, and no transaction comes in for a row that was rewritten after the last message for it. -/
theorem sentFirst_of_undisturbed (cfg : Config) (queue : Queue) (now : ℕ) (as : List Label)
    (h : Along (step cfg) (Undisturbed cfg) (State.init cfg queue now) as) :
    Along (step cfg) (SentFirst cfg) (State.init cfg queue now) as := by
  refine along_of_inv (I := Inv cfg) (fun s a t hs hG h => inv_step hs hG h)
    (fun s a hs _ url hparks row hrow => ?_) (inv_init cfg queue now) h
  obtain ⟨-, rfl⟩ := Table.find?_eq_some.1 hrow
  exact hs.carried hrow (followed_of_parks hs hparks (by simp [hrow]))

/-- A feed is updated, sent and parked; then it goes live, and the upgrade is sent, parked and deleted
when the writer reports it. -/
def upgradeSent : List Label :=
  [.arrive "u" .update .podcast, .insert 0 true] ++ List.replicate 16 .tick ++
    [.thread (.received none), .thread (.sql true), .thread (.sends false true), .thread (.sql true),
      .arrive "u" .live .podcast, .insert 1 true, .update 1 true, .thread (.received none),
      .thread (.sql true)] ++ List.replicate 16 .tick ++
    [.thread (.received none), .thread (.sql true), .thread (.sends false true), .thread (.sql true),
      .thread (.received (some (.podpingHiveTransaction 1 (some [["u"]])))), .thread (.sql true)]

theorem upgradeSent_sentFirst :
    (run (step ⟨false, false⟩) (.init ⟨false, false⟩ .empty 0) upgradeSent).map (fun s => s.queue.rows) =
        some [] ∧
      Along (step ⟨false, false⟩) (SentFirst ⟨false, false⟩) (.init ⟨false, false⟩ .empty 0) upgradeSent :=
  ⟨by decide, sentFirst_of_undisturbed ⟨false, false⟩ .empty 0 upgradeSent (by decide)⟩

/-- A feed is updated, fetched and sent; between the fetch and the send it goes live. The `Live` row
is parked, and what went out says `Update`. -/
theorem upgrade_parked_unsent :
    let cfg : Config := ⟨false, false⟩
    let before := [.arrive "u" .update .podcast, .insert 0 true] ++ List.replicate 16 .tick ++
      [.thread (.received none), .thread (.sql true), .arrive "u" .live .podcast, .insert 1 true,
        .update 1 true, .thread (.sends false true)]
    (run (step cfg) (.init cfg .empty 0) (before ++ [.thread (.sql true)])).map
        (fun s => (s.queue.rows, s.log)) =
      some ([⟨"u", 16, .live, .podcast, true⟩],
        [.sent .hive ⟨"u", 0, .update, .podcast⟩ 1, .wrote ⟨"u", 16, .live, .podcast⟩,
          .wrote ⟨"u", 0, .update, .podcast⟩]) ∧
      ¬Along (step cfg) (SentFirst cfg) (.init cfg .empty 0) (before ++ [.thread (.sql true)]) := by
  refine ⟨by decide, fun h => ?_⟩
  have hlast := along_iff_forall.1 h _ _ [] _ rfl rfl "u" rfl _ rfl
  revert hlast
  rw [Carried]
  decide

end PodpingAlpha.FrontEnd
