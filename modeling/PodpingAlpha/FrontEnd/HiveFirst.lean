import PodpingAlpha.FrontEnd.QueueChecker

/-!
# Hive before gossip

With both writers, `design_document.md` makes Hive "the authoritative success signal" and gossip
"fire-and-forget". The queue checker deletes a row when either of them reports a transaction with its
url, whether or not the row ever went to the hive-writer.

A row is identified by its url and by the write that inserted it, its birth, which an observer of the
run keeps. A message of a row is one that was read from it at its birth or later.

## What is proved

* `hiveFirst_of_unraced` — a row that is deleted because of a transaction went to the hive-writer
  before, in every run in which no transaction comes in for a row that did not, and no row is inserted
  while a deletion of its url is pending.
* `gossip_takes_ping_from_hive` — a failed hive send, and a reply of the gossip-writer.
-/

namespace PodpingAlpha.FrontEnd

open Transition

/-! ### The property and the condition -/

/-- Which write of its url inserted each row. -/
abbrev Births := String → ℕ

/-- A row that appears is born with the write just made. -/
def births (born : Births) (s : State) (_ : Label) (t : State) : Births := fun url =>
  if s.queue.find? url = none ∧ t.queue.find? url ≠ none then version url t.log else born url

/-- Both writers are enabled, and `--ephemeral` is off. -/
def bothWriters : Config := ⟨true, false⟩

/-- The front-end with both writers, observed. -/
def dualStep : State × Births → Label → Option (State × Births) := observed (step bothWriters) births

/-- The observed front-end when it starts on a queue. -/
def dualInit (queue : Queue) (now : ℕ) : State × Births :=
  let s := State.init bothWriters queue now
  (s, fun url => version url s.log)

/-- The event is a message to the hive-writer that was read from the row of `url`. -/
def hiveMessageOf (born : Births) (url : String) : Event → Bool
  | .wrote _ => false
  | .sent writer ping v => writer = .hive && ping.url = url && born url ≤ v

/-- `zmq_hive.send` returned `Ok` for a message of the row of `url`. -/
def HiveSent (p : State × Births) (url : String) : Prop := ∃ e ∈ p.1.log, hiveMessageOf p.2 url e

instance (p : State × Births) (url : String) : Decidable (HiveSent p url) :=
  inferInstanceAs (Decidable (∃ e ∈ _, _))

/-- The url whose row a step deletes because of a transaction. -/
def deletes (s : State) : Label → Option String
  | .thread (.sql true) =>
    match s.todo with
    | .remove url true :: _ => some url
    | _ => none
  | _ => none

/-- A row that is deleted because of a transaction went to the hive-writer. -/
def HiveFirst (p : State × Births) (a : Label) : Prop :=
  ∀ url, deletes p.1 a = some url → p.1.queue.find? url ≠ none → HiveSent p url

/-- A transaction that comes in is about rows that went to the hive-writer, or are gone; and no row is
inserted while a deletion of its url because of a transaction is pending. -/
def Unraced (p : State × Births) : Label → Prop
  | .thread (.received (some reply)) =>
    ∀ url ∈ reply.written, p.1.queue.find? url ≠ none → HiveSent p url
  | .insert i true =>
    match p.1.handlers[i]? with
    | some ⟨ping, .inserting, _⟩ =>
      p.1.queue.find? ping.url = none → .remove ping.url true ∉ p.1.todo
    | _ => True
  | _ => True

instance (p : State × Births) (a : Label) : Decidable (Unraced p a) := by
  unfold Unraced
  split
  · infer_instance
  · split <;> infer_instance
  · infer_instance

/-! ### Steps -/

/-- Only an `INSERT` makes a row appear. -/
theorem find?_of_step {cfg : Config} {s t : State} {a : Label} (h : step cfg s a = some t)
    {url : String} (hs : s.queue.find? url = none) (ht : t.queue.find? url ≠ none) :
    ∃ i ping arrival, a = .insert i true ∧
      s.handlers[i]? = some ⟨ping, .inserting, arrival⟩ ∧ ping.url = url := by
  cases move_of_step h with
  | @inserted i ping arrival queue hi hq =>
    refine ⟨i, ping, arrival, rfl, hi, ?_⟩
    by_contra hne
    have hne' : ping.row.url ≠ url := hne
    rw [Table.find?_insert? hq, if_neg hne'] at ht
    exact ht hs
  | updated =>
    rw [find?_updatePingInQueue] at ht
    split_ifs at ht <;> simp_all
  | removed =>
    rw [find?_deletePingFromQueue] at ht
    split_ifs at ht <;> simp_all
  | settled =>
    split_ifs at ht
    · rw [find?_deletePingFromQueue] at ht
      split_ifs at ht <;> simp_all
    · rw [find?_setPingAsInflight] at ht
      split_ifs at ht <;> simp_all
  | @reset rest runs queue htodo hqueue =>
    rcases hqueue with rfl | rfl
    · exact absurd hs ht
    · rcases find?_resetPingsInFlight s.queue s.now url with heq | heq
      · exact absurd (heq.trans hs) ht
      · exact absurd (heq.trans (by rw [hs]; rfl)) ht
  | _ => exact absurd hs ht

/-! ### The invariant -/

/-- A row with a deletion pending because of a transaction went to the hive-writer. -/
def PendingSent (p : State × Births) : Prop :=
  ∀ url, .remove url true ∈ p.1.todo → p.1.queue.find? url ≠ none → HiveSent p url

/-- A row that was there keeps its birth, and what was sent of it stays sent. -/
theorem HiveSent.step {p q : State × Births} {a : Label} {url : String} (h : HiveSent p url)
    (hstep : dualStep p a = some q) (hrow : p.1.queue.find? url ≠ none) : HiveSent q url := by
  obtain ⟨hs, hborn⟩ := observed_eq_some.1 hstep
  obtain ⟨e, hmem, he⟩ := h
  have hsame : q.2 url = p.2 url := by
    rw [hborn, births, if_neg fun h => hrow h.1]
  refine ⟨e, (log_suffix_of_step hs).subset hmem, ?_⟩
  cases e with
  | wrote ping => cases he
  | sent writer ping v => simpa only [hiveMessageOf, hsame] using he

/-- A step that is not raced keeps the invariant. -/
theorem pendingSent_step {p q : State × Births} {a : Label} (hp : PendingSent p) (hG : Unraced p a)
    (hstep : dualStep p a = some q) : PendingSent q := by
  intro url hmem hrow
  obtain ⟨hs, -⟩ := observed_eq_some.1 hstep
  by_cases hold : p.1.queue.find? url = none
  · -- the row is new, so its deletion was not pending when it was inserted
    obtain ⟨i, ping, arrival, rfl, hi, rfl⟩ := find?_of_step hs hold hrow
    rcases remove_mem_todo_of_step hs hmem with hmem | ⟨reply, hreply, -⟩
    · unfold Unraced at hG
      simp only [hi] at hG
      exact absurd hmem (hG hold)
    · cases hreply
  · rcases remove_mem_todo_of_step hs hmem with hmem | ⟨reply, rfl, hmem⟩
    · exact (hp url hmem hold).step hstep hold
    · exact HiveSent.step (hG url hmem hold) hstep hold

theorem mem_todo_of_deletes {s : State} {a : Label} {url : String} (h : deletes s a = some url) :
    .remove url true ∈ s.todo := by
  unfold deletes at h
  split at h
  · split at h
    · rename_i htodo
      cases h
      rw [htodo]
      exact List.mem_cons_self
    · cases h
  · cases h

theorem pendingSent_init (queue : Queue) (now : ℕ) : PendingSent (dualInit queue now) := by
  intro url hmem
  have hstart : .remove url true ∈ loopStart bothWriters := hmem
  simp [loopStart, receives, bothWriters] at hstart

/-- **Hive before gossip**: with both writers and `--ephemeral` off, a row is deleted because of a
transaction only after a message of it went to the hive-writer, in every run in which no transaction
comes in for a row that did not, and no row is inserted while a deletion of its url is pending. -/
theorem hiveFirst_of_unraced (queue : Queue) (now : ℕ) (as : List Label)
    (h : Along dualStep Unraced (dualInit queue now) as) :
    Along dualStep HiveFirst (dualInit queue now) as := by
  refine along_of_inv (I := PendingSent) (fun p a q hp hG hstep => pendingSent_step hp hG hstep)
    (fun p a hp _ url hdel hrow => ?_) (pendingSent_init queue now) h
  exact hp url (mem_todo_of_deletes hdel) hrow

/-- A feed is inserted, and its message goes to the gossip-writer; the send to the hive-writer fails and
breaks the batch. In the next iteration the gossip-writer reports its transaction, and the row is
deleted before Hive got it. -/
theorem gossip_takes_ping_from_hive :
    let before : List Label := [.arrive "u" .update .podcast, .insert 0 true] ++
      List.replicate 16 .tick ++
      [.thread (.received none), .thread (.received none), .thread (.sql true),
        .thread (.sends true false), .thread (.sql true), .thread (.received none),
        .thread (.received (some (.podpingHiveTransaction 1 (some [["u"]]))))]
    (∃ p, run dualStep (dualInit .empty 0) before = some p ∧
      p.1.queue.find? "u" = some ⟨"u", 0, .update, .podcast, false⟩ ∧
      deletes p.1 (.thread (.sql true)) = some "u" ∧
      p.1.log = [.sent .gossip ⟨"u", 0, .update, .podcast⟩ 1, .wrote ⟨"u", 0, .update, .podcast⟩]) ∧
    ¬Along dualStep HiveFirst (dualInit .empty 0) (before ++ [.thread (.sql true)]) := by
  refine ⟨⟨_, rfl, rfl, rfl, rfl⟩, fun h => ?_⟩
  have hlast := along_iff_forall.1 h _ _ [] _ rfl rfl "u" rfl nofun
  revert hlast
  decide

/-- A feed whose message goes to both writers, and is deleted when the gossip-writer reports it. -/
def reportedRun : List Label :=
  [.arrive "u" .update .podcast, .insert 0 true] ++ List.replicate 16 .tick ++
    [.thread (.received none), .thread (.received none), .thread (.sql true),
      .thread (.sends true true), .thread (.sql true), .thread (.received none),
      .thread (.received (some (.podpingHiveTransaction 1 (some [["u"]])))), .thread (.sql true)]

theorem reportedRun_hiveFirst : Along dualStep HiveFirst (dualInit .empty 0) reportedRun :=
  hiveFirst_of_unraced .empty 0 reportedRun (by decide)

end PodpingAlpha.FrontEnd
