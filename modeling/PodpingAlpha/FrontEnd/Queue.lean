import PodpingAlpha.Library.Table
import Mathlib.Data.List.Sort

/-!
# The queue database

The `queue` table of `podping/dbif/src/lib.rs` and the statements run on it. A row is in flight once
its notification went to the writers; it is deleted when a writer reports it written, and goes back
to be sent again when no report came in time.

## The model

A `Queue` is a table keyed by `url`. The text columns `reason` and `medium` hold what
`Reason::to_string` and `Medium::to_string` give, so they are `Reason` and `Medium` here, and the
`unwrap`s of `get_pings_from_queue` are `fromStr_toString`. The database may refuse a statement
(`Disk`): the file is locked, the disk is full.
-/

namespace PodpingAlpha.FrontEnd

/-! ### Pings -/

/-- `Reason`. -/
inductive Reason where
  | update
  | live
  | liveEnd
  deriving DecidableEq

/-- `Medium`. -/
inductive Medium where
  | podcast
  | podcastL
  | music
  | musicL
  | video
  | videoL
  | film
  | filmL
  | audiobook
  | audiobookL
  | newsletter
  | newsletterL
  | blog
  | blogL
  | publisher
  | publisherL
  | course
  | courseL
  deriving DecidableEq

/-- `Reason::to_string`. -/
def Reason.toString : Reason → String
  | .update => "Update"
  | .live => "Live"
  | .liveEnd => "LiveEnd"

/-- `Medium::to_string`. -/
def Medium.toString : Medium → String
  | .podcast => "Podcast"
  | .podcastL => "PodcastL"
  | .music => "Music"
  | .musicL => "MusicL"
  | .video => "Video"
  | .videoL => "VideoL"
  | .film => "Film"
  | .filmL => "FilmL"
  | .audiobook => "Audiobook"
  | .audiobookL => "AudiobookL"
  | .newsletter => "Newsletter"
  | .newsletterL => "NewsletterL"
  | .blog => "Blog"
  | .blogL => "BlogL"
  | .publisher => "Publisher"
  | .publisherL => "PublisherL"
  | .course => "Course"
  | .courseL => "CourseL"

/-- The variants of `Reason`. -/
def Reason.variants : List Reason := [.update, .live, .liveEnd]

/-- The variants of `Medium`. -/
def Medium.variants : List Medium :=
  [.podcast, .podcastL, .music, .musicL, .video, .videoL, .film, .filmL, .audiobook, .audiobookL,
    .newsletter, .newsletterL, .blog, .blogL, .publisher, .publisherL, .course, .courseL]

/-- `a.eq_ignore_ascii_case(b)`. -/
def eqIgnoreAsciiCase (a b : String) : Bool := a.toList.map Char.toLower == b.toList.map Char.toLower

/-- `Reason::from_str`. -/
def Reason.fromStr (s : String) : Option Reason :=
  variants.find? fun r => eqIgnoreAsciiCase r.toString s

/-- `Medium::from_str`. -/
def Medium.fromStr (s : String) : Option Medium :=
  variants.find? fun m => eqIgnoreAsciiCase m.toString s

/-- What is written to the queue can be read from it. -/
theorem Reason.fromStr_toString (r : Reason) : Reason.fromStr r.toString = some r := by
  cases r <;> decide

theorem Medium.fromStr_toString (m : Medium) : Medium.fromStr m.toString = some m := by
  cases m <;> decide

/-- A notification. -/
structure Ping where
  /-- The feed. -/
  url : String
  /-- When the request arrived, in seconds. -/
  time : ℕ
  /-- What happened to the feed. -/
  reason : Reason
  /-- What the feed holds. -/
  medium : Medium
  deriving DecidableEq

/-! ### The table -/

/-- A row of the queue. -/
structure Row where
  /-- The feed, the primary key. -/
  url : String
  /-- When the row was written or last put back, in seconds. -/
  createdon : ℕ
  /-- What happened to the feed. -/
  reason : Reason
  /-- What the feed holds. -/
  medium : Medium
  /-- Sent to the writers and not yet reported back. -/
  inflight : Bool
  deriving DecidableEq

/-- The queue table. -/
abbrev Queue := Table Row.url

/-- Whether the database runs a statement. -/
structure Disk where
  /-- It runs the `INSERT`. -/
  inserts : Bool
  /-- It runs the `UPDATE` that follows a failed `INSERT`. -/
  updates : Bool

/-- The errors of `dbif`, which print their message after `Fatal error: `. -/
inductive HydraError where
  /-- `URL already in queue: [url].` -/
  | urlAlreadyInQueue (url : String)
  /-- `Updating ping with new info failed: [ping].` -/
  | updatingPingFailed (ping : Ping)
  /-- `No publisher match found for: [authstring].` -/
  | noPublisherMatch (authstring : List Char)
  /-- `No hybrid publisher match found for: [authstringparm].` -/
  | noHybridPublisherMatch (authstringparm : List Char)

/-- The row of a new ping. -/
def Ping.row (ping : Ping) : Row where
  url := ping.url
  createdon := ping.time
  reason := ping.reason
  medium := ping.medium
  inflight := false

/-- The ping of a row. -/
def Row.ping (row : Row) : Ping where
  url := row.url
  time := row.createdon
  reason := row.reason
  medium := row.medium

/-- `PING_BATCH_SIZE`. -/
def pingBatchSize : ℕ := 1000

/-- `get_pings_from_queue` at time `now`. -/
def getPingsFromQueue (withInFlight : Bool) (queue : Queue) (now : ℕ) : List Ping :=
  let eligible := queue.rows.filter fun r =>
    (withInFlight || !r.inflight) && r.createdon + 15 < now
  ((eligible.insertionSort fun a b => a.reason.toString ≤ b.reason.toString).take pingBatchSize).map
    Row.ping

/-- `update_ping_in_queue`, when the statement runs. -/
def updatePingInQueue (ping : Ping) (queue : Queue) : Queue :=
  queue.update ping.url (fun r => { r with
      inflight := false, createdon := ping.time, reason := ping.reason, medium := ping.medium })
    fun _ => rfl

/-- `add_ping_to_queue`. -/
def addPingToQueue (disk : Disk) (ping : Ping) (queue : Queue) : Except HydraError Bool × Queue :=
  match if disk.inserts then queue.insert? ping.row else none with
  | some queue => (.ok true, queue)
  | none =>
    match ping.reason with
    | .live | .liveEnd =>
      if disk.updates then (.ok true, updatePingInQueue ping queue)
      else (.error (.updatingPingFailed ping), queue)
    | .update => (.error (.urlAlreadyInQueue ping.url), queue)

/-- `set_ping_as_inflight`, when the statement runs. -/
def setPingAsInflight (ping : Ping) (queue : Queue) : Queue :=
  queue.update ping.url (fun r => { r with inflight := true }) fun _ => rfl

/-- The urls of the first 25 rows that have been in flight for more than 180 seconds. -/
def overdue (queue : Queue) (now : ℕ) : List String :=
  ((queue.rows.filter fun r => r.inflight && r.createdon + 180 < now).take 25).map Row.url

/-- `reset_pings_in_flight` at time `now`, when the statement runs. -/
def resetPingsInFlight (queue : Queue) (now : ℕ) : Queue :=
  queue.map (fun r =>
      if r.url ∈ overdue queue now then { r with inflight := false, createdon := now } else r)
    fun r => by split_ifs <;> rfl

/-- `delete_ping_from_queue`, when the statement runs. -/
def deletePingFromQueue (url : String) (queue : Queue) : Queue := queue.delete url

/-! ### What the statements do -/

/-- A fetched ping is the content of a row that is not in flight. -/
theorem mem_getPingsFromQueue {queue : Queue} {now : ℕ} {ping : Ping}
    (h : ping ∈ getPingsFromQueue false queue now) :
    ∃ row, queue.find? ping.url = some row ∧ row.inflight = false ∧ row.ping = ping := by
  obtain ⟨row, hrow, rfl⟩ := List.mem_map.1 h
  have hmem := (List.mem_insertionSort _).1 (List.mem_of_mem_take hrow)
  obtain ⟨hrow, hp⟩ := List.mem_filter.1 hmem
  refine ⟨row, Table.find?_eq_some.2 ⟨hrow, rfl⟩, ?_, rfl⟩
  simp only [Bool.false_or, Bool.and_eq_true, Bool.not_eq_true'] at hp
  exact hp.1

/-- It has waited for more than 15 seconds. -/
theorem time_of_mem_getPingsFromQueue {withInFlight : Bool} {queue : Queue} {now : ℕ} {ping : Ping}
    (h : ping ∈ getPingsFromQueue withInFlight queue now) : ping.time + 15 < now := by
  obtain ⟨row, hrow, rfl⟩ := List.mem_map.1 h
  have hmem := (List.mem_insertionSort _).1 (List.mem_of_mem_take hrow)
  obtain ⟨-, hp⟩ := List.mem_filter.1 hmem
  rw [Bool.and_eq_true, decide_eq_true_eq] at hp
  exact hp.2

/-- No url is fetched twice. -/
theorem nodup_getPingsFromQueue (withInFlight : Bool) (queue : Queue) (now : ℕ) :
    ((getPingsFromQueue withInFlight queue now).map Ping.url).Nodup := by
  rw [getPingsFromQueue, List.map_map]
  refine List.Nodup.sublist (List.take_sublist _ _ |>.map _) ?_
  refine ((List.perm_insertionSort _ _).map _).nodup_iff.2 ?_
  exact queue.nodup.sublist (List.filter_sublist.map _)

theorem find?_updatePingInQueue (ping : Ping) (queue : Queue) (url : String) :
    (updatePingInQueue ping queue).find? url =
      if url = ping.url then (queue.find? url).map fun _ => ping.row else queue.find? url := by
  rw [updatePingInQueue, Table.find?_update]
  split_ifs with h
  · refine Option.map_congr fun row hrow => ?_
    have hurl : row.url = ping.url := (Table.find?_eq_some.1 hrow).2.trans h
    simp only [Ping.row, hurl]
  · rfl

theorem find?_setPingAsInflight (ping : Ping) (queue : Queue) (url : String) :
    (setPingAsInflight ping queue).find? url =
      if url = ping.url then (queue.find? url).map fun r => { r with inflight := true }
      else queue.find? url :=
  Table.find?_update url

theorem find?_deletePingFromQueue (gone url : String) (queue : Queue) :
    (deletePingFromQueue gone queue).find? url =
      if url = gone then none else queue.find? url :=
  Table.find?_delete url

/-- The reset keeps what a row says, and takes rows out of flight only. -/
theorem find?_resetPingsInFlight (queue : Queue) (now : ℕ) (url : String) :
    (resetPingsInFlight queue now).find? url = queue.find? url ∨
      (resetPingsInFlight queue now).find? url =
        (queue.find? url).map fun r => { r with inflight := false, createdon := now } := by
  rw [resetPingsInFlight, Table.find?_map]
  cases hrow : queue.find? url with
  | none => exact .inl rfl
  | some row =>
    simp only [Option.map_some]
    split_ifs
    · exact .inr rfl
    · exact .inl rfl

/-- A row is put back when it is overdue, at the time of the reset. -/
theorem find?_resetPingsInFlight_eq_some {queue : Queue} {now : ℕ} {url : String} {row : Row}
    (h : (resetPingsInFlight queue now).find? url = some row) :
    queue.find? url = some row ∨ url ∈ overdue queue now ∧ row.createdon = now := by
  rw [resetPingsInFlight, Table.find?_map] at h
  obtain ⟨old, hold, rfl⟩ := Option.map_eq_some_iff.1 h
  split_ifs with hdue
  · rw [(Table.find?_eq_some.1 hold).2] at hdue
    exact .inr ⟨hdue, rfl⟩
  · exact .inl hold

/-- A ping that the database lets in, and that is not what its row says already. -/
def Takes (disk : Disk) (ping : Ping) (queue : Queue) : Prop :=
  match queue.find? ping.url with
  | none => disk.inserts
  | some row => ping.reason ≠ .update ∧ disk.updates ∧ row ≠ ping.row

theorem updatePingInQueue_ne_iff {ping : Ping} {queue : Queue} :
    updatePingInQueue ping queue ≠ queue ↔ ∃ row, queue.find? ping.url = some row ∧ row ≠ ping.row := by
  rw [updatePingInQueue, ne_eq, Table.update_eq_self_iff, not_forall]
  refine exists_congr fun row => ?_
  rw [Classical.not_imp]
  refine and_congr_right fun hrow => not_congr ?_
  have hurl : row.url = ping.url := (Table.find?_eq_some.1 hrow).2
  rw [eq_comm, Ping.row, ← hurl]

/-- **When a ping changes the queue.** -/
theorem addPingToQueue_changes_iff {disk : Disk} {ping : Ping} {queue : Queue} :
    (addPingToQueue disk ping queue).2 ≠ queue ↔ Takes disk ping queue := by
  unfold addPingToQueue Takes
  cases hrow : queue.find? ping.url with
  | none =>
    obtain ⟨queue', hqueue'⟩ : ∃ queue', queue.insert? ping.row = some queue' := by
      rw [← Option.ne_none_iff_exists', ne_eq, Table.insert?_eq_none]
      rintro ⟨row, h⟩
      cases hrow.symm.trans h
    have hne : queue' ≠ queue := by
      rintro rfl
      simpa using congrArg List.length (Table.rows_insert? hqueue')
    have hupdate : updatePingInQueue ping queue = queue := by
      by_contra h
      obtain ⟨row, h, -⟩ := updatePingInQueue_ne_iff.1 h
      cases hrow.symm.trans h
    cases hi : disk.inserts
    · cases ping.reason <;> cases disk.updates <;> simp [hupdate]
    · simp [hqueue', hne]
  | some row =>
    have hconflict : queue.insert? ping.row = none := Table.insert?_eq_none.2 ⟨row, hrow⟩
    have hupdate : updatePingInQueue ping queue ≠ queue ↔ row ≠ ping.row := by
      rw [updatePingInQueue_ne_iff]
      exact ⟨fun ⟨row', h, hne⟩ => Option.some.inj (hrow.symm.trans h) ▸ hne,
        fun h => ⟨row, hrow, h⟩⟩
    rw [hconflict, ite_self]
    cases ping.reason <;> cases disk.updates <;> simp [hupdate]

end PodpingAlpha.FrontEnd
