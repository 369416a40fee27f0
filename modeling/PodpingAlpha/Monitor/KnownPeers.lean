import PodpingAlpha.Library.Lines
import PodpingAlpha.Library.Transition
import PodpingAlpha.Monitor.Swarm
import Mathlib.Data.Finset.Basic

/-!
# The monitor's known peers

The receive task of `gossip-monitor/src/main.rs`, and `save_peer_if_new`, which keeps the nodes it hears
of in a text file, one a line. The file is read back at each call, and what a node calls itself in its
announces is any string.

## The model

* `savePeerIfNew` — the file after a call.
* `receive` — the task on an event. `serde_json` is a parameter, and writes succeed.
* `watchAdded` — an observer, who notes the peers that are added.

## What is proved

* `entries_savePeerIfNew` — what a call does, if the id is an entry of such a file.
* `kept_iff` — the file keeps the last of the peers that were added exactly when all ids but the
  monitor's own are entries.
* `own_id_padded` — the monitor's own id with a blank in front.
-/

namespace PodpingAlpha.Monitor

open Text Transition

variable {F : Type}

/-! ### The task -/

def maxKnownPeers : ℕ := 15

/-- `save_peer_if_new`. -/
def savePeerIfNew (file : Option String) (nodeId myNodeId : String) : Option String :=
  if nodeId = myNodeId then file
  else
    let peers := entries (file.getD "")
    if nodeId ∈ peers then file
    else
      let peers := peers ++ [nodeId]
      let peers := if peers.length > maxKnownPeers then peers.drop (peers.length - maxKnownPeers)
        else peers
      some (print peers)

/-- What the task is given. -/
structure TaskEnv (F : Type) where
  /-- `serde_json::from_slice`. -/
  parsePeerAnnounce : Bytes → Option (Swarm.PeerAnnounce F)
  /-- `my_node_id_str`. -/
  myNodeId : String

/-- What the task shares with the rest of the monitor. -/
structure Task (F : Type) where
  /-- `unique_sources`. -/
  uniqueSources : Finset String
  /-- `registry`. -/
  registry : Swarm.Registry F
  /-- `last_notification_time`. -/
  lastNotificationTime : UInt64
  /-- `notifications_received`. -/
  notificationsReceived : UInt64
  /-- `neighbor_count`. -/
  neighborCount : UInt32
  /-- `neighbor_ids`. -/
  neighborIds : Finset String
  /-- `peers_file`, if there is one. -/
  peersFile : Option String

/-- The monitor starts without the file. -/
def Task.start (now : UInt64) : Task F := ⟨∅, .new, now, 0, 0, ∅, none⟩

/-- An event of the topic. -/
inductive TaskEvent
  /-- `Event::Received`, and what the clock then says, first to the registry. -/
  | received (content : Bytes) (deliveredFrom : String) (updated now : UInt64)
  /-- `Event::NeighborUp`. -/
  | neighborUp (nodeId : String)
  /-- `Event::NeighborDown`. -/
  | neighborDown (nodeId : String)
  /-- `Event::Lagged`. -/
  | lagged

/-- The body of the loop of `spawn_receive_task`. -/
def receive (env : TaskEnv F) (task : Task F) : TaskEvent → Task F
  | .received content deliveredFrom updated now =>
    let task := { task with uniqueSources := insert deliveredFrom task.uniqueSources }
    match env.parsePeerAnnounce content with
    | some announce =>
      if announce.msgType = "peer_announce" then
        { task with
          registry := task.registry.update updated announce
          lastNotificationTime := now
          notificationsReceived := task.notificationsReceived + 1
          peersFile := savePeerIfNew task.peersFile announce.nodeId env.myNodeId }
      else task
    | none => task
  | .neighborUp nodeId =>
    { task with
      neighborCount := task.neighborCount + 1
      neighborIds := insert nodeId task.neighborIds
      peersFile := savePeerIfNew task.peersFile nodeId env.myNodeId }
  | .neighborDown nodeId =>
    { task with
      neighborCount := task.neighborCount - 1
      neighborIds := task.neighborIds.erase nodeId }
  | .lagged => task

/-! ### A call -/

/-- The entries of the file. -/
def Task.peers (task : Task F) : List String := entries (task.peersFile.getD "")

/-- The id that an event passes to `save_peer_if_new`. -/
def TaskEvent.nodeId? (env : TaskEnv F) : TaskEvent → Option String
  | .received content _ _ _ => (env.parsePeerAnnounce content).bind fun announce =>
    if announce.msgType = "peer_announce" then some announce.nodeId else none
  | .neighborUp nodeId => some nodeId
  | _ => none

/-- The peer that an event adds: another than the monitor, and not in the file. -/
def added? (env : TaskEnv F) (task : Task F) (ev : TaskEvent) : Option String :=
  (ev.nodeId? env).filter fun nodeId => nodeId ≠ env.myNodeId ∧ nodeId ∉ task.peers

/-- A list that is cut to its last items. -/
theorem drop_eq_rtake (n : ℕ) (l : List String) :
    (if l.length > n then l.drop (l.length - n) else l) = l.rtake n := by
  split_ifs with h
  · rfl
  · exact (Deque.rtake_of_length_le (not_lt.1 h)).symm

/-- What a call writes. -/
theorem savePeerIfNew_eq (file : Option String) (nodeId myNodeId : String) :
    savePeerIfNew file nodeId myNodeId =
      if nodeId ≠ myNodeId ∧ nodeId ∉ entries (file.getD "") then
        some (print ((entries (file.getD "") ++ [nodeId]).rtake maxKnownPeers))
      else file := by
  unfold savePeerIfNew
  simp only [drop_eq_rtake]
  split_ifs <;> simp_all

theorem peersFile_receive (env : TaskEnv F) (task : Task F) (ev : TaskEvent) :
    (receive env task ev).peersFile = (added? env task ev).elim task.peersFile fun nodeId =>
      some (print ((task.peers ++ [nodeId]).rtake maxKnownPeers)) := by
  have hcall : (receive env task ev).peersFile = (ev.nodeId? env).elim task.peersFile fun nodeId =>
      savePeerIfNew task.peersFile nodeId env.myNodeId := by
    cases ev with
    | received content deliveredFrom updated now =>
      rw [receive, TaskEvent.nodeId?]
      cases env.parsePeerAnnounce content with
      | none => rfl
      | some announce =>
        rw [Option.bind_some]
        dsimp only
        split_ifs <;> rfl
    | _ => rfl
  rw [hcall, added?]
  cases ev.nodeId? env with
  | none => rfl
  | some nodeId =>
    rw [Option.elim_some, savePeerIfNew_eq, Option.filter_some, Task.peers]
    split_ifs <;> simp_all

/-- The peers that are then read back, if the id is an entry. -/
theorem peers_receive {env : TaskEnv F} {task : Task F} {ev : TaskEvent}
    (h : ∀ nodeId ∈ added? env task ev, Entry nodeId) : (receive env task ev).peers =
      (added? env task ev).elim task.peers fun nodeId =>
        (task.peers ++ [nodeId]).rtake maxKnownPeers := by
  rw [Task.peers, peersFile_receive]
  cases hadded : added? env task ev with
  | none => rfl
  | some nodeId =>
    rw [Option.elim_some, Option.elim_some, Option.getD_some]
    refine entries_print fun e he => ?_
    rcases List.mem_append.1 (List.mem_of_mem_drop he) with he | he
    · exact entry_of_mem he
    · rw [List.mem_singleton.1 he]
      exact h nodeId hadded

/-! ### Runs -/

/-- The task as a system. -/
def taskStep (env : TaskEnv F) (task : Task F) (ev : TaskEvent) : Option (Task F) :=
  some (receive env task ev)

/-- An observer, who notes the peers that are added. -/
def watchAdded (env : TaskEnv F) (added : List String) (task : Task F) (ev : TaskEvent)
    (_ : Task F) : List String := added ++ (added? env task ev).toList

/-- The file has the last of the peers that were added. -/
structure Kept (env : TaskEnv F) (q : Task F × List String) : Prop where
  /-- It is bounded. -/
  length_le : q.1.peers.length ≤ maxKnownPeers
  /-- No peer is in it twice. -/
  nodup : q.1.peers.Nodup
  /-- Nor is the monitor. -/
  own : env.myNodeId ∉ q.1.peers
  /-- The last one is the one that was added last. -/
  latest : q.1.peers.getLast? = q.2.getLast?
  /-- The oldest are those that are missing. -/
  recent : q.1.peers = q.2.rtake maxKnownPeers

variable {env : TaskEnv F} {p q : Task F × List String} {ev : TaskEvent}

theorem getLast?_rtake (l : List String) : (l.rtake maxKnownPeers).getLast? = l.getLast? := by
  rcases List.eq_nil_or_concat' l with rfl | ⟨l, a, rfl⟩
  · rfl
  · rw [maxKnownPeers, List.rtake_concat_succ, List.getLast?_concat, List.getLast?_concat]

/-- What is bounded and latest follows from what is in the file. -/
theorem Kept.of_recent (hrecent : p.1.peers = p.2.rtake maxKnownPeers) (hnodup : p.1.peers.Nodup)
    (hown : env.myNodeId ∉ p.1.peers) : Kept env p := by
  refine ⟨?_, hnodup, hown, ?_, hrecent⟩
  · rw [hrecent, Deque.length_rtake]
    exact Nat.min_le_left _ _
  · rw [hrecent, getLast?_rtake]

theorem Kept.start (env : TaskEnv F) (now : UInt64) : Kept env (Task.start now, []) :=
  .of_recent rfl List.nodup_nil List.not_mem_nil

theorem added?_eq_some {task : Task F} {nodeId : String} : added? env task ev = some nodeId ↔
    ev.nodeId? env = some nodeId ∧ nodeId ≠ env.myNodeId ∧ nodeId ∉ task.peers := by
  rw [added?, Option.filter_eq_some_iff, decide_eq_true_eq]

/-- An entry that is added. -/
theorem Kept.concat (h : Kept env p) {nodeId : String} (hown : nodeId ≠ env.myNodeId)
    (hnew : nodeId ∉ p.1.peers) {task : Task F}
    (hpeers : task.peers = (p.1.peers ++ [nodeId]).rtake maxKnownPeers) :
    Kept env (task, p.2 ++ [nodeId]) := by
  have hsublist : task.peers.Sublist (p.1.peers ++ [nodeId]) := by
    rw [hpeers]
    exact List.drop_sublist _ _
  apply Kept.of_recent
  · rw [hpeers, h.recent, Deque.rtake_rtake_concat]
  · refine List.Nodup.sublist hsublist ?_
    rw [← List.concat_eq_append]
    exact h.nodup.concat hnew
  · intro hmem
    rcases List.mem_append.1 (hsublist.subset hmem) with hmem | hmem
    · exact h.own hmem
    · exact hown (List.mem_singleton.1 hmem).symm

/-- **A call keeps the file** exactly when the peer that it adds, if any, is an entry. -/
theorem Kept.receive_iff (h : Kept env p) :
    Kept env (receive env p.1 ev, watchAdded env p.2 p.1 ev (receive env p.1 ev)) ↔
      ∀ nodeId ∈ added? env p.1 ev, Entry nodeId := by
  constructor
  · intro hkept nodeId hadded
    have hrecent := hkept.recent
    have hlog : watchAdded env p.2 p.1 ev (receive env p.1 ev) = p.2 ++ [nodeId] := by
      rw [watchAdded, hadded]
      rfl
    have hmem : nodeId ∈ (receive env p.1 ev).peers := by
      rw [hrecent, hlog, maxKnownPeers, List.rtake_concat_succ]
      exact List.mem_append_right _ (List.mem_singleton_self nodeId)
    exact entry_of_mem hmem
  · intro hentry
    have hpeers := peers_receive hentry
    rw [watchAdded]
    cases hadded : added? env p.1 ev with
    | none =>
      rw [hadded, Option.elim_none] at hpeers
      rw [Option.toList_none, List.append_nil]
      apply Kept.of_recent
      · rw [hpeers, h.recent]
      · rw [hpeers]
        exact h.nodup
      · rw [hpeers]
        exact h.own
    | some nodeId =>
      rw [hadded, Option.elim_some] at hpeers
      obtain ⟨-, hown, hnew⟩ := added?_eq_some.1 hadded
      exact h.concat hown hnew hpeers

/-- What is in the file is an entry, so that it makes no difference whether an id is. -/
theorem entry_added_iff : (∀ nodeId ∈ added? env p.1 ev, Entry nodeId) ↔
    ∀ nodeId ∈ ev.nodeId? env, nodeId ≠ env.myNodeId → Entry nodeId := by
  constructor
  · intro h nodeId hid hown
    by_cases hmem : nodeId ∈ p.1.peers
    · exact entry_of_mem hmem
    · exact h nodeId (added?_eq_some.2 ⟨hid, hown, hmem⟩)
  · intro h nodeId hadded
    obtain ⟨hid, hown, -⟩ := added?_eq_some.1 hadded
    exact h nodeId hid hown

/-- **The known-peers file**: from a start without the file, whatever the events, it has after each of
them at most so many entries, none twice, not the monitor itself, and of the peers that were added the
last ones in order, if and only if every id but the monitor's own is an entry, not empty, without white
space around it and of one line. -/
theorem kept_iff (env : TaskEnv F) (now : UInt64) (evs : List TaskEvent) :
    (∀ pre q, pre <+: evs →
        run (observed (taskStep env) (watchAdded env)) (Task.start now, []) pre = some q → Kept env q) ↔
      ∀ ev ∈ evs, ∀ nodeId ∈ ev.nodeId? env, nodeId ≠ env.myNodeId → Entry nodeId := by
  have htotal : ∀ (q : Task F × List String) ev,
      ∃ q', observed (taskStep env) (watchAdded env) q ev = some q' := fun q ev => ⟨_, rfl⟩
  obtain ⟨q, hq⟩ := exists_run htotal (Task.start now, []) evs
  rw [← along_label_iff htotal (s := (Task.start now, []))]
  refine always_iff_along (I := fun _ => True) (A := fun _ => True) (fun _ _ _ _ _ _ => trivial) ?_
    trivial (Kept.start env now) (fun _ _ => trivial) hq
  intro p ev q _ hkept _ hstep
  cases hstep
  exact hkept.receive_iff.trans entry_added_iff

/-! ### The monitor's own id with a blank in front -/

/-- An announce of a node that calls itself `nodeId`. -/
def plainAnnounce (nodeId : String) : Swarm.PeerAnnounce Unit where
  msgType := "peer_announce"
  nodeId := nodeId
  version := "1.0"

/-- The monitor itself is then in the file. -/
theorem own_id_padded :
    let env : TaskEnv Unit :=
      ⟨fun content => if content = [1] then some (plainAnnounce " me") else none, "me"⟩
    ¬∀ pre q, pre <+: [TaskEvent.received [1] "peer" 7 7] →
      run (observed (taskStep env) (watchAdded env)) (Task.start 7, []) pre = some q → Kept env q := by
  intro env h
  have hkept := h _ _ (List.prefix_refl _) rfl
  have hentries : entries (print [" me"]) = ["me"] := by decide
  refine hkept.own ?_
  show "me" ∈ entries (print [" me"])
  rw [hentries]
  exact List.mem_singleton_self "me"

end PodpingAlpha.Monitor
