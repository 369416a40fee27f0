import PodpingAlpha.Library.Greedy
import PodpingAlpha.Writer.Notification
import Mathlib.Data.List.Dedup

/-!
# Flushing a batch

`split_iris_to_fit` and `flush_batch` of `gossip-writer/src/main.rs`: the pending pings are grouped
by medium and reason, each group is cut into notifications that fit a gossip message, each of these
is handed to the broadcast task, and the front-end gets its replies.

## The model

The channel and the clock are functions of the number of the call, and the order in which the map
of groups is visited is any. The channel refuses a payload when it is full or when the broadcast
task is gone. A reply is one for which `send_zmq_reply` is called.

## What is proved

* `mem_flushGroups_sends` — every pending ping is in a notification of its medium and reason that was
  handed to the channel.
* `replies_queued` — what a reply means when the channel is not closed in the middle of the batch:
  the notification was accepted, or deliberately dropped because the channel was full.
* `full_channel_replied` — the latter.
-/

namespace PodpingAlpha.Writer

/-! ### Pings -/

/-- A ping waiting to be batched, with the values of its two enumerations. -/
structure PendingPing where
  /-- The feed. -/
  iri : String
  /-- A `PodpingMedium`. -/
  mediumRaw : Fin 19
  /-- A `PodpingReason`. -/
  reasonRaw : Fin 3
  deriving DecidableEq

/-- `medium_str`. -/
def PendingPing.mediumStr (p : PendingPing) : String := mediumToString p.mediumRaw

/-- `reason_str`. -/
def PendingPing.reasonStr (p : PendingPing) : String := reasonToString p.reasonRaw

/-- The group of a ping. -/
def PendingPing.group (p : PendingPing) : String × String := (p.mediumStr, p.reasonStr)

/-- What `tx.try_send` returns. -/
inductive TrySend where
  | ok
  | full
  | closed
  deriving DecidableEq

/-- The world around one call of `flush_batch`. -/
structure Env where
  /-- The key of the node. -/
  signingKey : SigningKey
  /-- The payloads go to an archive. -/
  archive : Bool
  /-- What the clock says at its `k`-th reading, in seconds. -/
  clock : ℕ → UInt64
  /-- What the channel answers to the `k`-th payload. -/
  trySend : ℕ → TrySend
  /-- The order in which the map visits its keys. -/
  visit : List (String × String) → List (String × String)
  /-- It visits all of them. -/
  visit_perm : ∀ keys, (visit keys).Perm keys

/-- A payload handed to the channel. -/
structure Send where
  /-- The medium of the notification. -/
  mediumStr : String
  /-- Its reason. -/
  reasonStr : String
  /-- Its feeds. -/
  iris : List String
  /-- The signed notification. -/
  payload : Bytes
  /-- What the channel answered. -/
  outcome : TrySend
  deriving DecidableEq

/-- What `send_zmq_reply` is called with. -/
structure Reply where
  /-- The feed. -/
  iri : String
  /-- Its medium. -/
  medium : Fin 19
  /-- Its reason. -/
  reason : Fin 3
  deriving DecidableEq

/-- The state of `flush_batch`. -/
structure Flush where
  /-- `seq_counter`. -/
  seqCounter : UInt64
  /-- The readings of the clock so far. -/
  readings : ℕ
  /-- The payloads handed to the archive, oldest first. -/
  archived : List Bytes
  /-- The payloads handed to the channel, oldest first. -/
  sends : List Send
  /-- `broadcast_ok`. -/
  broadcastOk : Bool

/-! ### The functions -/

/-- `MAX_GOSSIP_PAYLOAD`. -/
def maxGossipPayload : ℕ := 60000

/-- The feeds, in a notification without `seq` built at the `k`-th reading of the clock, fit. -/
def fits (env : Env) (mediumStr reasonStr : String) (k : ℕ) (iris : List String) : Bool :=
  let notif := GossipNotification.new env.signingKey.pubkeyHex mediumStr reasonStr iris none (env.clock k)
  (notif.signedPayload env.signingKey).length ≤ maxGossipPayload

/-- `split_iris_to_fit`, from the `k`-th reading of the clock on. -/
def splitIrisToFit (env : Env) (mediumStr reasonStr : String) (k : ℕ) (iris : List String) :
    List (List String) :=
  if fits env mediumStr reasonStr k iris then [iris]
  else Greedy.chunks (fits env mediumStr reasonStr) (k + 1) [] iris

/-- The readings of the clock that `split_iris_to_fit` makes. -/
def splitReadings (env : Env) (mediumStr reasonStr : String) (k : ℕ) (iris : List String) : ℕ :=
  if fits env mediumStr reasonStr k iris then 1 else 1 + iris.length

/-- One chunk, signed and handed to the channel. -/
def Flush.send (env : Env) (key : String × String) (st : Flush) (chunkIris : List String) : Send :=
  let notif := GossipNotification.new env.signingKey.pubkeyHex key.1 key.2 chunkIris
    (some st.seqCounter) (env.clock st.readings)
  { mediumStr := key.1, reasonStr := key.2, iris := chunkIris
    payload := notif.signedPayload env.signingKey, outcome := env.trySend st.sends.length }

/-- The body of the loop over the chunks of a group. -/
def Flush.chunk (env : Env) (key : String × String) (st : Flush) (chunkIris : List String) : Flush :=
  let sent := st.send env key chunkIris
  { seqCounter := st.seqCounter + 1
    readings := st.readings + 1
    archived := if env.archive then st.archived ++ [sent.payload] else st.archived
    sends := st.sends ++ [sent]
    -- a full channel counts as well: the batch is dropped, and acknowledged
    broadcastOk :=
      match sent.outcome with
      | .ok | .full => true
      | .closed => st.broadcastOk }

/-- One group of the map. -/
def Flush.group (env : Env) (pending : List PendingPing) (st : Flush) (key : String × String) :
    Flush :=
  let iris := (pending.filter fun p => p.group = key).map PendingPing.iri
  let chunks := splitIrisToFit env key.1 key.2 st.readings iris
  chunks.foldl (Flush.chunk env key)
    { st with readings := st.readings + splitReadings env key.1 key.2 st.readings iris }

/-- The loop over the groups. -/
def flushGroups (env : Env) (seqCounter : UInt64) (pending : List PendingPing) : Flush :=
  (env.visit (pending.map PendingPing.group).dedup).foldl (Flush.group env pending)
    { seqCounter := seqCounter, readings := 0, archived := [], sends := [], broadcastOk := false }

/-- The reply for a ping. -/
def PendingPing.reply (p : PendingPing) : Reply where
  iri := p.iri
  medium := p.mediumRaw
  reason := p.reasonRaw

/-- `flush_batch`: what it did to the channel and the counter, and the replies. It leaves no ping
pending. -/
def flushBatch (env : Env) (seqCounter : UInt64) (pending : List PendingPing) : Flush × List Reply :=
  let st := flushGroups env seqCounter pending
  (st, if st.broadcastOk then pending.map PendingPing.reply else [])

/-! ### What is handed to the channel -/

/-- The notification is of the medium and reason of the ping, and has its feed. -/
def Send.Holds (s : Send) (p : PendingPing) : Prop := (s.mediumStr, s.reasonStr) = p.group ∧ p.iri ∈ s.iris

/-- The chunks hold the feeds of the group, in order. -/
theorem flatten_splitIrisToFit (env : Env) (mediumStr reasonStr : String) (k : ℕ)
    (iris : List String) : (splitIrisToFit env mediumStr reasonStr k iris).flatten = iris := by
  rw [splitIrisToFit]
  split_ifs
  · exact List.flatten_singleton
  · rw [Greedy.flatten_chunks, List.nil_append]

/-- The chunks of one group are handed over one by one. -/
theorem sends_chunks (env : Env) (key : String × String) (chunks : List (List String)) (st : Flush) :
    ∃ new, (chunks.foldl (Flush.chunk env key) st).sends = st.sends ++ new ∧
      new.map Send.iris = chunks ∧ ∀ s ∈ new, (s.mediumStr, s.reasonStr) = key := by
  induction chunks generalizing st with
  | nil => exact ⟨[], (List.append_nil _).symm, rfl, nofun⟩
  | cons chunk chunks ih =>
    obtain ⟨new, hsends, hiris, hkey⟩ := ih (st.chunk env key chunk)
    refine ⟨st.send env key chunk :: new, ?_, ?_, List.forall_mem_cons.2 ⟨rfl, hkey⟩⟩
    · rw [List.foldl_cons, hsends, Flush.chunk, List.append_assoc, List.singleton_append]
    · rw [List.map_cons, hiris]
      rfl

/-- The chunks of a group, and each of its pings in one of them. -/
theorem sends_group (env : Env) (pending : List PendingPing) (st : Flush) (key : String × String) :
    ∃ new, (st.group env pending key).sends = st.sends ++ new ∧
      new.map Send.iris = splitIrisToFit env key.1 key.2 st.readings
        ((pending.filter fun p => p.group = key).map PendingPing.iri) ∧
      ∀ p ∈ pending, p.group = key → ∃ s ∈ new, s.Holds p := by
  rw [Flush.group]
  generalize hall : (pending.filter fun p => p.group = key).map PendingPing.iri = iris
  obtain ⟨new, hsends, hiris, hkey⟩ := sends_chunks env key
    (splitIrisToFit env key.1 key.2 st.readings iris)
    { st with readings := st.readings + splitReadings env key.1 key.2 st.readings iris }
  refine ⟨new, hsends, hiris, fun p hp hgroup => ?_⟩
  have hiri : p.iri ∈ (new.map Send.iris).flatten := by
    rw [hiris, flatten_splitIrisToFit, ← hall]
    exact List.mem_map_of_mem (List.mem_filter.2 ⟨hp, by simpa using hgroup⟩)
  obtain ⟨_, hmem, hin⟩ := List.mem_flatten.1 hiri
  obtain ⟨s, hs, rfl⟩ := List.mem_map.1 hmem
  exact ⟨s, hs, (hkey s hs).trans hgroup.symm, hin⟩

theorem sends_groups (env : Env) (pending : List PendingPing) (keys : List (String × String))
    (st : Flush) :
    ∃ new, (keys.foldl (Flush.group env pending) st).sends = st.sends ++ new ∧
      ∀ p ∈ pending, p.group ∈ keys → ∃ s ∈ new, s.Holds p := by
  induction keys generalizing st with
  | nil => exact ⟨[], (List.append_nil _).symm, nofun⟩
  | cons key keys ih =>
    obtain ⟨new, hsends, -, hnew⟩ := sends_group env pending st key
    obtain ⟨new', hsends', hnew'⟩ := ih (st.group env pending key)
    refine ⟨new ++ new', ?_, fun p hp hgroup => ?_⟩
    · rw [List.foldl_cons, hsends', hsends, List.append_assoc]
    · rcases List.mem_cons.1 hgroup with hkey | hkeys
      · obtain ⟨s, hs, hholds⟩ := hnew p hp hkey
        exact ⟨s, List.mem_append_left _ hs, hholds⟩
      · obtain ⟨s, hs, hholds⟩ := hnew' p hp hkeys
        exact ⟨s, List.mem_append_right _ hs, hholds⟩

/-- **Nothing is left out**: every pending ping is in a notification handed to the channel. -/
theorem mem_flushGroups_sends (env : Env) (seqCounter : UInt64) {pending : List PendingPing}
    {p : PendingPing} (hp : p ∈ pending) :
    ∃ s ∈ (flushGroups env seqCounter pending).sends, s.Holds p := by
  obtain ⟨new, hsends, hnew⟩ := sends_groups env pending
    (env.visit (pending.map PendingPing.group).dedup)
    { seqCounter := seqCounter, readings := 0, archived := [], sends := [], broadcastOk := false }
  rw [flushGroups, hsends, List.nil_append]
  refine hnew p hp ((env.visit_perm _).mem_iff.2 (List.mem_dedup.2 ?_))
  exact List.mem_map_of_mem hp

/-- One feed makes one chunk. -/
theorem splitIrisToFit_singleton (env : Env) (mediumStr reasonStr : String) (k : ℕ) (iri : String) :
    splitIrisToFit env mediumStr reasonStr k [iri] = [[iri]] := by
  rw [splitIrisToFit]
  split_ifs
  · rfl
  · simp [Greedy.chunks]

/-- One ping makes one notification. -/
theorem sends_singleton (env : Env) (seqCounter : UInt64) (p : PendingPing) :
    ∃ n, (flushGroups env seqCounter [p]).sends = [n] ∧ n.Holds p := by
  have hvisit : env.visit ([p].map PendingPing.group).dedup = [p.group] :=
    List.perm_singleton.1 (env.visit_perm _)
  have hfilter : ([p].filter fun q => q.group = p.group).map PendingPing.iri = [p.iri] := by simp
  obtain ⟨new, hsends, hiris, hnew⟩ := sends_group env [p]
    { seqCounter := seqCounter, readings := 0, archived := [], sends := [], broadcastOk := false } p.group
  rw [hfilter, splitIrisToFit_singleton] at hiris
  obtain ⟨n, rfl⟩ : ∃ n, new = [n] := List.length_eq_one_iff.1 (by
    rw [← List.length_map (f := Send.iris), hiris, List.length_singleton])
  obtain ⟨m, hm, hholds⟩ := hnew p (List.mem_singleton.2 rfl) rfl
  refine ⟨n, ?_, List.mem_singleton.1 hm ▸ hholds⟩
  rw [flushGroups, hvisit, List.foldl_cons, List.foldl_nil, hsends, List.nil_append]

/-- The rule for the two loops: what holds at the start, whatever the clock says, and is kept by the
body of the inner loop holds at the end. -/
theorem flushGroups_induction {env : Env} {P : Flush → Prop}
    (hinit : ∀ seqCounter, P
      { seqCounter := seqCounter, readings := 0, archived := [], sends := [], broadcastOk := false })
    (hclock : ∀ st k, P st → P { st with readings := k })
    (hchunk : ∀ key st chunkIris, P st → P (st.chunk env key chunkIris)) (seqCounter : UInt64)
    (pending : List PendingPing) : P (flushGroups env seqCounter pending) := by
  rw [flushGroups]
  refine List.foldlRecOn _ _ (hinit seqCounter) fun st h key _ => ?_
  rw [Flush.group]
  exact List.foldlRecOn _ _ (hclock st _ h) fun st' h' chunk _ => hchunk key st' chunk h'

/-! ### The flag -/

/-- The flag says that some payload was accepted or refused by a full channel. -/
def Flagged (st : Flush) : Prop := st.broadcastOk ↔ ∃ s ∈ st.sends, s.outcome ≠ .closed

theorem Flagged.chunk {env : Env} {key : String × String} {st : Flush} (h : Flagged st)
    (chunkIris : List String) : Flagged (st.chunk env key chunkIris) := by
  unfold Flagged Flush.chunk at *
  simp only [List.mem_append, List.mem_singleton, or_and_right, exists_or, exists_eq_left, ← h]
  cases (st.send env key chunkIris).outcome <;> simp

theorem flagged_flushGroups (env : Env) (seqCounter : UInt64) (pending : List PendingPing) :
    Flagged (flushGroups env seqCounter pending) := by
  refine flushGroups_induction ?_ (fun _ _ h => h) (fun _ _ chunk h => h.chunk chunk) seqCounter pending
  simp [Flagged]

/-- What the channel answered to each payload. -/
def Answered (env : Env) (st : Flush) : Prop :=
  ∀ s ∈ st.sends, ∃ k < st.sends.length, s.outcome = env.trySend k

theorem Answered.chunk {env : Env} {key : String × String} {st : Flush} (h : Answered env st)
    (chunkIris : List String) : Answered env (st.chunk env key chunkIris) := by
  have hlen : (st.chunk env key chunkIris).sends.length = st.sends.length + 1 := List.length_append
  intro s hs
  rw [hlen]
  rcases List.mem_append.1 hs with hs | hs
  · obtain ⟨k, hk, hout⟩ := h s hs
    exact ⟨k, Nat.lt_succ_of_lt hk, hout⟩
  · exact ⟨st.sends.length, Nat.lt_succ_self _, congrArg Send.outcome (List.mem_singleton.1 hs)⟩

theorem answered_flushGroups (env : Env) (seqCounter : UInt64) (pending : List PendingPing) :
    Answered env (flushGroups env seqCounter pending) :=
  flushGroups_induction (fun _ => nofun) (fun _ _ h => h) (fun _ _ chunk h => h.chunk chunk) seqCounter pending

/-- **What a reply means**: replies are sent only if some payload was accepted or refused by a full
channel; and where the channel answers to none of the payloads that it is closed, a ping that is replied
to is in a notification of its medium and reason, and each of these was accepted, or dropped because the
channel was full. -/
theorem replies_queued (env : Env) (seqCounter : UInt64) (pending : List PendingPing) :
    let (st, replies) := flushBatch env seqCounter pending
    (replies ≠ [] → ∃ s ∈ st.sends, s.outcome = .ok ∨ s.outcome = .full) ∧
      ((∀ k < st.sends.length, env.trySend k ≠ .closed) → ∀ p ∈ pending, p.reply ∈ replies →
        (∃ s ∈ st.sends, s.Holds p) ∧
          ∀ s ∈ st.sends, s.Holds p → s.outcome = .ok ∨ s.outcome = .full) := by
  have hok : ∀ o : TrySend, o ≠ .closed → o = .ok ∨ o = .full := by
    intro o ho
    cases o with
    | ok => exact .inl rfl
    | full => exact .inr rfl
    | closed => exact absurd rfl ho
  refine ⟨fun hreplies => ?_, fun hopen p hp _ => ⟨mem_flushGroups_sends env seqCounter hp, ?_⟩⟩
  · have hflag : (flushGroups env seqCounter pending).broadcastOk := by
      by_contra h
      exact hreplies (if_neg h)
    obtain ⟨s, hs, hout⟩ := (flagged_flushGroups env seqCounter pending).1 hflag
    exact ⟨s, hs, hok _ hout⟩
  · intro s hs _
    obtain ⟨k, hk, hout⟩ := answered_flushGroups env seqCounter pending s hs
    rw [hout]
    exact hok _ (hopen k hk)

/-- A full channel: the ping is in no accepted notification, and is replied to. -/
theorem full_channel_replied :
    let env : Env :=
      { signingKey := ⟨"00", fun _ => .replicate 64 0⟩, archive := false, clock := fun _ => 0
        trySend := fun _ => .full, visit := id, visit_perm := fun _ => .refl _ }
    let (st, replies) := flushBatch env 0 [⟨"http://a", 1, 0⟩]
    replies = [⟨"http://a", 1, 0⟩] ∧ ¬∃ s ∈ st.sends, s.Holds ⟨"http://a", 1, 0⟩ ∧ s.outcome = .ok := by
  intro env
  have hfull : ∀ s ∈ (flushGroups env 0 [⟨"http://a", 1, 0⟩]).sends, s.outcome = .full := by
    intro s hs
    obtain ⟨k, -, hk⟩ := answered_flushGroups env 0 _ s hs
    exact hk
  refine ⟨if_pos ?_, ?_⟩
  · obtain ⟨s, hs, -⟩ := mem_flushGroups_sends env 0 (List.mem_singleton.2 rfl)
    exact (flagged_flushGroups env 0 _).2 ⟨s, hs, by rw [hfull s hs]; decide⟩
  · rintro ⟨s, hs, -, hok⟩
    cases (hfull s hs).symm.trans hok

end PodpingAlpha.Writer
