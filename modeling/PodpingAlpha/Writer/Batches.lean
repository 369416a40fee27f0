import PodpingAlpha.Writer.FlushBatch
import Mathlib.Algebra.BigOperators.Group.List.Lemmas
import Mathlib.Algebra.Ring.Nat

/-!
# Batching loses, invents and reorders nothing

The notifications one call of `flush_batch` signs, against the pending pings: group by group they
hold the feeds of the group in order of arrival, none is empty or of a group that is not there, they
are numbered from the counter on, and a chunk is closed only where the next feed would not fit.

The notifications are ghost data: `Signed` ties them to the payloads of the calls so far.

* `flushBatch_lossless`.
-/

namespace PodpingAlpha.Writer

/-- The medium and reason of a notification. -/
def GossipNotification.group (n : GossipNotification) : String × String := (n.medium, n.reason)

/-- The feeds of the pings of a group, in order of arrival. -/
def irisOf (pending : List PendingPing) (key : String × String) : List String :=
  (pending.filter fun p => p.group = key).map PendingPing.iri

/-- The feeds of the notifications of a group, in order. -/
def feedsOf (notifs : List GossipNotification) (key : String × String) : List String :=
  ((notifs.filter fun n => n.group = key).map GossipNotification.iris).flatten

/-! ### Chunks -/

/-- No chunk is empty, unless there are no feeds at all. -/
theorem ne_nil_of_mem_splitIrisToFit {env : Env} {mediumStr reasonStr : String} {k : ℕ}
    {iris chunk : List String} (hne : iris ≠ [])
    (h : chunk ∈ splitIrisToFit env mediumStr reasonStr k iris) : chunk ≠ [] := by
  unfold splitIrisToFit at h
  split_ifs at h
  · obtain rfl := List.mem_singleton.1 h
    exact hne
  · exact Greedy.ne_nil_of_mem_chunks h

/-- A chunk is closed because the next feed would not fit. -/
theorem isChain_splitIrisToFit (env : Env) (mediumStr reasonStr : String) (k : ℕ)
    (iris : List String) : (splitIrisToFit env mediumStr reasonStr k iris).IsChain
      (Greedy.Full (fits env mediumStr reasonStr) k (k + splitReadings env mediumStr reasonStr k iris)) := by
  rw [splitIrisToFit, splitReadings]
  split_ifs
  · exact List.IsChain.singleton _
  · refine (Greedy.isChain_chunks _ (k + 1) [] iris).imp fun chunk next h => h.mono (Nat.le_succ k) ?_
    omega

/-- What does not fit is measured above the limit. -/
theorem fits_eq_false {env : Env} {mediumStr reasonStr : String} {k : ℕ} {iris : List String} :
    fits env mediumStr reasonStr k iris = false ↔ maxGossipPayload <
      ((GossipNotification.new env.signingKey.pubkeyHex mediumStr reasonStr iris none
        (env.clock k)).signedPayload env.signingKey).length := by
  simp [fits]

/-! ### The signed notifications -/

/-- These notifications were signed so far, and numbered from `seqCounter` on. -/
structure Signed (env : Env) (seqCounter : UInt64) (st : Flush)
    (notifs : List GossipNotification) : Prop where
  /-- Their signed bytes were handed to the channel. -/
  payloads : st.sends.map Send.payload = notifs.map (GossipNotification.signedPayload env.signingKey)
  /-- The counter goes on after the last. -/
  counter : st.seqCounter = seqCounter + UInt64.ofNat notifs.length
  /-- Their numbers. -/
  seqs : notifs.map GossipNotification.seq =
    (List.range notifs.length).map fun i => some (seqCounter + UInt64.ofNat i)

variable {env : Env} {seqCounter : UInt64} {st : Flush} {notifs : List GossipNotification}

/-- The notification of a chunk. -/
def Flush.notification (env : Env) (key : String × String) (st : Flush) (chunkIris : List String) :
    GossipNotification :=
  .new env.signingKey.pubkeyHex key.1 key.2 chunkIris (some st.seqCounter) (env.clock st.readings)

/-- A chunk is signed. -/
theorem Signed.chunk (h : Signed env seqCounter st notifs) (key : String × String)
    (chunkIris : List String) : Signed env seqCounter (st.chunk env key chunkIris)
      (notifs ++ [st.notification env key chunkIris]) where
  payloads := by
    show (st.sends ++ [_]).map Send.payload = _
    rw [List.map_append, List.map_append, h.payloads]
    rfl
  counter := by
    show st.seqCounter + 1 = _
    rw [h.counter, List.length_append, List.length_singleton, UInt64.ofNat_add, UInt64.add_assoc]
    rfl
  seqs := by
    have hseq : (st.notification env key chunkIris).seq =
        some (seqCounter + UInt64.ofNat notifs.length) := congrArg some h.counter
    rw [List.map_append, h.seqs, List.length_append, List.length_singleton, List.range_succ,
      List.map_append, List.map_singleton, List.map_singleton, hseq]

/-- The chunks of a group are signed one by one. -/
theorem Signed.chunks (h : Signed env seqCounter st notifs) (key : String × String)
    (chunks : List (List String)) :
    ∃ new, Signed env seqCounter (chunks.foldl (Flush.chunk env key) st) (notifs ++ new) ∧
      new.map GossipNotification.iris = chunks ∧ ∀ n ∈ new, n.group = key := by
  induction chunks generalizing st notifs with
  | nil => exact ⟨[], by rwa [List.append_nil], rfl, nofun⟩
  | cons chunk chunks ih =>
    obtain ⟨new, hnew, hiris, hkey⟩ := ih (h.chunk key chunk)
    refine ⟨st.notification env key chunk :: new, ?_, ?_, ?_⟩
    · rwa [List.append_assoc, List.singleton_append] at hnew
    · rw [List.map_cons, hiris]
      rfl
    · exact List.forall_mem_cons.2 ⟨rfl, hkey⟩

/-- The notifications of one group hold its feeds in order. -/
theorem feedsOf_of_group {new : List GossipNotification} {key : String × String}
    (h : ∀ n ∈ new, n.group = key) (key' : String × String) :
    feedsOf new key' = if key' = key then (new.map GossipNotification.iris).flatten else [] := by
  rw [feedsOf]
  split_ifs with hkey
  · have hall : new.filter (fun n => n.group = key') = new :=
      List.filter_eq_self.2 fun n hn => by simp [h n hn, hkey]
    rw [hall]
  · have hnone : new.filter (fun n => n.group = key') = [] :=
      List.filter_eq_nil_iff.2 fun n hn => by simpa [h n hn] using Ne.symm hkey
    rw [hnone]
    rfl

theorem feedsOf_append (l l' : List GossipNotification) (key : String × String) :
    feedsOf (l ++ l') key = feedsOf l key ++ feedsOf l' key := by
  simp [feedsOf]

/-- There are no more lists than items, if none is empty. -/
theorem length_le_length_flatten {α : Type} {ls : List (List α)} (h : ∀ l ∈ ls, l ≠ []) :
    ls.length ≤ ls.flatten.length := by
  induction ls with
  | nil => exact le_refl 0
  | cons l ls ih =>
    obtain ⟨hl, hls⟩ := List.forall_mem_cons.1 h
    have hpos := List.length_pos_of_ne_nil hl
    have := ih hls
    rw [List.flatten_cons, List.length_append, List.length_cons]
    omega

/-- The notifications of a group that occurs. -/
theorem Signed.group (h : Signed env seqCounter st notifs) {pending : List PendingPing}
    {key : String × String} (hkey : key ∈ pending.map PendingPing.group) :
    ∃ new, Signed env seqCounter (st.group env pending key) (notifs ++ new) ∧
      (∀ key', feedsOf new key' = if key' = key then irisOf pending key else []) ∧
      (∀ n ∈ new, n.iris ≠ [] ∧ n.group = key) ∧ new.length ≤ (irisOf pending key).length := by
  have hne : irisOf pending key ≠ [] := by
    obtain ⟨p, hp, rfl⟩ := List.mem_map.1 hkey
    refine List.ne_nil_of_mem (a := p.iri) (List.mem_map_of_mem ?_)
    exact List.mem_filter.2 ⟨hp, by simp⟩
  let readings := st.readings + splitReadings env key.1 key.2 st.readings (irisOf pending key)
  have hst : Signed env seqCounter { st with readings := readings } notifs :=
    ⟨h.payloads, h.counter, h.seqs⟩
  obtain ⟨new, hnew, hiris, hgroup⟩ :=
    hst.chunks key (splitIrisToFit env key.1 key.2 st.readings (irisOf pending key))
  refine ⟨new, hnew, fun key' => ?_, fun n hn => ⟨?_, hgroup n hn⟩, ?_⟩
  · rw [feedsOf_of_group hgroup, hiris, flatten_splitIrisToFit]
  · have hchunk : n.iris ∈ splitIrisToFit env key.1 key.2 st.readings (irisOf pending key) := by
      rw [← hiris]
      exact List.mem_map_of_mem hn
    exact ne_nil_of_mem_splitIrisToFit hne hchunk
  · have hlen : new.length = (new.map GossipNotification.iris).length := (List.length_map _).symm
    have hle := length_le_length_flatten fun (chunk : List String) (hchunk :
        chunk ∈ splitIrisToFit env key.1 key.2 st.readings (irisOf pending key)) =>
      ne_nil_of_mem_splitIrisToFit hne hchunk
    rw [flatten_splitIrisToFit] at hle
    rwa [hlen, hiris]

/-- The notifications of the groups that are visited, each once. -/
theorem Signed.groups (h : Signed env seqCounter st notifs) {pending : List PendingPing}
    {keys : List (String × String)} (hnodup : keys.Nodup)
    (hkeys : ∀ key ∈ keys, key ∈ pending.map PendingPing.group) :
    ∃ new, Signed env seqCounter (keys.foldl (Flush.group env pending) st) (notifs ++ new) ∧
      (∀ key, feedsOf new key = if key ∈ keys then irisOf pending key else []) ∧
      (∀ n ∈ new, n.iris ≠ [] ∧ n.group ∈ keys) ∧
      new.length ≤ (keys.map fun key => (irisOf pending key).length).sum := by
  induction keys generalizing st notifs with
  | nil => exact ⟨[], by rwa [List.append_nil], fun _ => rfl, nofun, le_refl 0⟩
  | cons key keys ih =>
    obtain ⟨hnot, hnodup⟩ := List.nodup_cons.1 hnodup
    obtain ⟨hkey, hkeys⟩ := List.forall_mem_cons.1 hkeys
    obtain ⟨new, hnew, hfeeds, hmem, hlen⟩ := h.group hkey
    obtain ⟨new', hnew', hfeeds', hmem', hlen'⟩ := ih hnew hnodup hkeys
    refine ⟨new ++ new', ?_, fun key' => ?_, fun n hn => ?_, ?_⟩
    · rw [List.foldl_cons, ← List.append_assoc]
      exact hnew'
    · rw [feedsOf_append, hfeeds, hfeeds']
      by_cases heq : key' = key
      · subst heq
        simp [hnot]
      · simp [heq]
    · rcases List.mem_append.1 hn with hn | hn
      · obtain ⟨hne, hgroup⟩ := hmem n hn
        exact ⟨hne, by simp [hgroup]⟩
      · obtain ⟨hne, hgroup⟩ := hmem' n hn
        exact ⟨hne, List.mem_cons_of_mem key hgroup⟩
    · rw [List.length_append, List.map_cons, List.sum_cons]
      omega

/-! ### A whole batch -/

/-- The classes of a list have as many items as the list. -/
theorem sum_length_filter {α β : Type} [DecidableEq β] (f : α → β) (l : List α) :
    ((l.map f).dedup.map fun b => (l.filter fun a => f a = b).length).sum = l.length := by
  have hcount : ∀ b, (l.filter fun a => f a = b).length = (l.map f).count b := by
    intro b
    rw [List.count, List.countP_map, ← List.countP_eq_length_filter]
    exact List.countP_congr fun a _ => by simp
  simp only [hcount]
  rw [List.sum_map_count_dedup_eq_length, List.length_map]

/-- The groups have as many feeds as there are pings. -/
theorem sum_length_irisOf (pending : List PendingPing) :
    ((pending.map PendingPing.group).dedup.map fun key => (irisOf pending key).length).sum =
      pending.length := by
  simp only [irisOf, List.length_map]
  exact sum_length_filter PendingPing.group pending

/-- Fewer than `2 ^ 64` consecutive numbers are distinct. -/
theorem nodup_seqs (seqCounter : UInt64) {n : ℕ} (h : n ≤ 2 ^ 64) :
    ((List.range n).map fun i => some (seqCounter + UInt64.ofNat i)).Nodup := by
  refine List.nodup_range.map_on fun i hi j hj heq => ?_
  have hlt : ∀ {k}, k ∈ List.range n → k < 2 ^ 64 := fun hk =>
    lt_of_lt_of_le (List.mem_range.1 hk) h
  have hofNat : UInt64.ofNat i = UInt64.ofNat j := UInt64.add_right_inj seqCounter |>.1 (Option.some.inj heq)
  have htoNat := congrArg UInt64.toNat hofNat
  rwa [UInt64.toNat_ofNat_of_lt' (hlt hi), UInt64.toNat_ofNat_of_lt' (hlt hj)] at htoNat

/-- **Batching loses, invents and reorders nothing.** The payloads handed over are the signed bytes of
notifications whose feeds are, group by group, those of the pending pings in order of arrival; none
is empty, none is of another group, and they are numbered one by one from the counter on. And of the
chunks of `split_iris_to_fit`, one that is followed by another was measured above the limit with the next feed,
at one of the readings of the clock that the call makes. -/
theorem flushBatch_lossless (env : Env) (seqCounter : UInt64) (pending : List PendingPing) :
    (∃ notifs : List GossipNotification,
      (flushBatch env seqCounter pending).1.sends.map Send.payload =
        notifs.map (GossipNotification.signedPayload env.signingKey) ∧
      (∀ key, feedsOf notifs key = irisOf pending key) ∧
      (∀ n ∈ notifs, n.iris ≠ [] ∧ ∃ p ∈ pending, p.group = n.group) ∧
      notifs.map GossipNotification.seq =
        ((List.range notifs.length).map fun i => some (seqCounter + UInt64.ofNat i)) ∧
      (pending.length ≤ 2 ^ 64 → (notifs.map GossipNotification.seq).Nodup)) ∧
    ∀ mediumStr reasonStr k iris,
      (splitIrisToFit env mediumStr reasonStr k iris).IsChain fun chunk next =>
        ∃ iri rest j, next = iri :: rest ∧
          k ≤ j ∧ j < k + splitReadings env mediumStr reasonStr k iris ∧ maxGossipPayload <
            ((GossipNotification.new env.signingKey.pubkeyHex mediumStr reasonStr (chunk ++ [iri]) none
              (env.clock j)).signedPayload env.signingKey).length := by
  constructor
  · have hperm := env.visit_perm (pending.map PendingPing.group).dedup
    have hnil : Signed env seqCounter { seqCounter := seqCounter, readings := 0, archived := []
                                        sends := [], broadcastOk := false } [] :=
      ⟨rfl, (UInt64.add_zero seqCounter).symm, rfl⟩
    obtain ⟨notifs, hsigned, hfeeds, hmem, hlen⟩ := hnil.groups
      (hperm.nodup_iff.2 (List.nodup_dedup _))
      fun key hkey => List.mem_dedup.1 (hperm.mem_iff.1 hkey)
    rw [List.nil_append] at hsigned
    refine ⟨notifs, hsigned.payloads, fun key => ?_, fun n hn => ?_, hsigned.seqs, fun hpending => ?_⟩
    · rw [hfeeds]
      split_ifs with hkey
      · rfl
      · -- no ping is of that group
        have hnone : ∀ p ∈ pending, p.group ≠ key := fun p hp heq =>
          hkey (hperm.mem_iff.2 (List.mem_dedup.2 (List.mem_map.2 ⟨p, hp, heq⟩)))
        rw [irisOf, List.filter_eq_nil_iff.2 fun p hp => by simpa using hnone p hp, List.map_nil]
    · obtain ⟨hne, hgroup⟩ := hmem n hn
      exact ⟨hne, List.mem_map.1 (List.mem_dedup.1 (hperm.mem_iff.1 hgroup))⟩
    · rw [hsigned.seqs]
      refine nodup_seqs seqCounter (le_trans hlen ?_)
      rw [(hperm.map _).sum_eq, sum_length_irisOf]
      exact hpending
  · intro mediumStr reasonStr k iris
    refine (isChain_splitIrisToFit env mediumStr reasonStr k iris).imp fun chunk next h => ?_
    obtain ⟨iri, rest, j, hnext, hle, hlt, hfits⟩ := h
    exact ⟨iri, rest, j, hnext, hle, hlt, fits_eq_false.1 hfits⟩

end PodpingAlpha.Writer
