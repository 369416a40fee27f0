import PodpingAlpha.Library.JsonSize
import PodpingAlpha.Writer.Batches
import Mathlib.Algebra.Order.BigOperators.Group.List
import Mathlib.Algebra.Order.Group.Nat

/-!
# The size of a signed payload

`split_iris_to_fit` promises chunks that "each produce a signed payload under MAX_GOSSIP_PAYLOAD", and
measures them without their numbers. The payload that is sent has one, and a feed that is too large
alone is sent all the same.

* `length_signedPayload` — the size of a signed notification, from the sizes of its fields.
* `payloads_fit_of_roomy` — the payloads of a batch are within the limit, if every run of its feeds that
  may become one leaves room for its number.
* `long_iri_too_large`, `longIri_over_max_message_size` — a feed that is too large alone.
-/

namespace PodpingAlpha.Writer

/-! ### The size of a notification -/

/-- The bytes that the list of feeds takes. -/
def irisSize (iris : List String) : ℕ :=
  if iris = [] then 2 else 1 + (iris.map fun iri => (Json.str iri).size + 1).sum

/-- The bytes that a signed notification takes without its number. -/
def noticeSize (sender mediumStr reasonStr : String) (timestamp : UInt64) (iris : List String) : ℕ :=
  211 + (Json.str sender).size + Json.digits timestamp.toNat + (Json.str mediumStr).size +
    (Json.str reasonStr).size + irisSize iris

/-- The bytes that its number adds. -/
def numberSize (seq : UInt64) : ℕ := 7 + Json.digits seq.toNat

theorem size_iris (iris : List String) : (Json.arr (iris.map .str)).size = irisSize iris := by
  rw [irisSize]
  split_ifs with h
  · subst h
    rfl
  · rw [Json.size_arr (by simpa using h), List.map_map]
    rfl

/-- The size of a signed notification. -/
theorem length_signedPayload (signingKey : SigningKey) (sender mediumStr reasonStr : String)
    (iris : List String) (seq : Option UInt64) (timestamp : UInt64) :
    ((GossipNotification.new sender mediumStr reasonStr iris seq timestamp).signedPayload
      signingKey).length =
      noticeSize sender mediumStr reasonStr timestamp iris + seq.elim 0 numberSize := by
  have hkeys : (Json.str "version").size = 9 ∧ (Json.str "sender").size = 8 ∧
      (Json.str "timestamp").size = 11 ∧ (Json.str "medium").size = 8 ∧
      (Json.str "reason").size = 8 ∧ (Json.str "iris").size = 6 ∧ (Json.str "seq").size = 5 ∧
      (Json.str "signature").size = 11 ∧ (Json.str "1.0").size = 5 := by decide
  obtain ⟨hversion, hsender, htime, hmedium, hreason, hiris, hseq, hsig, hone⟩ := hkeys
  have hhex : ∀ sig : List.Vector UInt8 64, (Json.str (Hex.encode sig.toList)).size = 130 := by
    intro sig
    rw [Json.size_str_encode, sig.toList_length]
  unfold GossipNotification.signedPayload GossipNotification.toVec noticeSize numberSize
  rw [Json.length_toBytes, Json.size_obj (by simp)]
  cases seq with
  | none =>
    simp only [GossipNotification.sign, GossipNotification.new, Json.optionalField, List.append_nil,
      List.cons_append, List.nil_append, List.map_cons, List.map_nil, List.sum_cons, List.sum_nil,
      hversion, hsender, htime, hmedium, hreason, hiris, hsig, hone, hhex, size_iris, Json.size_u64,
      Option.elim_none]
    omega
  | some n =>
    simp only [GossipNotification.sign, GossipNotification.new, Json.optionalField,
      List.cons_append, List.nil_append, List.map_cons, List.map_nil, List.sum_cons, List.sum_nil,
      hversion, hsender, htime, hmedium, hreason, hiris, hseq, hsig, hone, hhex, size_iris,
      Json.size_u64, Option.elim_some]
    omega

/-- A notification is larger than a feed it holds. -/
theorem lt_noticeSize {iri : String} {iris : List String} (h : iri ∈ iris)
    (sender mediumStr reasonStr : String) (timestamp : UInt64) :
    iri.length + 211 < noticeSize sender mediumStr reasonStr timestamp iris := by
  have hiri : iri.length ≤ (Json.str iri).size := by
    rw [Json.size_str, ← String.length_toList]
    have hsize := Json.length_le_textSize (iri.toList.flatMap Json.escape)
    have hescape := Json.length_le_length_escape iri.toList
    omega
  have hsum : (Json.str iri).size + 1 ≤ (iris.map fun iri => (Json.str iri).size + 1).sum :=
    List.single_le_sum (by simp) _ (List.mem_map_of_mem h)
  rw [noticeSize, irisSize]
  rw [if_neg (List.ne_nil_of_mem h)]
  omega

/-! ### Runs of feeds -/

/-- The bytes that a run of feeds takes, without its number, at the `k`-th reading of the clock. -/
def runSize (env : Env) (key : String × String) (k : ℕ) (iris : List String) : ℕ :=
  noticeSize env.signingKey.pubkeyHex key.1 key.2 (env.clock k) iris

/-- A bound on the readings of the clock that a batch makes. -/
def readingsBound (pending : List PendingPing) : ℕ := 3 * pending.length

/-- Every run of feeds of a group that is a single feed, or is within the limit without its number, is
within it with any number that it may get. -/
def Roomy (env : Env) (seqCounter : UInt64) (pending : List PendingPing) : Prop :=
  ∀ key, ∀ part, part ≠ [] → part <:+: irisOf pending key →
    (part.length = 1 ∨ ∃ j < readingsBound pending, runSize env key j part ≤ maxGossipPayload) →
      ∀ k < readingsBound pending, ∀ n < pending.length,
        runSize env key k part + numberSize (seqCounter + UInt64.ofNat n) ≤ maxGossipPayload

theorem fits_iff {env : Env} {key : String × String} {k : ℕ} {iris : List String} :
    fits env key.1 key.2 k iris = true ↔ runSize env key k iris ≤ maxGossipPayload := by
  simp only [fits, length_signedPayload, Option.elim_none, Nat.add_zero, decide_eq_true_eq]
  rfl

/-- A chunk is a run of the feeds, and a single one or measured within the limit. -/
theorem run_of_mem_splitIrisToFit {env : Env} {key : String × String} {k : ℕ} {iris chunk : List String}
    (h : chunk ∈ splitIrisToFit env key.1 key.2 k iris) : chunk <:+: iris ∧
      (chunk.length ≤ 1 ∨ ∃ j, k ≤ j ∧ j < k + splitReadings env key.1 key.2 k iris ∧
        runSize env key j chunk ≤ maxGossipPayload) := by
  constructor
  · rw [← flatten_splitIrisToFit env key.1 key.2 k iris]
    exact List.infix_of_mem_flatten h
  · simp only [← fits_iff]
    unfold splitIrisToFit at h
    unfold splitReadings
    split_ifs at h ⊢ with hfits
    · obtain rfl := List.mem_singleton.1 h
      exact .inr ⟨k, le_rfl, Nat.lt_succ_self k, hfits⟩
    · have hnil : ([] : List String).length ≤ 1 := Nat.zero_le 1
      refine (Greedy.tested_of_mem_chunks (Nat.le_succ k) (.inl hnil) h).imp_right ?_
      rintro ⟨j, hle, hlt, hj⟩
      exact ⟨j, hle, by omega, hj⟩

/-! ### The payloads -/

/-- All payloads handed over so far are within the limit. -/
def WithinLimit (st : Flush) : Prop := ∀ s ∈ st.sends, s.payload.length ≤ maxGossipPayload

theorem length_payload_send (env : Env) (key : String × String) (st : Flush) (chunkIris : List String) :
    (st.send env key chunkIris).payload.length =
      runSize env key st.readings chunkIris + numberSize st.seqCounter :=
  length_signedPayload _ _ _ _ _ _ _

theorem WithinLimit.chunk {env : Env} {key : String × String} {st : Flush} {chunkIris : List String}
    (h : WithinLimit st)
    (hchunk : runSize env key st.readings chunkIris + numberSize st.seqCounter ≤ maxGossipPayload) :
    WithinLimit (st.chunk env key chunkIris) := by
  intro s hs
  rcases List.mem_append.1 hs with hs | hs
  · exact h s hs
  · rw [List.mem_singleton.1 hs, length_payload_send]
    exact hchunk

/-- What a batch has done when it has dealt with `n` pings: it counted at most as many numbers, read the
clock at most three times for each, and handed over payloads within the limit. -/
structure Progress (seqCounter : UInt64) (n : ℕ) (st : Flush) : Prop where
  numbers : ∃ m ≤ n, st.seqCounter = seqCounter + UInt64.ofNat m
  readings : st.readings ≤ 3 * n
  within : WithinLimit st

/-- The chunks of a group are signed one by one. -/
theorem withinLimit_chunks (env : Env) (key : String × String) (chunks : List (List String))
    {st : Flush} {seqCounter : UInt64} {m : ℕ} (h : WithinLimit st)
    (hseq : st.seqCounter = seqCounter + UInt64.ofNat m)
    (hchunks : ∀ chunk ∈ chunks, ∀ k, st.readings ≤ k → k < st.readings + chunks.length →
      ∀ n, m ≤ n → n < m + chunks.length →
        runSize env key k chunk + numberSize (seqCounter + UInt64.ofNat n) ≤ maxGossipPayload) :
    let st' := chunks.foldl (Flush.chunk env key) st
    WithinLimit st' ∧ st'.seqCounter = seqCounter + UInt64.ofNat (m + chunks.length) ∧
      st'.readings = st.readings + chunks.length := by
  induction chunks generalizing st m with
  | nil => exact ⟨h, hseq, rfl⟩
  | cons chunk chunks ih =>
    have hnext : (st.chunk env key chunk).seqCounter = seqCounter + UInt64.ofNat (m + 1) := by
      rw [UInt64.ofNat_add, ← UInt64.add_assoc, ← hseq]
      rfl
    have hreadings : (st.chunk env key chunk).readings = st.readings + 1 := rfl
    have hfirst := hchunks chunk List.mem_cons_self st.readings le_rfl (by simp) m le_rfl (by simp)
    rw [← hseq] at hfirst
    obtain ⟨hwithin, hcounter, hread⟩ := ih (h.chunk hfirst) hnext fun c hc k hk hk' n hn hn' => by
      rw [hreadings] at hk hk'
      refine hchunks c (List.mem_cons_of_mem _ hc) k (by omega) ?_ n (by omega) ?_
      · rw [List.length_cons]
        omega
      · rw [List.length_cons]
        omega
    refine ⟨hwithin, ?_, ?_⟩
    · rw [List.foldl_cons, hcounter, List.length_cons]
      congr 2
      omega
    · rw [List.foldl_cons, hread, hreadings, List.length_cons]
      omega

variable {env : Env} {seqCounter : UInt64} {pending : List PendingPing} {n : ℕ} {st : Flush}

/-- The payloads of a group are within the limit, when its feeds leave room for their numbers. -/
theorem Progress.group {key : String × String} (h : Progress seqCounter n st)
    (hroomy : Roomy env seqCounter pending) (hkey : key ∈ pending.map PendingPing.group)
    (hn : n + (irisOf pending key).length ≤ pending.length) :
    Progress seqCounter (n + (irisOf pending key).length) (st.group env pending key) := by
  obtain ⟨m, hm, hseq⟩ := h.numbers
  have hne : irisOf pending key ≠ [] := by
    obtain ⟨p, hp, rfl⟩ := List.mem_map.1 hkey
    exact List.ne_nil_of_mem (List.mem_map_of_mem (List.mem_filter.2 ⟨hp, decide_eq_true rfl⟩))
  have hchunkne : ∀ chunk ∈ splitIrisToFit env key.1 key.2 st.readings (irisOf pending key),
      chunk ≠ [] := fun _ => ne_nil_of_mem_splitIrisToFit hne
  have hlen := length_le_length_flatten hchunkne
  rw [flatten_splitIrisToFit] at hlen
  have hpos := List.length_pos_of_ne_nil hne
  have hreads : splitReadings env key.1 key.2 st.readings (irisOf pending key) ≤
      1 + (irisOf pending key).length := by
    rw [splitReadings]
    split_ifs <;> omega
  have hstart := h.readings
  have hbound : readingsBound pending = 3 * pending.length := rfl
  let measured : Flush := { st with
    readings := st.readings + splitReadings env key.1 key.2 st.readings (irisOf pending key) }
  have hmeasured : measured.readings =
      st.readings + splitReadings env key.1 key.2 st.readings (irisOf pending key) := rfl
  obtain ⟨hwithin, hcounter, hreadings⟩ := withinLimit_chunks env key
    (splitIrisToFit env key.1 key.2 st.readings (irisOf pending key)) (show WithinLimit measured from h.within)
    (show measured.seqCounter = _ from hseq) fun chunk hchunk k _ hk i _ hi => by
      obtain ⟨hsub, htested⟩ := run_of_mem_splitIrisToFit hchunk
      refine hroomy key chunk (hchunkne chunk hchunk) hsub ?_ k (by omega) i (by omega)
      rcases htested with hone | ⟨j, -, hj, hsize⟩
      · have hone' := List.length_pos_of_ne_nil (hchunkne chunk hchunk)
        exact .inl (by omega)
      · exact .inr ⟨j, by omega, hsize⟩
  exact ⟨⟨_, by omega, hcounter⟩, hreadings.le.trans (by omega), hwithin⟩

/-- The groups. -/
theorem Progress.groups {keys : List (String × String)} (h : Progress seqCounter n st)
    (hroomy : Roomy env seqCounter pending) (hkeys : ∀ key ∈ keys, key ∈ pending.map PendingPing.group)
    (hn : n + (keys.map fun key => (irisOf pending key).length).sum ≤ pending.length) :
    WithinLimit (keys.foldl (Flush.group env pending) st) := by
  induction keys generalizing st n with
  | nil => exact h.within
  | cons key keys ih =>
    obtain ⟨hkey, hkeys⟩ := List.forall_mem_cons.1 hkeys
    rw [List.map_cons, List.sum_cons] at hn
    exact ih (h.group hroomy hkey (by omega)) hkeys (by omega)

/-- **The payloads fit**: the payloads of a batch are within the limit, if no feed is too large alone and
no run of feeds of a group is within the limit without its number, but not with it. -/
theorem payloads_fit_of_roomy (env : Env) (seqCounter : UInt64) (pending : List PendingPing)
    (h : Roomy env seqCounter pending) :
    ∀ s ∈ (flushBatch env seqCounter pending).1.sends, s.payload.length ≤ maxGossipPayload := by
  have hperm := env.visit_perm (pending.map PendingPing.group).dedup
  have hstart : Progress seqCounter 0
      { seqCounter := seqCounter, readings := 0, archived := [], sends := [], broadcastOk := false } :=
    ⟨⟨0, le_rfl, (UInt64.add_zero seqCounter).symm⟩, le_rfl, nofun⟩
  refine hstart.groups h (fun key hkey => List.mem_dedup.1 (hperm.mem_iff.1 hkey)) ?_
  rw [(hperm.map _).sum_eq, sum_length_irisOf, Nat.zero_add]

/-- A key, a clock that stands still and a channel that accepts everything. -/
def plainEnv : Env where
  signingKey := ⟨"00", fun _ => .replicate 64 0⟩
  archive := false
  clock := fun _ => 1700000000
  trySend := fun _ => .ok
  visit := id
  visit_perm := fun _ => .refl _

/-- Three feeds of 25000 characters, of which two fit into a payload. -/
def threeFeeds : List PendingPing :=
  ['a', 'b', 'c'].map fun c => ⟨String.ofList (List.replicate 25000 c), ⟨1, by decide⟩, ⟨0, by decide⟩⟩

theorem size_str_replicate {c : Char} (hescape : Json.escape c = [c]) (hsize : c.utf8Size = 1) (n : ℕ) :
    (Json.str (String.ofList (List.replicate n c))).size = n + 2 := by
  rw [Json.size_str, String.toList_ofList, Nat.add_comm]
  congr 1
  induction n with
  | zero => rfl
  | succ n ih => rw [List.replicate_succ, List.flatMap_cons, hescape, Json.textSize_append, ih,
      Json.textSize_cons, hsize, Json.textSize_nil, Nat.add_comm]

theorem mem_irisOf_threeFeeds {key : String × String} {iri : String} (h : iri ∈ irisOf threeFeeds key) :
    key = (mediumToString 1, reasonToString 0) ∧ (Json.str iri).size = 25002 := by
  obtain ⟨p, hp, rfl⟩ := List.mem_map.1 h
  obtain ⟨hp, hgroup⟩ := List.mem_filter.1 hp
  obtain ⟨c, hc, rfl⟩ := List.mem_map.1 hp
  have hplain : Json.escape c = [c] ∧ c.utf8Size = 1 := by
    simp only [List.mem_cons, List.not_mem_nil, or_false] at hc
    rcases hc with rfl | rfl | rfl <;> exact ⟨by decide, rfl⟩
  exact ⟨(of_decide_eq_true hgroup).symm, size_str_replicate hplain.1 hplain.2 25000⟩

theorem runSize_threeFeeds {key : String × String} {part : List String} (hne : part ≠ [])
    (h : part <:+: irisOf threeFeeds key) (k : ℕ) :
    part.length ≤ 3 ∧ runSize plainEnv key k part = 243 + 25003 * part.length := by
  have hlen : part.length ≤ 3 := by
    refine h.length_le.trans ?_
    rw [irisOf, List.length_map]
    exact List.length_filter_le _ threeFeeds
  have hkey : key = (mediumToString 1, reasonToString 0) := by
    obtain ⟨iri, rest, rfl⟩ := List.exists_cons_of_ne_nil hne
    exact (mem_irisOf_threeFeeds (h.subset List.mem_cons_self)).1
  have hsum : (part.map fun iri => (Json.str iri).size + 1) = List.replicate part.length 25003 := by
    refine List.eq_replicate_iff.2 ⟨List.length_map _, fun n hn => ?_⟩
    obtain ⟨iri, hiri, rfl⟩ := List.mem_map.1 hn
    rw [(mem_irisOf_threeFeeds (h.subset hiri)).2]
  have hfields : (Json.str plainEnv.signingKey.pubkeyHex).size = 4 ∧
      Json.digits (1700000000 : UInt64).toNat = 10 ∧ (Json.str (mediumToString 1)).size = 9 ∧
      (Json.str (reasonToString 0)).size = 8 := by decide
  obtain ⟨hsender, htime, hmedium, hreason⟩ := hfields
  have hclock : plainEnv.clock k = 1700000000 := rfl
  refine ⟨hlen, ?_⟩
  rw [runSize, noticeSize, irisSize, if_neg hne, hsum, List.sum_replicate_nat, hkey, hsender, hclock,
    htime, hmedium, hreason]
  omega

theorem threeFeeds_fit : WithinLimit (flushBatch plainEnv 0 threeFeeds).1 := by
  refine payloads_fit_of_roomy plainEnv 0 threeFeeds fun key part hne hsub hrun k _ n hn => ?_
  obtain ⟨hlen, hsize⟩ := runSize_threeFeeds hne hsub k
  have hnumber : ∀ n < 3, numberSize (0 + UInt64.ofNat n) = 8 := by decide
  have hlimit : maxGossipPayload = 60000 := rfl
  rw [hsize, hnumber n hn, hlimit]
  rcases hrun with hone | ⟨j, -, hj⟩
  · rw [hone]
    decide
  · rw [(runSize_threeFeeds hne hsub j).2, hlimit] at hj
    omega

/-- A run of feeds of one group that is a single feed, or within the limit without its number, is handed
over as one payload if it is all that is pending: it fits exactly when there is room for the number. -/
theorem run_alone_fits_iff {key : String × String} (hne : pending ≠ [])
    (hkey : ∀ p ∈ pending, p.group = key)
    (hrun : pending.length = 1 ∨ runSize env key 0 (pending.map PendingPing.iri) ≤ maxGossipPayload) :
    (∀ s ∈ (flushBatch env seqCounter pending).1.sends, s.payload.length ≤ maxGossipPayload) ↔
      runSize env key (splitReadings env key.1 key.2 0 (pending.map PendingPing.iri))
        (pending.map PendingPing.iri) + numberSize seqCounter ≤ maxGossipPayload := by
  have hgroups : (pending.map PendingPing.group).dedup = [key] := by
    have hall : pending.map PendingPing.group = List.replicate pending.length key :=
      List.eq_replicate_iff.2 ⟨List.length_map _, fun g hg => by
        obtain ⟨p, hp, rfl⟩ := List.mem_map.1 hg
        exact hkey p hp⟩
    rw [hall]
    exact List.replicate_dedup (List.length_pos_of_ne_nil hne).ne'
  have hvisit : env.visit [key] = [key] := List.perm_singleton.1 (env.visit_perm [key])
  have hfeeds : pending.filter (fun p => p.group = key) = pending :=
    List.filter_eq_self.2 fun p hp => decide_eq_true (hkey p hp)
  have hsplit : splitIrisToFit env key.1 key.2 0 (pending.map PendingPing.iri) =
      [pending.map PendingPing.iri] := by
    rcases hrun with hone | hsize
    · obtain ⟨p, rfl⟩ := List.length_eq_one_iff.1 hone
      exact splitIrisToFit_singleton env key.1 key.2 0 p.iri
    · rw [splitIrisToFit, if_pos (fits_iff.2 hsize)]
  simp only [flushBatch, flushGroups, hgroups, hvisit, List.foldl_cons, List.foldl_nil, Flush.group,
    hfeeds, hsplit, Flush.chunk, List.nil_append, List.forall_mem_singleton]
  rw [length_payload_send]
  simp only [Nat.zero_add]

/-! ### Feeds that are too large alone -/

/-- Every payload is that of a notification. -/
def Built (env : Env) (st : Flush) : Prop :=
  ∀ s ∈ st.sends, ∃ n t, s.payload = (GossipNotification.new env.signingKey.pubkeyHex s.mediumStr
    s.reasonStr s.iris (some n) t).signedPayload env.signingKey

theorem Built.chunk {env : Env} {st : Flush} (h : Built env st) (key : String × String)
    (chunkIris : List String) : Built env (st.chunk env key chunkIris) := by
  intro s hs
  rcases List.mem_append.1 hs with hs | hs
  · exact h s hs
  · obtain rfl := List.mem_singleton.1 hs
    exact ⟨_, _, rfl⟩

theorem built_flushGroups (env : Env) (seqCounter : UInt64) (pending : List PendingPing) :
    Built env (flushGroups env seqCounter pending) :=
  flushGroups_induction (fun _ => nofun) (fun _ _ h => h) (fun key _ chunk h => h.chunk key chunk) seqCounter pending

/-- However long a feed is, a payload with it is handed over. -/
theorem long_iri_too_large (env : Env) (seqCounter : UInt64) {pending : List PendingPing}
    {p : PendingPing} (hp : p ∈ pending) :
    ∃ s ∈ (flushBatch env seqCounter pending).1.sends, p.iri.length + 211 < s.payload.length := by
  obtain ⟨s, hs, -, hiri⟩ := mem_flushGroups_sends env seqCounter hp
  obtain ⟨n, t, hpayload⟩ := built_flushGroups env seqCounter pending s hs
  have hlt := lt_noticeSize hiri env.signingKey.pubkeyHex s.mediumStr s.reasonStr t
  refine ⟨s, hs, ?_⟩
  rw [hpayload, length_signedPayload]
  omega

/-- A feed of 65500 characters: the payload is above the limit, and above what gossip carries. -/
theorem longIri_over_max_message_size :
    ∃ s ∈ (flushBatch plainEnv 0 [⟨String.ofList (List.replicate 65500 'a'), 1, 0⟩]).1.sends,
      maxGossipPayload < s.payload.length ∧ 65536 < s.payload.length := by
  obtain ⟨s, hs, hlt⟩ := long_iri_too_large plainEnv 0
    (List.mem_singleton.2 (rfl : (⟨String.ofList (List.replicate 65500 'a'), 1, 0⟩ : PendingPing) = _))
  have hlen : (String.ofList (List.replicate 65500 'a')).length = 65500 := by
    rw [String.length_ofList, List.length_replicate]
  refine ⟨s, hs, ?_⟩
  simp only [hlen] at hlt
  rw [maxGossipPayload]
  omega

end PodpingAlpha.Writer
