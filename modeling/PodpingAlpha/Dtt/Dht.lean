import PodpingAlpha.Dtt.Record

/-!
# Putting a record into the DHT

`DhtActor::put_mutable` of `dtt-fork/src/dht.rs`: a loop that reads the most recent item of the slot,
puts one with the next sequence number, and tries again when that fails. Anybody who knows the topic
can sign items of the slot, so the number it reads may be any `i64`.

## The model

What the network does is given for every iteration (`Attempt`): what `get_mutable_most_recent` and
`put_mutable` of `mainline` come to within their timeouts, and whether `reset` can build a client.
Beside its result the model returns the puts it attempted, oldest first, each with the number read
before it. `overflowChecks` says whether the build checks its arithmetic.

## What is proved

* `putMutable_puts` — what is put is what was requested, and `Ok` comes after a put that was stored.
* `putMutable_iff` — `Ok` means that an item with the data and a newer number was stored, no
  arithmetic overflows, and there are no more attempts than asked for, exactly when at least one
  attempt was asked for and no attempt that is made reads the largest `i64`.
-/

namespace PodpingAlpha.Dtt.Dht

open Outcome Crypto

/-- `RETRY_DEFAULT`. -/
def retryDefault : ℕ := 3

/-- `MutableItem`. -/
structure MutableItem where
  /-- The signing key. -/
  signer : Bytes32
  /-- The data. -/
  value : Bytes
  /-- The sequence number. -/
  seq : Int64
  /-- The salt of the slot. -/
  salt : Option Bytes
  deriving DecidableEq

/-- What `get_mutable_most_recent` comes to. -/
inductive MostRecent where
  /-- The timeout. -/
  | timeout
  /-- No item. -/
  | nothing
  /-- An item with this sequence number. -/
  | item (seq : Int64)
  deriving DecidableEq

/-- What `put_mutable` comes to. -/
inductive PutResult where
  | stored
  | refused
  | timeout
  deriving DecidableEq

/-- What one iteration meets. -/
structure Attempt where
  /-- The most recent item. -/
  mostRecent : MostRecent
  /-- The put. -/
  put : PutResult
  /-- The `reset` after it succeeds. -/
  resets : Bool
  deriving DecidableEq

/-- What a call meets. -/
structure Network where
  /-- `self.dht` is there. -/
  connected : Bool
  /-- The `reset` before the loop succeeds. -/
  connects : Bool
  /-- The iterations. -/
  attempts : ℕ → Attempt

/-- A put that was attempted. -/
structure Put where
  /-- The sequence number of the item read before it. -/
  observed : Option Int64
  /-- The item. -/
  item : MutableItem
  /-- What came of it. -/
  result : PutResult
  deriving DecidableEq

/-- The arguments of `put_mutable` that go into an item. -/
structure Request where
  /-- The signing key. -/
  signingKey : Bytes32
  /-- The salt. -/
  salt : Option Bytes
  /-- The data. -/
  data : Bytes

/-- The result, and the puts. -/
abbrev Answer := Rust (Except String Unit) × List Put

/-- `mut_item.seq() + 1`, or 0 without an item. -/
def nextSeq (overflowChecks : Bool) : Option Int64 → Rust Int64
  | some seq =>
    if overflowChecks ∧ seq = Int64.maxValue then .error .overflow else .ok (seq + 1)
  | none => .ok 0

/-- `retry_count - 1`, as a `usize`. -/
def lastAttempt (overflowChecks : Bool) (retryCount : ℕ) : Rust ℕ :=
  if 0 < retryCount then .ok (retryCount - 1)
  else if overflowChecks then .error .overflow else .ok (2 ^ 64 - 1)

/-- The rest of an iteration that read `observed`, with the puts so far; `next` is the iteration
after it. -/
def putNext (overflowChecks : Bool) (req : Request) (retryCount i : ℕ) (now : Attempt)
    (observed : Option Int64) (puts : List Put) (next : List Put → Answer) : Answer :=
  match nextSeq overflowChecks observed with
  | .error panic => (.error panic, puts)
  | .ok seq =>
    let puts := puts ++ [⟨observed, ⟨req.signingKey, req.data, seq, req.salt⟩, now.put⟩]
    if now.put = .stored then (.ok (.ok ()), puts)
    else
      match lastAttempt overflowChecks retryCount with
      | .error panic => (.error panic, puts)
      | .ok last =>
        if i = last then (.ok (.error "failed to publish record"), puts)
        else if now.resets then next puts
        else (.ok (.error "failed to build a client"), puts)

/-- The loop from iteration `i` on, with as many to go and the puts so far. -/
def putLoop (overflowChecks : Bool) (req : Request) (attempts : ℕ → Attempt) (retryCount : ℕ) :
    ℕ → ℕ → List Put → Answer
  | 0, _, puts => (.ok (.ok ()), puts)
  | todo + 1, i, puts =>
    let next := putLoop overflowChecks req attempts retryCount todo (i + 1)
    match (attempts i).mostRecent with
    | .timeout => (.ok (.error "deadline has elapsed"), puts)
    | .nothing => putNext overflowChecks req retryCount i (attempts i) none puts next
    | .item seq => putNext overflowChecks req retryCount i (attempts i) (some seq) puts next

/-- `DhtActor::put_mutable`. -/
def putMutable (overflowChecks : Bool) (req : Request) (retryCount : Option ℕ) (net : Network) :
    Answer :=
  let count := retryCount.getD retryDefault
  if net.connected || net.connects then
    putLoop overflowChecks req net.attempts count count 0 []
  else (.ok (.error "failed to build a client"), [])

/-! ### The property and the condition -/

/-- The number of the item is the next one, as an integer. -/
def Put.Exact (p : Put) : Prop := ∀ seq, p.observed = some seq → p.item.seq.toInt = seq.toInt + 1

/-- What a successful put means. -/
structure StoresNewer (req : Request) (retryCount : Option ℕ) (answer : Answer) : Prop where
  /-- It does not panic. -/
  returns : ∃ r, answer.1 = .ok r
  /-- No sequence number overflowed. -/
  exact : ∀ p ∈ answer.2, p.Exact
  /-- If it returns `Ok`, the item stored last has the data and is newer than what was read. -/
  stored : answer.1 = .ok (.ok ()) →
    ∃ p, (answer.2.filter (·.result = .stored)).getLast? = some p ∧ p.item.value = req.data ∧
      ∀ seq, p.observed = some seq → seq < p.item.seq
  /-- It puts no more often than it should. -/
  few : answer.2.length ≤ max (retryCount.getD retryDefault) 1

/-- The iteration is followed by another one, unless it is the last. -/
def Attempt.Retried (a : Attempt) : Prop :=
  a.mostRecent ≠ .timeout ∧ a.put ≠ .stored ∧ a.resets = true

/-- Iteration `i` is reached, if there are so many. -/
def Network.Reaches (attempts : ℕ → Attempt) (i : ℕ) : Prop := ∀ j < i, (attempts j).Retried

/-- An attempt is made, if there is a client, and none that is made reads the largest number. -/
def Storable (retryCount : Option ℕ) (net : Network) : Prop :=
  net.connected || net.connects →
    retryCount ≠ some 0 ∧
      ∀ i < retryCount.getD retryDefault, Network.Reaches net.attempts i →
        (net.attempts i).mostRecent ≠ .item Int64.maxValue

/-! ### The next number -/

/-- Below the largest number, the next one is one more. -/
theorem toInt_succ {seq : Int64} (hs : seq ≠ Int64.maxValue) : (seq + 1).toInt = seq.toInt + 1 := by
  have hlo := seq.le_toInt
  have hhi := seq.toInt_lt
  have hmax : seq.toInt ≠ 2 ^ 63 - 1 := fun h =>
    hs (Int64.toInt_inj.mp (h.trans Int64.toInt_maxValue.symm))
  have hone : (1 : Int64).toInt = 1 := by decide
  rw [Int64.toInt_add, hone]
  exact Int.bmod_eq_of_le (by omega) (by omega)

/-- The program panics over no number but the largest. -/
theorem nextSeq_error {overflowChecks : Bool} {observed : Option Int64} {panic : Panic}
    (h : nextSeq overflowChecks observed = .error panic) : observed = some Int64.maxValue := by
  cases observed with
  | none => simp [nextSeq] at h
  | some seq =>
    simp only [nextSeq] at h
    split at h
    · next hmax => rw [hmax.2]
    · cases h

/-- The next number is exact, unless the one read is the largest. -/
theorem nextSeq_exact {overflowChecks : Bool} {observed : Option Int64} {next : Int64}
    (h : nextSeq overflowChecks observed = .ok next) :
    (∀ seq, observed = some seq → next.toInt = seq.toInt + 1) ↔
      observed ≠ some Int64.maxValue := by
  cases observed with
  | none => simp
  | some seq =>
    simp only [nextSeq] at h
    split at h
    · cases h
    · cases h
      constructor
      · rintro hexact hmax
        cases hmax
        have := hexact _ rfl
        simp [Int64.toInt_maxValue, show Int64.maxValue + 1 = Int64.minValue from rfl] at this
      · rintro hmax seq' hseq
        cases hseq
        exact toInt_succ fun h => hmax (congrArg some h)

/-- The last attempt, where there is one. -/
theorem lastAttempt_of_pos (overflowChecks : Bool) {retryCount : ℕ} (h : 0 < retryCount) :
    lastAttempt overflowChecks retryCount = .ok (retryCount - 1) := if_pos h

/-! ### One iteration -/

section
variable {overflowChecks : Bool} {req : Request} {retryCount : Option ℕ} {puts : List Put}

/-- A panic keeps nothing. -/
theorem not_storesNewer_panic {panic : Panic} :
    ¬ StoresNewer req retryCount (.error panic, puts) := by
  rintro ⟨⟨r, hr⟩, -⟩
  cases hr

/-- An `Err` promises nothing but exact numbers. -/
theorem storesNewer_err_iff {e : String}
    (hfew : puts.length ≤ max (retryCount.getD retryDefault) 1) :
    StoresNewer req retryCount (.ok (.error e), puts) ↔ ∀ p ∈ puts, p.Exact :=
  ⟨StoresNewer.exact, fun hexact => ⟨⟨_, rfl⟩, hexact, by simp, hfew⟩⟩

/-- Nor does an `Ok` after a put of the data that was stored. -/
theorem storesNewer_stored_iff {p : Put} (hp : p.result = .stored) (hdata : p.item.value = req.data)
    (hfew : (puts ++ [p]).length ≤ max (retryCount.getD retryDefault) 1) :
    StoresNewer req retryCount (.ok (.ok ()), puts ++ [p]) ↔ ∀ p' ∈ puts ++ [p], p'.Exact := by
  refine ⟨StoresNewer.exact, fun hexact => ⟨⟨_, rfl⟩, hexact, fun _ => ?_, hfew⟩⟩
  refine ⟨p, by simp [List.filter_append, hp], hdata, fun seq hseq => ?_⟩
  have hnext := hexact p (by simp) seq hseq
  rw [Int64.lt_iff_toInt_lt]
  omega

/-- An iteration that reads `observed` keeps the property exactly when that is not the largest
number and the iteration after it, if there is one, keeps it. -/
theorem putNext_iff {i : ℕ} {now : Attempt} {observed : Option Int64} {next : List Put → Answer}
    (later : Prop) (hi : i < retryCount.getD retryDefault) (hlen : puts.length = i)
    (hnext : now.put ≠ .stored → now.resets = true → i + 1 < retryCount.getD retryDefault →
      ∀ puts' : List Put, puts'.length = i + 1 →
        (StoresNewer req retryCount (next puts') ↔ (∀ p ∈ puts', p.Exact) ∧ later)) :
    StoresNewer req retryCount
        (putNext overflowChecks req (retryCount.getD retryDefault) i now observed puts next) ↔
      (∀ p ∈ puts, p.Exact) ∧ observed ≠ some Int64.maxValue ∧
        (now.put ≠ .stored → now.resets = true → i + 1 < retryCount.getD retryDefault → later) := by
  have hlast := lastAttempt_of_pos overflowChecks (Nat.zero_lt_of_lt hi)
  cases hseq : nextSeq overflowChecks observed with
  | error panic =>
    simp only [putNext, hseq]
    exact ⟨fun h => (not_storesNewer_panic h).elim, fun h => absurd (nextSeq_error hseq) h.2.1⟩
  | ok seq =>
    set p : Put := ⟨observed, ⟨req.signingKey, req.data, seq, req.salt⟩, now.put⟩ with hp
    have hexact : (∀ p' ∈ puts ++ [p], p'.Exact) ↔
        (∀ p' ∈ puts, p'.Exact) ∧ observed ≠ some Int64.maxValue := by
      simp only [List.forall_mem_append, List.forall_mem_singleton, ← nextSeq_exact hseq]
      rfl
    have hfew : (puts ++ [p]).length ≤ max (retryCount.getD retryDefault) 1 := by
      simp only [List.length_append, List.length_singleton]
      omega
    simp only [putNext, hseq, hlast, ← hp, ← and_assoc, ← hexact]
    by_cases hstored : now.put = .stored
    · rw [if_pos hstored, storesNewer_stored_iff hstored rfl hfew]
      simp [hstored]
    rw [if_neg hstored]
    by_cases hend : i = retryCount.getD retryDefault - 1
    · rw [if_pos hend, storesNewer_err_iff hfew]
      have hnone : ¬ i + 1 < retryCount.getD retryDefault := by omega
      simp [hnone]
    rw [if_neg hend]
    have hmore : i + 1 < retryCount.getD retryDefault := by omega
    by_cases hresets : now.resets = true
    · rw [if_pos hresets, hnext hstored hresets hmore _ (by simp [hlen])]
      simp [hstored, hresets, hmore]
    · rw [if_neg hresets, storesNewer_err_iff hfew]
      simp [hresets]

/-! ### The loop -/

/-- What is asked of the iterations from `i` on is asked of `i` and, if it is retried, of those
after it. -/
theorem forall_reached_iff {attempts : ℕ → Attempt} {ok : ℕ → Prop} {i count : ℕ}
    (hi : i < count) (hreach : Network.Reaches attempts i) :
    (∀ k, i ≤ k → k < count → Network.Reaches attempts k → ok k) ↔
      ok i ∧ ((attempts i).Retried → i + 1 < count →
        ∀ k, i + 1 ≤ k → k < count → Network.Reaches attempts k → ok k) := by
  constructor
  · intro h
    exact ⟨h i le_rfl hi hreach, fun _ _ k hk => h k (by omega)⟩
  · rintro ⟨hnow, hlater⟩ k hik hk hkreach
    obtain rfl | hlt := hik.eq_or_lt
    · exact hnow
    · exact hlater (hkreach i hlt) (by omega) k hlt hk hkreach

/-- The loop keeps the property exactly when the numbers so far are exact and no iteration that is
reached reads the largest. -/
theorem putLoop_iff (attempts : ℕ → Attempt) : ∀ (todo i : ℕ) (puts : List Put),
    i + todo = retryCount.getD retryDefault → 0 < todo → puts.length = i →
    Network.Reaches attempts i →
    (StoresNewer req retryCount
        (putLoop overflowChecks req attempts (retryCount.getD retryDefault) todo i puts) ↔
      (∀ p ∈ puts, p.Exact) ∧
        ∀ k, i ≤ k → k < retryCount.getD retryDefault → Network.Reaches attempts k →
          (attempts k).mostRecent ≠ .item Int64.maxValue) := by
  intro todo
  induction todo with
  | zero => intro i puts _ h; omega
  | succ todo ih =>
    intro i puts hcount _ hlen hreach
    have hi : i < retryCount.getD retryDefault := by omega
    rw [forall_reached_iff hi hreach]
    set later : Prop := ∀ k, i + 1 ≤ k → k < retryCount.getD retryDefault →
      Network.Reaches attempts k → (attempts k).mostRecent ≠ .item Int64.maxValue with hlater
    -- the two cases in which a number was read, or none is there
    have hread : ∀ observed, (attempts i).mostRecent ≠ .timeout →
        (StoresNewer req retryCount
            (putNext overflowChecks req (retryCount.getD retryDefault) i (attempts i) observed puts
              (putLoop overflowChecks req attempts (retryCount.getD retryDefault) todo (i + 1))) ↔
          (∀ p ∈ puts, p.Exact) ∧ observed ≠ some Int64.maxValue ∧
            ((attempts i).Retried → i + 1 < retryCount.getD retryDefault → later)) := by
      intro observed hgo
      rw [putNext_iff later hi hlen]
      · simp only [Attempt.Retried, and_imp, ne_eq, hgo, not_false_eq_true, forall_true_left]
      · intro hput hresets hmore puts' hlen'
        refine ih (i + 1) puts' (by omega) (by omega) hlen' fun j hj => ?_
        obtain hj | rfl := Nat.lt_succ_iff_lt_or_eq.mp hj
        · exact hreach j hj
        · exact ⟨hgo, hput, hresets⟩
    cases hrecent : (attempts i).mostRecent with
    | timeout =>
      have hstop : ¬ (attempts i).Retried := fun h => h.1 hrecent
      have hfew : puts.length ≤ max (retryCount.getD retryDefault) 1 := by omega
      simp only [putLoop, hrecent, storesNewer_err_iff hfew]
      simp [hstop]
    | nothing =>
      simp only [putLoop, hrecent, hread none (by simp [hrecent])]
      simp
    | item seq =>
      simp only [putLoop, hrecent, hread (some seq) (by simp [hrecent])]
      simp

end

/-! ### What is put -/

/-- The item is the requested one, under some number. -/
def Request.Asks (req : Request) (item : MutableItem) : Prop :=
  item.signer = req.signingKey ∧ item.salt = req.salt ∧ item.value = req.data

/-- The puts are all of what was requested, and `Ok` comes after one that was stored. -/
structure PutsRequest (req : Request) (answer : Answer) : Prop where
  /-- What is put. -/
  asks : ∀ p ∈ answer.2, req.Asks p.item
  /-- What `Ok` means. -/
  stored : answer.1 = .ok (.ok ()) → ∃ p ∈ answer.2, p.result = .stored

section
variable {overflowChecks : Bool} {req : Request} {retryCount : ℕ} {puts : List Put}

theorem putsRequest_of_ne {r : Rust (Except String Unit)} (hputs : ∀ p ∈ puts, req.Asks p.item)
    (hr : r ≠ .ok (.ok ())) : PutsRequest req (r, puts) :=
  ⟨hputs, fun h => absurd h hr⟩

theorem putNext_puts {i : ℕ} {now : Attempt} {observed : Option Int64} {next : List Put → Answer}
    (hputs : ∀ p ∈ puts, req.Asks p.item)
    (hnext : i ≠ retryCount - 1 → ∀ puts', (∀ p ∈ puts', req.Asks p.item) → PutsRequest req (next puts'))
    (hcount : 0 < retryCount) :
    PutsRequest req (putNext overflowChecks req retryCount i now observed puts next) := by
  cases hseq : nextSeq overflowChecks observed with
  | error panic =>
    rw [putNext]
    rw [hseq]
    exact putsRequest_of_ne hputs (by simp)
  | ok seq =>
    set p : Put := ⟨observed, ⟨req.signingKey, req.data, seq, req.salt⟩, now.put⟩ with hp
    have hasks : ∀ p' ∈ puts ++ [p], req.Asks p'.item :=
      List.forall_mem_append.2 ⟨hputs, List.forall_mem_singleton.2 ⟨rfl, rfl, rfl⟩⟩
    simp only [putNext, hseq, lastAttempt_of_pos overflowChecks hcount, ← hp]
    split_ifs with hstored hlast hresets
    · exact ⟨hasks, fun _ => ⟨p, by simp, hstored⟩⟩
    · exact putsRequest_of_ne hasks (by simp)
    · exact hnext hlast _ hasks
    · exact putsRequest_of_ne hasks (by simp)

theorem putLoop_puts (attempts : ℕ → Attempt) : ∀ (todo i : ℕ) (puts : List Put),
    i + todo = retryCount → 0 < todo → (∀ p ∈ puts, req.Asks p.item) →
    PutsRequest req (putLoop overflowChecks req attempts retryCount todo i puts) := by
  intro todo
  induction todo with
  | zero =>
    intro i puts _ h
    exact absurd h (Nat.lt_irrefl 0)
  | succ todo ih =>
    intro i puts hcount _ hputs
    have hread : ∀ observed, PutsRequest req (putNext overflowChecks req retryCount i (attempts i)
        observed puts (putLoop overflowChecks req attempts retryCount todo (i + 1))) := by
      intro observed
      refine putNext_puts hputs (fun hlast puts' hputs' => ?_) (by omega)
      exact ih (i + 1) puts' (by omega) (by omega) hputs'
    rw [putLoop]
    cases (attempts i).mostRecent with
    | timeout => exact putsRequest_of_ne hputs (by simp)
    | nothing => exact hread none
    | item seq => exact hread (some seq)

/-- Asked for at least one attempt, `put_mutable` puts what it was asked to. -/
theorem putMutable_puts {count : ℕ} (hcount : 0 < count) (net : Network) :
    PutsRequest req (putMutable overflowChecks req (some count) net) := by
  rw [putMutable]
  split_ifs
  · exact putLoop_puts net.attempts count 0 [] (Nat.zero_add _) hcount (List.forall_mem_nil _)
  · exact putsRequest_of_ne (List.forall_mem_nil _) (by simp)

end

/-! ### The put -/

/-- `Ok` means that an item with the data and a newer number was stored, no arithmetic overflows and
there are no more puts than attempts were asked for, exactly when an attempt is made and none that
is made reads the largest number. -/
theorem putMutable_iff (overflowChecks : Bool) (req : Request) (retryCount : Option ℕ)
    (net : Network) :
    StoresNewer req retryCount (putMutable overflowChecks req retryCount net) ↔
      Storable retryCount net := by
  simp only [putMutable, Storable]
  by_cases hclient : (net.connected || net.connects) = true
  · simp only [hclient, if_true, forall_true_left]
    by_cases hzero : retryCount = some 0
    · subst hzero
      refine ⟨fun h => ?_, fun h => absurd rfl h.1⟩
      obtain ⟨p, hp, -⟩ := h.stored rfl
      simp [putLoop] at hp
    · have hpos : 0 < retryCount.getD retryDefault := by
        cases retryCount with
        | none => decide
        | some n => exact Nat.pos_of_ne_zero fun h => hzero (congrArg some h)
      have hstart : Network.Reaches net.attempts 0 := fun j hj => absurd hj j.not_lt_zero
      rw [putLoop_iff net.attempts _ 0 [] (Nat.zero_add _) hpos rfl hstart]
      simp [hzero]
  · rw [if_neg hclient]
    simp only [hclient, Bool.false_eq_true, false_imp_iff, iff_true]
    exact (storesNewer_err_iff (by simp)).mpr (by simp)

/-- A slot that somebody wrote the largest number to. -/
def fullSlot : Network where
  connected := true
  connects := true
  attempts _ := ⟨.item Int64.maxValue, .stored, true⟩

/-- A record to put. -/
def sampleRequest : Request := ⟨List.Vector.replicate 32 0, none, [1]⟩

/-- Asked for no attempt the program says that it stored the data, and after the largest number it
stores them under the smallest. -/
theorem put_not_newer :
    ¬ StoresNewer sampleRequest (some 0) (putMutable true sampleRequest (some 0) fullSlot) ∧
      ¬ StoresNewer sampleRequest none (putMutable false sampleRequest none fullSlot) := by
  constructor
  · intro h
    obtain ⟨p, hp, -⟩ := h.stored rfl
    cases hp
  · intro h
    obtain ⟨p, hp, -, hnewer⟩ := h.stored rfl
    cases hp
    exact absurd (hnewer _ rfl) (by decide)

end PodpingAlpha.Dtt.Dht
