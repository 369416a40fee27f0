import PodpingAlpha.Writer.Shutdown

/-!
# Where a ping is

A ping that the ZMQ thread of `gossip-writer/src/main.rs` received waits in `pending`, and a flush hands it
to the channel in one notification. Here a ping counts as its feed with its medium and reason, so that it
can be followed from the socket into the notifications.

* `perm_flushGroups` — a flush hands over each pending ping once, and nothing else.
* `waiting` — the pings that the thread has received and not handed over.
* `Promised` — what the process has on hand was handed over, and it replies to what was handed over.
-/

namespace PodpingAlpha.Writer

/-- A feed, with its medium and its reason. -/
abbrev Token := String × String × String

/-- The feed of a ping and its group. -/
def PendingPing.token (p : PendingPing) : Token := (p.iri, p.group)

/-- The feeds of a notification, each with its group. -/
def Send.tokens (n : Send) : List Token := n.iris.map fun iri => (iri, n.mediumStr, n.reasonStr)

theorem holds_iff {n : Send} {p : PendingPing} : n.Holds p ↔ p.token ∈ n.tokens := by
  rw [Send.Holds, Send.tokens, List.mem_map]
  constructor
  · rintro ⟨hgroup, hiri⟩
    exact ⟨p.iri, hiri, by rw [PendingPing.token, ← hgroup]⟩
  · rintro ⟨iri, hiri, htoken⟩
    obtain ⟨rfl, hgroup⟩ := Prod.mk.inj htoken
    exact ⟨hgroup, hiri⟩

/-! ### A flush -/

section Flush

variable {env : Env} {pending : List PendingPing}

/-- The chunks of a group are its pings. -/
theorem tokens_group (env : Env) (pending : List PendingPing) (st : Flush) (key : String × String) :
    ∃ new, (st.group env pending key).sends = st.sends ++ new ∧
      new.flatMap Send.tokens = (pending.filter fun p => p.group = key).map PendingPing.token := by
  rw [Flush.group]
  generalize hall : (pending.filter fun p => p.group = key).map PendingPing.iri = iris
  obtain ⟨new, hsends, hiris, hkey⟩ := sends_chunks env key
    (splitIrisToFit env key.1 key.2 st.readings iris)
    { st with readings := st.readings + splitReadings env key.1 key.2 st.readings iris }
  refine ⟨new, hsends, ?_⟩
  have htokens : new.flatMap Send.tokens = (new.map Send.iris).flatten.map fun iri => (iri, key) := by
    rw [List.map_flatten, List.map_map, List.flatMap_def]
    refine congrArg List.flatten (List.map_congr_left fun n hn => ?_)
    rw [Send.tokens, hkey n hn]
    rfl
  rw [htokens, hiris, flatten_splitIrisToFit, ← hall, List.map_map]
  refine List.map_congr_left fun p hp => ?_
  rw [PendingPing.token, of_decide_eq_true (List.mem_filter.1 hp).2]
  rfl

/-- A token is among the pings of its own group. -/
theorem count_tokens_filter (key : String × String) (token : Token) :
    ((pending.filter fun p => p.group = key).map PendingPing.token).count token =
      if token.2 = key then (pending.map PendingPing.token).count token else 0 := by
  simp only [List.count, List.countP_map, List.countP_filter]
  split_ifs with hkey
  · refine List.countP_congr fun p _ => ?_
    subst hkey
    simp only [Function.comp_apply, Bool.and_eq_true, beq_iff_eq, decide_eq_true_eq, and_iff_left_iff_imp]
    rintro rfl
    rfl
  · rw [List.countP_eq_zero]
    intro p _ hp
    simp only [Function.comp_apply, Bool.and_eq_true, beq_iff_eq, decide_eq_true_eq] at hp
    exact hkey (hp.1 ▸ hp.2)

/-- The groups that are visited are their pings. -/
theorem count_tokens_groups (env : Env) (pending : List PendingPing) {keys : List (String × String)}
    (hnodup : keys.Nodup) (st : Flush) (token : Token) :
    ∃ new, (keys.foldl (Flush.group env pending) st).sends = st.sends ++ new ∧
      (new.flatMap Send.tokens).count token =
        if token.2 ∈ keys then (pending.map PendingPing.token).count token else 0 := by
  induction keys generalizing st with
  | nil => exact ⟨[], (List.append_nil _).symm, rfl⟩
  | cons key keys ih =>
    obtain ⟨hkey, hnodup⟩ := List.nodup_cons.1 hnodup
    obtain ⟨new, hsends, htokens⟩ := tokens_group env pending st key
    obtain ⟨new', hsends', hcount⟩ := ih hnodup (st.group env pending key)
    refine ⟨new ++ new', by rw [List.foldl_cons, hsends', hsends, List.append_assoc], ?_⟩
    rw [List.flatMap_append, List.count_append, htokens, hcount, count_tokens_filter]
    by_cases heq : token.2 = key
    · rw [if_pos heq, if_neg (heq ▸ hkey), if_pos (heq ▸ List.mem_cons_self), Nat.add_zero]
    · rw [if_neg heq, Nat.zero_add]
      exact if_congr (by rw [List.mem_cons, or_iff_right heq]) rfl rfl

/-- **A flush hands over each pending ping once**, and nothing else. -/
theorem perm_flushGroups (env : Env) (seqCounter : UInt64) (pending : List PendingPing) :
    ((flushGroups env seqCounter pending).sends.flatMap Send.tokens).Perm
      (pending.map PendingPing.token) := by
  have hvisit := env.visit_perm (pending.map PendingPing.group).dedup
  refine List.perm_iff_count.2 fun token => ?_
  obtain ⟨new, hsends, hcount⟩ := count_tokens_groups env pending
    (hvisit.nodup_iff.2 (List.nodup_dedup _))
    { seqCounter := seqCounter, readings := 0, archived := [], sends := [], broadcastOk := false } token
  rw [flushGroups, hsends, List.nil_append, hcount]
  split_ifs with hkey
  · rfl
  · -- no ping is of that group
    refine (List.count_eq_zero.2 fun hmem => hkey ?_).symm
    obtain ⟨p, hp, rfl⟩ := List.mem_map.1 hmem
    exact hvisit.mem_iff.2 (List.mem_dedup.2 (List.mem_map_of_mem hp))

/-- The payload is the signed notification of the feeds. -/
def Send.SignedBy (signingKey : SigningKey) (n : Send) : Prop :=
  ∃ seq timestamp, n.payload = (GossipNotification.new signingKey.pubkeyHex n.mediumStr n.reasonStr n.iris
    (some seq) timestamp).signedPayload signingKey

/-- What a flush hands over is signed. -/
theorem signedBy_of_mem (seqCounter : UInt64) {n : Send}
    (h : n ∈ (flushGroups env seqCounter pending).sends) : n.SignedBy env.signingKey := by
  refine flushGroups_induction (P := fun st => ∀ n ∈ st.sends, n.SignedBy env.signingKey)
    (fun _ n hn => absurd hn List.not_mem_nil) (fun _ _ h => h) (fun key st chunkIris h n hn => ?_)
    seqCounter pending n h
  rcases List.mem_append.1 hn with hn | hn
  · exact h n hn
  · obtain rfl := List.mem_singleton.1 hn
    exact ⟨st.seqCounter, env.clock st.readings, rfl⟩

end Flush

/-! ### The broadcast task -/

namespace Task

variable {π : Type*} {t : Task π}

/-- The task has broadcast what it took, and nothing else. -/
structure Honest (t : Task π) : Prop extends t.Conserved where
  /-- Each payload on the record was taken. -/
  taken : t.broadcasts.map Prod.fst ⊆ t.received

theorem honest_init (now : ℕ) : (init now : Task π).Honest := ⟨conserved_init now, List.nil_subset _⟩

theorem Honest.notified (h : t.Honest) (requested forced : Bool) (a : Attempt) :
    (t.step (.notified requested forced a)).Honest ∧
      (t.step (.notified requested forced a)).received = t.received := by
  have hsame := samePlaces_notified t requested forced a
  refine ⟨⟨h.toConserved.step _, ?_⟩, hsame.1.symm⟩
  rw [broadcasts_notified]
  exact hsame.1 ▸ h.taken

theorem Honest.tried (h : t.Honest) (p : π) (outcome : Delivery) : (t.tried p outcome).Honest := by
  refine ⟨h.toConserved.tried p outcome, ?_⟩
  rw [broadcasts_tried, received_tried, List.map_append]
  have hbefore := List.Subset.trans h.taken (List.subset_append_left t.received [p])
  exact List.append_subset.2 ⟨hbefore, List.subset_append_right _ _⟩

/-- A reconnect broadcasts from the queue, which was taken. -/
theorem Honest.afterFailures (h : t.Honest) (a : Attempt) :
    (t.afterFailures a).Honest ∧ (t.afterFailures a).received = t.received := by
  have hreceived := received_afterFailures t a
  refine ⟨⟨h.toConserved.afterFailures a, ?_⟩, hreceived⟩
  rw [hreceived]
  simp only [Task.afterFailures]
  split_ifs
  · exact h.taken
  · show (t.broadcasts ++ (replay a.sends 0 t.retryQueue).1).map Prod.fst ⊆ t.received
    rw [List.map_append]
    have hqueue := replay_prefix a.sends 0 t.retryQueue
    exact List.append_subset.2 ⟨h.taken, List.Subset.trans hqueue.subset h.ordered.subset⟩
  · exact h.taken
  · exact h.taken

theorem Honest.payload (h : t.Honest) (p : π) (outcome : Delivery) (a : Attempt) :
    (t.step (.payload p outcome a)).Honest ∧
      (t.step (.payload p outcome a)).received = t.received ++ [p] := by
  obtain ⟨hhonest, hreceived⟩ := (h.tried p outcome).afterFailures a
  exact ⟨hhonest, hreceived.trans (received_tried t p outcome)⟩

end Task

/-! ### The process -/

/-- The key that a label signs with. -/
def ProcessLabel.Uses (signingKey : SigningKey) : ProcessLabel → Prop
  | .check env | .timed _ env => env.signingKey = signingKey
  | _ => True

namespace Process

/-- The pings that the ZMQ thread received and has not handed over. -/
def waiting (s : Process) : List Token :=
  match s.zmq with
  | .sending _ rest _ => rest.flatMap Send.tokens
  | .replying _ _ _ => []
  | _ => s.pending.map PendingPing.token

/-- The payload that the broadcast task is at. -/
def inHand (s : Process) : List Payload :=
  match s.broadcaster with
  | .taken p | .checked p | .calling p => [p]
  | _ => []

/-- The payloads that the process has or had. -/
def onHand (s : Process) : List Payload := s.channel ++ (s.inHand ++ s.task.received)

/-- What the ZMQ thread owes: the notifications left to send are signed, a ping of the batch is in one
that was handed over or is left to send, and a ping left to reply to is in one that was handed over. -/
def Owes (signingKey : SigningKey) (handed : List Send) (s : Process) : Prop :=
  match s.zmq with
  | .sending _ rest _ => (∀ n ∈ rest, n.SignedBy signingKey) ∧
      ∀ p ∈ s.pending, ∃ n, (n ∈ handed ∨ n ∈ rest) ∧ n.Holds p
  | .replying _ rest _ => ∀ p ∈ rest, ∃ n ∈ handed, n.Holds p
  | _ => True

/-- What the process keeps, where `handed` are the notifications that were handed to the channel. -/
structure Promised (signingKey : SigningKey) (handed : List Send) (s : Process) : Prop where
  /-- The ZMQ thread owes what it can give. -/
  owes : s.Owes signingKey handed
  /-- Its notifications come from the channel. -/
  known : ∀ n, .notification n ∈ s.onHand → n ∈ handed
  /-- The broadcast task broadcasts what it took. -/
  honest : s.task.Honest

variable {signingKey : SigningKey} {handed : List Send} {s t : Process}

theorem promised_init (now : ℕ) : (init now).Promised signingKey handed where
  owes := trivial
  known _ hn := absurd hn List.not_mem_nil
  honest := Task.honest_init now

/-- What is passed to `sender.broadcast` was handed to the channel. -/
theorem Promised.passed (h : s.Promised signingKey handed) {n : Send}
    (hn : .notification n ∈ s.passed) : n ∈ handed := by
  refine h.known n ?_
  rcases List.mem_append.1 hn with hn | hn
  · exact List.mem_append_right _ (List.mem_append_right _ (h.honest.taken hn))
  · refine List.mem_append_right _ (List.mem_append_left _ ?_)
    rw [inHand]
    cases hb : s.broadcaster with
    | calling p =>
      rw [hb] at hn
      exact hn
    | _ =>
      rw [hb] at hn
      exact absurd hn List.not_mem_nil

theorem Promised.mono (h : s.Promised signingKey handed) {more : List Send} (hle : handed ⊆ more) :
    s.Promised signingKey more where
  owes := by
    have howes := h.owes
    unfold Owes at howes ⊢
    split
    · rename_i hz
      simp only [hz] at howes
      refine ⟨howes.1, fun p hp => ?_⟩
      obtain ⟨n, hn, hholds⟩ := howes.2 p hp
      exact ⟨n, hn.imp_left fun hn => hle hn, hholds⟩
    · rename_i hz
      simp only [hz] at howes
      intro p hp
      obtain ⟨n, hn, hholds⟩ := howes p hp
      exact ⟨n, hle hn, hholds⟩
    · trivial
  known n hn := hle (h.known n hn)
  honest := h.honest

/-- The flush begins: each pending ping is in one of its notifications. -/
theorem Promised.startFlush (h : s.Promised signingKey handed) {env : Env} (last : Bool)
    (henv : env.signingKey = signingKey) : (s.startFlush env last).Promised signingKey handed where
  owes := by
    refine ⟨fun n hn => henv ▸ signedBy_of_mem s.seqCounter hn, fun p hp => ?_⟩
    obtain ⟨n, hn, hholds⟩ := mem_flushGroups_sends env s.seqCounter hp
    exact ⟨n, .inr hn, hholds⟩
  known := h.known
  honest := h.honest

/-- A step of the ZMQ thread that takes no ping, hands over no notification and sends no reply. -/
theorem Promised.quiet (h : s.Promised signingKey handed) {a : ProcessLabel} (ha : a.Uses signingKey)
    (hreceived : ∀ p, a ≠ .received (some p)) (hsend : a ≠ .send) (hreply : ∀ ok, a ≠ .reply ok)
    (hstep : s.zmqStep a = some t) :
    t.Promised signingKey handed ∧ t.waiting.Perm s.waiting := by
  cases a with
  | check env =>
    simp only [zmqStep] at hstep
    split at hstep
    · rename_i hz
      have hwaiting : s.waiting = s.pending.map PendingPing.token := by rw [waiting, hz]
      split_ifs at hstep <;> cases hstep
      · exact ⟨⟨trivial, h.known, h.honest⟩, .of_eq hwaiting.symm⟩
      · exact ⟨h.startFlush true ha, hwaiting ▸ perm_flushGroups env s.seqCounter s.pending⟩
      · exact ⟨⟨trivial, h.known, h.honest⟩, .of_eq hwaiting.symm⟩
    · cases hstep
  | received ping =>
    cases ping with
    | some p => exact absurd rfl (hreceived p)
    | none =>
      simp only [zmqStep] at hstep
      split at hstep
      · rename_i hz
        cases hstep
        refine ⟨⟨trivial, h.known, h.honest⟩, .of_eq ?_⟩
        simp only [waiting, hz, Option.toList_none, List.append_nil]
      · cases hstep
  | timed now env =>
    simp only [zmqStep] at hstep
    split at hstep
    · rename_i hz
      have hwaiting : s.waiting = s.pending.map PendingPing.token := by rw [waiting, hz]
      split_ifs at hstep <;> cases hstep
      · exact ⟨h.startFlush false ha, hwaiting ▸ perm_flushGroups env s.seqCounter s.pending⟩
      · exact ⟨⟨trivial, h.known, h.honest⟩, .of_eq hwaiting.symm⟩
    · cases hstep
  | sent =>
    simp only [zmqStep] at hstep
    split at hstep
    · rename_i last batch hz
      cases hstep
      have howes := h.owes
      simp only [Owes, hz] at howes
      refine ⟨⟨fun p hp => ?_, h.known, h.honest⟩, .of_eq ?_⟩
      · split_ifs at hp
        · obtain ⟨n, hn, hholds⟩ := howes.2 p hp
          exact ⟨n, hn.resolve_right List.not_mem_nil, hholds⟩
        · cases hp
      · simp only [waiting, hz, List.flatMap_nil]
    · cases hstep
  | flushed now =>
    simp only [zmqStep] at hstep
    split at hstep
    · rename_i hz
      cases hstep
      refine ⟨⟨trivial, h.known, h.honest⟩, .of_eq ?_⟩
      simp only [waiting, hz, List.map_nil]
    · rename_i hz
      cases hstep
      refine ⟨⟨trivial, h.known, h.honest⟩, .of_eq ?_⟩
      simp only [waiting, hz, List.map_nil]
    · cases hstep
  | send => exact absurd rfl hsend
  | reply ok => exact absurd rfl (hreply ok)
  | _ => cases hstep

/-- A step of the broadcast task. -/
theorem Promised.broadcastStep (h : s.Promised signingKey handed) {a : ProcessLabel}
    (hstep : s.broadcastStep a = some t) : t.Promised signingKey handed ∧ t.waiting = s.waiting := by
  obtain ⟨hz, hpending, -, -⟩ := frame_broadcastStep hstep
  have howes : t.Owes signingKey handed := by
    unfold Owes
    rw [hz, hpending]
    exact h.owes
  have hwaiting : t.waiting = s.waiting := by rw [waiting, waiting, hz, hpending]
  suffices hrest : t.task.Honest ∧ t.onHand ⊆ s.onHand from
    ⟨⟨howes, fun n hn => h.known n (hrest.2 hn), hrest.1⟩, hwaiting⟩
  cases a with
  | notified requested forced a =>
    simp only [Process.broadcastStep] at hstep
    split at hstep
    · cases hstep
      obtain ⟨hhonest, hreceived⟩ := h.honest.notified requested forced a
      refine ⟨hhonest, ?_⟩
      show s.channel ++ (s.inHand ++ (s.task.step _).received) ⊆ s.onHand
      rw [hreceived]
      exact List.Subset.refl _
    · cases hstep
  | take =>
    simp only [Process.broadcastStep] at hstep
    split at hstep
    · rename_i p channel hb hchannel
      cases hstep
      refine ⟨h.honest, fun q hq => ?_⟩
      simp only [onHand, inHand, hb, hchannel, List.mem_append, List.mem_cons, List.not_mem_nil] at hq ⊢
      tauto
    · cases hstep
  | load =>
    simp only [Process.broadcastStep] at hstep
    split at hstep
    · rename_i p hb
      cases hstep
      refine ⟨h.honest, fun q hq => ?_⟩
      by_cases hs : s.shutdown
      · simp only [onHand, inHand, hb, hs, if_true, List.mem_append, List.mem_cons, List.not_mem_nil] at hq ⊢
        tauto
      · simp only [onHand, inHand, hb, if_neg hs] at hq ⊢
        exact hq
    · cases hstep
  | call =>
    simp only [Process.broadcastStep] at hstep
    split at hstep
    · rename_i p hb
      cases hstep
      refine ⟨h.honest, ?_⟩
      simp only [onHand, inHand, hb]
      exact List.Subset.refl _
    · cases hstep
  | result outcome a =>
    simp only [Process.broadcastStep] at hstep
    split at hstep
    · rename_i p hb
      cases hstep
      obtain ⟨hhonest, hreceived⟩ := h.honest.payload p outcome a
      refine ⟨hhonest, fun q hq => ?_⟩
      simp only [onHand, inHand, hb, hreceived, List.mem_append, List.mem_cons, List.not_mem_nil] at hq ⊢
      tauto
    · cases hstep
  | _ => cases hstep

/-- A step of the main task, or of another one. -/
theorem Promised.mainStep (h : s.Promised signingKey handed) {a : ProcessLabel}
    (hstep : s.mainStep a = some t) : t.Promised signingKey handed ∧ t.waiting = s.waiting := by
  cases a with
  | queue bytes =>
    simp only [Process.mainStep] at hstep
    split_ifs at hstep
    cases hstep
    refine ⟨⟨h.owes, fun n hn => h.known n ?_, h.honest⟩, rfl⟩
    simp only [onHand, inHand, List.mem_append, List.mem_singleton, reduceCtorEq, or_false] at hn ⊢
    exact hn
  | signal =>
    simp only [Process.mainStep] at hstep
    split_ifs at hstep
    cases hstep
    exact ⟨⟨h.owes, h.known, h.honest⟩, rfl⟩
  | joined =>
    simp only [Process.mainStep] at hstep
    split at hstep
    · cases hstep
      exact ⟨⟨h.owes, h.known, h.honest⟩, rfl⟩
    · cases hstep
  | closed =>
    simp only [Process.mainStep] at hstep
    split_ifs at hstep
    cases hstep
    exact ⟨⟨h.owes, h.known, h.honest⟩, rfl⟩
  | deadline =>
    simp only [Process.mainStep] at hstep
    split_ifs at hstep
    cases hstep
    exact ⟨⟨h.owes, h.known, h.honest⟩, rfl⟩
  | _ => cases hstep

theorem step_cases {a : ProcessLabel} (h : s.step a = some t) :
    s.zmqStep a = some t ∨ s.broadcastStep a = some t ∨ s.mainStep a = some t := by
  simp only [Process.step] at h
  split at h
  · cases h
  · rcases Option.or_eq_some_iff.1 h with h | ⟨-, h⟩
    · exact .inl h
    · exact .inr ((Option.or_eq_some_iff.1 h).imp_right And.right)

/-- **A step inside the process**: no ping comes or goes. -/
theorem Promised.step_quiet (h : s.Promised signingKey handed) {a : ProcessLabel}
    (ha : a.Uses signingKey) (hreceived : ∀ p, a ≠ .received (some p)) (hsend : a ≠ .send)
    (hreply : ∀ ok, a ≠ .reply ok) (hstep : s.step a = some t) :
    t.Promised signingKey handed ∧ t.waiting.Perm s.waiting := by
  rcases step_cases hstep with hstep | hstep | hstep
  · exact h.quiet ha hreceived hsend hreply hstep
  · obtain ⟨ht, hwaiting⟩ := h.broadcastStep hstep
    exact ⟨ht, .of_eq hwaiting⟩
  · obtain ⟨ht, hwaiting⟩ := h.mainStep hstep
    exact ⟨ht, .of_eq hwaiting⟩

/-- **A ping is received**: it waits. -/
theorem Promised.step_received (h : s.Promised signingKey handed) {p : PendingPing}
    (hstep : s.step (.received (some p)) = some t) :
    t.Promised signingKey handed ∧ t.waiting = s.waiting ++ [p.token] := by
  rcases step_cases hstep with hstep | hstep | hstep
  · simp only [zmqStep] at hstep
    split at hstep
    · rename_i hz
      cases hstep
      refine ⟨⟨trivial, h.known, h.honest⟩, ?_⟩
      simp only [waiting, hz, Option.toList_some, List.map_append, List.map_singleton]
    · cases hstep
  · cases hstep
  · cases hstep

/-- **A notification is handed over**: its pings wait no longer. -/
theorem Promised.step_send (h : s.Promised signingKey handed) {last : Bool} {n : Send} {rest : List Send}
    {batch : Batch} (hz : s.zmq = .sending last (n :: rest) batch) (hstep : s.step .send = some t) :
    t.Promised signingKey (handed ++ [n]) ∧ s.waiting = n.tokens ++ t.waiting ∧ n.SignedBy signingKey := by
  have howes := h.owes
  simp only [Owes, hz] at howes
  obtain ⟨hsigned, hpings⟩ := howes
  have hall : s.Promised signingKey (handed ++ [n]) := h.mono (List.subset_append_left _ _)
  have hrest : (∀ m ∈ rest, m.SignedBy signingKey) ∧
      ∀ p ∈ s.pending, ∃ m, (m ∈ handed ++ [n] ∨ m ∈ rest) ∧ m.Holds p := by
    refine ⟨fun m hm => hsigned m (List.mem_cons_of_mem _ hm), fun p hp => ?_⟩
    obtain ⟨m, hm, hholds⟩ := hpings p hp
    simp only [List.mem_append, List.mem_cons, List.not_mem_nil, or_false] at hm ⊢
    exact ⟨m, by tauto, hholds⟩
  have hfirst := hsigned n List.mem_cons_self
  rcases step_cases hstep with hstep | hstep | hstep
  · simp only [zmqStep, hz, sendNext] at hstep
    split at hstep <;> cases hstep
    · refine ⟨⟨hrest, fun m hm => ?_, h.honest⟩, by simp only [waiting, hz, List.flatMap_cons], hfirst⟩
      -- the channel has it now
      simp only [onHand, inHand, List.mem_append, List.mem_singleton, Payload.notification.injEq] at hm ⊢
      rcases hm with (hm | rfl) | hm
      · exact .inl (h.known m (List.mem_append_left _ hm))
      · exact .inr rfl
      · exact .inl (h.known m (List.mem_append_right _ (List.mem_append.2 hm)))
    · exact ⟨⟨hrest, hall.known, h.honest⟩, by simp only [waiting, hz, List.flatMap_cons], hfirst⟩
    · exact ⟨⟨hrest, hall.known, h.honest⟩, by simp only [waiting, hz, List.flatMap_cons], hfirst⟩
  · cases hstep
  · cases hstep

/-- **A reply is sent**: its ping is in a notification that was handed over. -/
theorem Promised.step_reply (h : s.Promised signingKey handed) {last ok : Bool} {p : PendingPing}
    {rest : List PendingPing} {batch : Batch} (hz : s.zmq = .replying last (p :: rest) batch)
    (hstep : s.step (.reply ok) = some t) :
    t.Promised signingKey handed ∧ t.waiting = s.waiting ∧ ∃ n ∈ handed, n.Holds p := by
  have howes := h.owes
  simp only [Owes, hz] at howes
  obtain ⟨hfirst, hrest⟩ := List.forall_mem_cons.1 howes
  rcases step_cases hstep with hstep | hstep | hstep
  · simp only [zmqStep, hz] at hstep
    cases hstep
    exact ⟨⟨hrest, h.known, h.honest⟩, by simp only [waiting, hz], hfirst⟩
  · cases hstep
  · cases hstep

end Process

end PodpingAlpha.Writer
