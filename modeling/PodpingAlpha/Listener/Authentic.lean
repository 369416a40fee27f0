import PodpingAlpha.Library.Transition
import PodpingAlpha.Listener.Effects

/-!
# Which notifications are kept

A notification that passes the gate is entered into the sequence numbers, sent on the SSE channel
and stored, on the live path and, but for the numbers, on the catch-up path. The gate compares its
sender with the trusted set; the signature is checked for the status that is printed.

## What is proved

* `authentic_iff_signed` — all that is kept under a trusted set is signed by a member of it, if
  every notification handled under the name of a member is; and only if, where the SSE channel is
  enabled and no step panics.
* `unsigned_kept` — an unsigned notification under the name of a member.
-/

namespace PodpingAlpha.Listener

open Outcome Text Transition

/-- The message is a notification. -/
def Incoming.notification? : Incoming → Option GossipNotification
  | .notification n => some n
  | _ => none

/-- The notification that an input is taken for. -/
def notification? (env : Env) : Input → Option GossipNotification
  | .live (.received content _) => (classify env content).notification?
  | .live _ => none
  | .catchup payload => env.parseGossipNotification payload

/-- With a trusted set, the archive, the SSE channel and the sequence numbers change only by a
notification whose signature verifies and whose sender is in the set. -/
def Authentic (env : Env) (s : Node) (a : Moment × Input) : Prop :=
  s.trustedPublishers.value ≠ ∅ → (after (handle env a.1 a.2) s).sinks ≠ s.sinks →
    ∃ n, notification? env a.2 = some n ∧ n.verifySignature env.ed25519 = .ok true ∧
      n.sender ∈ s.trustedPublishers.value

/-- A notification under the name of a trusted sender is signed by it. -/
def Signed (env : Env) (s : Node) (a : Moment × Input) : Prop :=
  ∀ n, notification? env a.2 = some n → n.sender ∈ s.trustedPublishers.value →
    n.verifySignature env.ed25519 = .ok true

/-- The step does not panic. -/
def Returns (env : Env) (s : Node) (a : Moment × Input) : Prop :=
  Completes (handle env a.1 a.2) (fun _ => True) s

/-! ### The gate -/

variable {env : Env} {s : Node} {m : Moment} {n : GossipNotification} {raw : Bytes}

theorem after_gated_of_not (hadm : ¬Admitted s.trustedPublishers.value n)
    (body : Program Node Unit) : after (gated n body) s = s := by
  rw [← wp_after (P := fun t => t = s), wp_gated, if_neg hadm]
  split_ifs <;> rfl

/-- Only a message that is taken for a notification changes what is kept, and only if it passes the
gate. -/
theorem admitted_of_message {msg : Incoming}
    (h : (after (handleMessage env m raw msg) s).sinks ≠ s.sinks) :
    ∃ n, msg = .notification n ∧ Admitted s.trustedPublishers.value n := by
  cases msg with
  | suggest g => exact absurd (keeps_suggest (fun _ _ => rfl) env m g s) h
  | announce a => exact absurd (keeps_announce (fun _ _ => rfl) (fun _ _ => rfl) env m a s) h
  | endorse a =>
    exact absurd (keeps_endorse (fun _ _ => rfl) (fun _ _ => rfl) (fun _ _ => rfl) env m a s) h
  | ignored => exact absurd rfl h
  | notification n =>
    refine ⟨n, rfl, ?_⟩
    by_contra hadm
    refine h ?_
    show (after (handleNotification env m raw n) s).sinks = _
    rw [handleNotification]
    rw [after_modify_bind, after_gated_of_not (by exact hadm)]
    rfl

theorem admitted_of_handle {a : Input} (h : (after (handle env m a) s).sinks ≠ s.sinks) :
    ∃ n, notification? env a = some n ∧ Admitted s.trustedPublishers.value n := by
  cases a with
  | live ev =>
    cases ev with
    | neighborUp nodeId =>
      exact absurd (keeps_neighborUp (fun _ _ _ => rfl) (fun _ _ _ _ => rfl) env m nodeId s) h
    | neighborDown nodeId => exact absurd (keeps_neighborDown (fun _ _ _ => rfl) env m nodeId s) h
    | lagged => exact absurd rfl h
    | received content deliveredFrom =>
      have hchanged : (after (handleMessage env m content (classify env content))
          { s with uniqueSources := insert deliveredFrom s.uniqueSources }).sinks ≠ s.sinks := h
      obtain ⟨n, hn, hadm⟩ := admitted_of_message hchanged
      exact ⟨n, congrArg Incoming.notification? hn, hadm⟩
  | catchup payload =>
    change (after (catchupPayload env m payload) s).sinks ≠ s.sinks at h
    unfold catchupPayload at h
    cases hparse : env.parseGossipNotification payload with
    | none =>
      rw [hparse] at h
      exact absurd rfl h
    | some n =>
      refine ⟨n, hparse, ?_⟩
      by_contra hadm
      rw [hparse] at h
      exact h (by rw [after_gated_of_not hadm])

theorem authentic_of_signed {a : Moment × Input} (h : Signed env s a) : Authentic env s a := by
  intro hne hchange
  obtain ⟨n, hn, hadm⟩ := admitted_of_handle hchange
  have hsender : n.sender ∈ s.trustedPublishers.value := hadm.resolve_left hne
  exact ⟨n, hn, h n hn hsender, hsender⟩

/-! ### What passes is sent -/

/-- A text more was sent on the SSE channel. -/
def Sent (s t : Node) : Prop := ∃ json, t.sseTx = s.sseTx.map (· ++ [json])

theorem sent_deliver {t : Node} (h : t.sseTx = s.sseTx) (sender : String → String) :
    wp (do
        let display ← cut (short 8 n.sender)
        deliver env m raw n (sender display)) (fun _ u => Sent s u) (fun _ u => u.sseTx = s.sseTx) t := by
  simp only [deliver]
  simp only [wp_bind, wp_cut, wp_modify]
  cases short 8 n.sender with
  | none => exact h
  | some display => exact ⟨_, by rw [h]⟩

theorem sent_show {t : Node} (h : t.sseTx = s.sseTx) :
    wp (showNotification env m raw n) (fun _ u => Sent s u) (fun _ u => u.sseTx = s.sseTx) t := by
  rw [showNotification]
  rw [wp_bind, wp_zoom, wp_read]
  split_ifs
  · exact h
  · exact sent_deliver h _

theorem sent_notification (hadm : Admitted s.trustedPublishers.value n) :
    wp (handleNotification env m raw n) (fun _ t => Sent s t) (fun _ t => t.sseTx = s.sseTx) s := by
  have hseq : Keeps Node.sseTx (recordSeq env n) := keeps_recordSeq (fun _ _ _ => rfl) env n
  rw [handleNotification]
  rw [wp_bind, wp_modify, wp_gated]
  split_ifs
  · rfl
  · rw [wp_bind]
    exact wp_mono (fun _ t ht => sent_show ht) (fun _ _ => id) hseq.wp

theorem sent_catchup (hparse : env.parseGossipNotification raw = some n)
    (hadm : Admitted s.trustedPublishers.value n) :
    wp (catchupPayload env m raw) (fun _ t => Sent s t) (fun _ t => t.sseTx = s.sseTx) s := by
  rw [catchupPayload]
  rw [hparse]
  dsimp only
  rw [wp_gated, if_pos hadm]
  split_ifs
  · rfl
  · exact sent_deliver rfl _

/-- A notification that passes the gate is sent, unless the step panics. -/
theorem sent_handle {a : Input} (hn : notification? env a = some n)
    (hadm : Admitted s.trustedPublishers.value n) :
    wp (handle env m a) (fun _ t => Sent s t) (fun _ t => t.sseTx = s.sseTx) s := by
  cases a with
  | catchup payload => exact sent_catchup hn hadm
  | live ev =>
    cases ev with
    | received content deliveredFrom =>
      change (classify env content).notification? = some n at hn
      refine (wp_bind.trans wp_modify).2 ?_
      cases hclass : classify env content with
      | notification n' =>
        rw [hclass] at hn
        cases hn
        exact sent_notification (by exact hadm)
      | _ =>
        rw [hclass] at hn
        cases hn
    | _ => cases hn

/-- The SSE channel stays enabled. -/
theorem sseEnabled_handle (env : Env) (s : Node) (m : Moment) (a : Input) :
    (after (handle env m a) s).sseTx.isSome = s.sseTx.isSome := by
  by_cases hchange : (after (handle env m a) s).sinks = s.sinks
  · rw [show (after (handle env m a) s).sseTx = s.sseTx from congrArg (·.2.1) hchange]
  · obtain ⟨n, hn, hadm⟩ := admitted_of_handle hchange
    refine (wp_after (P := fun t : Node => t.sseTx.isSome = s.sseTx.isSome)).1 ?_
    refine wp_mono (fun _ t ht => ?_) (fun _ t ht => congrArg Option.isSome ht) (sent_handle hn hadm)
    obtain ⟨json, hjson⟩ := ht
    rw [hjson, Option.isSome_map]

theorem signed_of_authentic {a : Moment × Input} (hsse : s.sseTx.isSome) (hreturns : Returns env s a)
    (h : Authentic env s a) : Signed env s a := by
  intro n hn hsender
  have hchange : (after (handle env a.1 a.2) s).sinks ≠ s.sinks := by
    intro hsame
    obtain ⟨json, hjson⟩ := after_of_completes hreturns (sent_handle hn (.inr hsender))
    obtain ⟨sent, hsent⟩ := Option.isSome_iff_exists.1 hsse
    have hsse' : (after (handle env a.1 a.2) s).sseTx = s.sseTx := congrArg (·.2.1) hsame
    rw [hsse', hsent] at hjson
    simp at hjson
  obtain ⟨n', hn', hverify, -⟩ := h (Finset.ne_empty_of_mem hsender) hchange
  cases hn.symm.trans hn'
  exact hverify

/-! ### Runs -/

/-- **What is kept is authentic**: in every run in which each notification handled under the name of
a trusted sender is signed by it, the archive, the SSE channel and the sequence numbers change, while
there is a trusted set, only by notifications that verify and come from a member of the set at that
moment. Where the SSE channel is enabled and no step panics, in no other run. -/
theorem authentic_iff_signed (env : Env) (s : Node) (as : List (Moment × Input)) :
    (Along (handleStep env) (Signed env) s as → Along (handleStep env) (Authentic env) s as) ∧
      (s.sseTx.isSome → Along (handleStep env) (Returns env) s as →
        Along (handleStep env) (Authentic env) s as → Along (handleStep env) (Signed env) s as) := by
  constructor
  · rw [along_iff_forall, along_iff_forall]
    exact fun h pre a post t has hr => authentic_of_signed (h pre a post t has hr)
  · intro hsse hreturns hauth
    rw [along_iff_forall] at *
    intro pre a post t has hr
    have ht : t.sseTx.isSome := inv_run (I := fun s => s.sseTx.isSome = true) (fun s a t hs h => by
      cases h
      rw [sseEnabled_handle, hs]) hsse hr
    exact signed_of_authentic ht (hreturns pre a post t has hr) (hauth pre a post t has hr)

/-- A notification under the name of the only trusted sender, without a signature: it is stored, sent
and entered into the sequence numbers. -/
theorem unsigned_kept :
    let n : GossipNotification := ⟨"1.0", "aa", 7, "podcast", "update", [], some 3, none⟩
    let s : Node := .start 7 (some "aa") none none (some .empty) true false
    let t := after (handle (plainEnv n) (.fine 7) (.live (.received [1] "peer"))) s
    n.verifySignature (plainEnv n).ed25519 = .ok false ∧ s.trustedPublishers.value = {"aa"} ∧
      t.db ≠ s.db ∧ t.sseTx ≠ s.sseTx ∧ t.lastSeqPerSender.value.lookup "aa" = some 3 ∧
      ¬Authentic (plainEnv n) s (.fine 7, .live (.received [1] "peer")) := by
  intro n s t
  have hdb : t.db ≠ s.db := by decide
  have hsse : t.sseTx ≠ s.sseTx := by decide
  have hseq : t.lastSeqPerSender.value.lookup "aa" = some 3 := by decide
  refine ⟨rfl, by decide, hdb, hsse, hseq, fun h => ?_⟩
  obtain ⟨n', hn', hverify, -⟩ := h (by decide) fun hsame => hdb (congrArg Prod.fst hsame)
  cases hn'
  cases hverify

end PodpingAlpha.Listener
