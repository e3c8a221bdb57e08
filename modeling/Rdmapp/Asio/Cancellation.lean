/-
  File:      Rdmapp/Asio/Cancellation.lean
  Subject:   A RECV UNDER CANCELLATION: the handler is completed at most once, the callback is
             deleted exactly once.

  Initiating function, poller and any number of cancellation signals race for the handler.
  `recv_raceSafe` is what survives every interleaving. A signal that arrives after the callback
  was deleted finds the handler gone, with one exception: between `destroy_callback` after a
  refused post and the return of the initiating function the local `self_ptr` still holds the
  handler, and a signal in that window completes it (`late_signal_completes`).
-/
import Rdmapp.Asio.Refinement

namespace Rdmapp.Asio

open Lib

/-! ## 1. The handler out of reach -/

/-- The handler is out of the reach of signal `k`: another party has claimed it, or nothing
    holds it any more after a refused post. -/
inductive OutOfReach (k : Nat) (s : OpState) : Prop
  | taken (c : Claimant) (hc : s.claimed = some c) (hk : c ≠ .signal k)
  | expired (hi : s.initiator = .returned) (hq : s.request = .unposted) (hb : s.callback = .deleted)
      (hc : s.claimed = none ∨ s.claimed = some (.signal k)) (hl : s.lockedSelf = 0)
      (hs : s.signal k ≠ .locked) (hn : s.completions = [])

section Reach

variable {strerror : Int → String} {scn : Scenario} {s t : OpState} {a : Action} {k : Nat}

/-- Whoever completes the handler has claimed it. -/
theorem Claim.caller_eq (h : Claim scn s) {c : Completion} (hc : c ∈ s.completions) :
    s.claimed = some c.caller := by
  cases h with
  | unclaimed _ _ _ _ _ hn => simp_all
  | invoked _ _ _ _ _ hn => simp_all
  | delivered hc' _ _ _ _ _ _ hn => simp_all
  | cancelling j hc' _ _ _ _ hj => rcases hj with hj | hj | ⟨_, _, hj | hj⟩ <;> simp_all

/-- A signal out of whose reach the handler is neither holds nor has completed it. -/
theorem OutOfReach.untouched (h : OutOfReach k s) (hi : OpInv scn s) :
    s.signal k ≠ .locked ∧ ∀ c ∈ s.completions, c.caller ≠ .signal k := by
  cases h with
  | taken c hc hk =>
    refine ⟨?_, ?_⟩
    · intro hl
      have hc' := hi.claim.of_active (Or.inr hl)
      rw [hc] at hc'
      exact hk (Option.some.inj hc')
    · intro d hd he
      have hc' := hi.claim.caller_eq hd
      rw [hc, he] at hc'
      exact hk (Option.some.inj hc')
  | expired _ _ _ _ _ hs hn =>
    refine ⟨hs, ?_⟩
    intro c hc
    rw [hn] at hc
    cases hc

/-- A callback that is about to claim the handler finds it unclaimed. -/
theorem OpInv.unclaimed_of_invoke (hi : OpInv scn s) (hd : s.dispatch = .idle)
    (hc : s.awaitable.isRecv = false ∨ s.claimed = none) : s.claimed = none := by
  rcases hc with hr | hc
  · have hclaim := hi.claim
    cases hclaim with
    | unclaimed hc => exact hc
    | cancelling j _ hv =>
      -- a claim by a signal needs the slot, which only a recv has
      have hr' : s.awaitable.isRecv = true := hi.stored.isRecv.trans (hi.stored.slot hv)
      rw [hr] at hr'
      cases hr'
    | _ => simp_all
  · exact hc

/-- Once taken, the handler stays taken by the same claimant. -/
theorem claimed_step (hi : OpInv scn s) (ht : OpStep scn s a t) {c : Claimant}
    (hc : s.claimed = some c) : t.claimed = some c := by
  cases ht with
  | invokeClaimed hq hd hn =>
    rw [hi.unclaimed_of_invoke hd hn] at hc
    cases hc
  | signalWon k type ht hs hk hn =>
    rw [hn] at hc
    cases hc
  | _ => exact hc

theorem update_done_ne_locked {f : Nat → Signal} (j : Nat) (h : f k ≠ .locked) :
    Function.update f j .done k ≠ .locked := by
  by_cases hk : k = j
  · rw [hk, Function.update_self]
    decide
  · rw [Function.update_of_ne hk]
    exact h

/-- **Out of reach is for good.** -/
theorem OutOfReach.step (h : OutOfReach k s) (hi : OpInv scn s) (ht : OpStep scn s a t) :
    OutOfReach k t := by
  cases h with
  | taken c hc hk => exact .taken c (claimed_step hi ht hc) hk
  | expired hr hq hb hc hl hs hn =>
    have hd : s.dispatch = .idle :=
      Classical.byContradiction fun h => by simpa [hq] using hi.life.polled_of_invoked h
    cases ht with
    | signalNothing => exact .expired hr hq hb hc hl hs hn
    | signalLate j type ha hj hc' =>
      exact .expired hr hq hb hc hl (update_done_ne_locked j hs) hn
    | signalWon j type hne ha hj hc' =>
      by_cases hk : j = k
      · refine .expired hr hq hb (Or.inr (hk ▸ rfl)) hl ?_ hn
        dsimp only
        rw [hk, Function.update_self]
        decide
      · exact .taken (.signal j) rfl fun h => hk (Claimant.signal.inj h)
    | lockLive j hj hp =>
      -- no reference is left: initiating function, callback and signals have let go
      unfold OpState.selfRefs OpState.localSelf at hp
      rw [hr, hb, hl] at hp
      exact absurd hp (by decide)
    | lockExpired j hj hp =>
      exact .expired hr hq hb hc hl (update_done_ne_locked j hs) hn
    | signalComplete j hj =>
      have hc' := hi.claim.of_active (Or.inr hj)
      have hk : j = k := by simp_all
      exact absurd (hk ▸ hj) hs
    | _ => simp_all

/-- What is out of reach of a signal stays untouched by it in every later state. -/
theorem OutOfReach.reach (h : OutOfReach k s) (hi : OpInv scn s)
    (ht : (machine strerror scn).Reach s t) :
    t.signal k ≠ .locked ∧ ∀ c ∈ t.completions, c.caller ≠ .signal k := by
  have hinv : OutOfReach k t ∧ OpInv scn t :=
    ht.invariant (P := fun t => OutOfReach k t ∧ OpInv scn t) ⟨h, hi⟩ fun u a v hu _ hs =>
      ⟨hu.1.step hu.2 (opStep_of_step hs).2, hu.2.step hs⟩
  exact hinv.1.untouched hinv.2

end Reach

/-! ## 2. What survives the race -/

/-- What holds of a state of a recv, whatever the interleaving was. -/
structure RaceSafe (strerror : Int → String) (scn : Scenario) (s : OpState) : Prop where
  /-- `self->complete` is called at most once. -/
  completedOnce : s.completions.length ≤ 1
  /-- By the callback: with the result of the completion entry. -/
  byCallback : ∀ c ∈ s.completions, c.caller = .callback →
    c.exception = none ∧ scn.entryResult = .ok c.result
  /-- By a signal: with `operation_aborted` and an empty result. -/
  bySignal : ∀ c ∈ s.completions, ∀ k, c.caller = .signal k →
    c.exception = some .operationAborted ∧ c.result = emptyResult
  /-- A signal of type none has no effect. -/
  noneIgnored : ∀ k t, step strerror scn s (.signal k cancellationTypeNone) = some t → t = s
  invokedOnce : s.invocations ≤ 1
  deletedOnce : s.deletions ≤ 1
  /-- The callback is deleted after its invocation, or after a refused post. -/
  deletedAfter : s.deletions = 1 →
    (scn.env.accepts = true ∧ s.invocations = 1 ∧ s.dispatch = .finished) ∨
    (scn.env.accepts = false ∧ s.invocations = 0)
  notUsedAfter : s.usedAfterDelete = false
  /-- The operation comes to rest, with the callback deleted. -/
  comesToRest : ∃ t, (machine strerror scn).ReachIf (fun _ a => a.isSignal = false) s t ∧
    Quiet strerror scn t
  deletedAtRest : Quiet strerror scn s → s.deletions = 1 ∧ s.callback = .deleted
  /-- A signal that arrives after the executor deleted the callback, or after the initiating
      function of a deleted callback returned, neither holds nor completes the handler. -/
  lateUntouched : s.callback = .deleted → s.dispatch = .finished ∨ s.initiator = .returned →
    ∀ k, s.signal k = .idle → ∀ t, (machine strerror scn).Reach s t →
      t.signal k ≠ .locked ∧ ∀ c ∈ t.completions, c.caller ≠ .signal k

section Race

variable {strerror : Int → String} {scn : Scenario} {s : OpState}

theorem Claim.completed (h : Claim scn s) :
    s.completions = [] ∨
    (∃ r, scn.entryResult = .ok r ∧
      s.completions = [⟨.callback, scn.awaitable.unhandledException, r⟩]) ∨
    (∃ k, s.completions = [⟨.signal k, some .operationAborted, emptyResult⟩]) := by
  cases h with
  | unclaimed _ _ _ _ _ hn => exact Or.inl hn
  | invoked _ _ _ _ _ hn => exact Or.inl hn
  | delivered _ _ _ _ _ r hr hn => exact Or.inr (Or.inl ⟨r, hr, hn⟩)
  | cancelling j _ _ _ _ _ hj =>
    rcases hj with ⟨_, _, hn⟩ | ⟨_, _, hn⟩ | ⟨_, _, hn | hn⟩
    · exact Or.inl hn
    · exact Or.inl hn
    · exact Or.inl hn
    · exact Or.inr (Or.inr ⟨j, hn⟩)

/-- A signal of type none returns from the slot's handler at once. -/
theorem step_signal_none (k : Nat) {t : OpState}
    (h : step strerror scn s (.signal k cancellationTypeNone) = some t) : t = s := by
  unfold step at h
  split at h
  · cases h
  · dsimp only at h
    split at h
    · cases h
    · split at h
      · cases h
        unfold onSignal
        rw [if_pos rfl]
      · cases h
        rfl

/-- An operation whose entry is a success does not terminate the process. -/
theorem not_terminated_of_success (hi : OpInv scn s) (hw : scn.wc.status = .success) :
    s.terminated = false := by
  have hc := hi.claim
  cases hc with
  | unclaimed _ _ _ _ hz => exact hz
  | delivered _ _ _ _ hz => exact hz
  | cancelling _ _ _ _ _ hz => exact hz
  | invoked _ _ _ _ hz =>
    refine Classical.byContradiction fun hn => ?_
    obtain ⟨e, he⟩ := hz (by simpa using hn)
    obtain ⟨r, hr⟩ := Awaitable.resume_setFromWc_of_success hw scn.awaitable.presetByteLen
    unfold Scenario.entryResult at he
    rw [hr] at he
    cases he

/-- Once the callback is deleted by the executor, or the function that deleted it has returned,
    the handler is out of reach of every signal still to come. -/
theorem outOfReach_of_deleted (hi : OpInv scn s) (hb : s.callback = .deleted)
    (hd : s.dispatch = .finished ∨ s.initiator = .returned) {k : Nat} (hk : s.signal k = .idle) :
    OutOfReach k s := by
  have hne : s.claimed ≠ some (.signal k) := by
    intro hc
    have hclaim := hi.claim
    cases hclaim with
    | cancelling j hc' _ _ _ _ hj =>
      obtain rfl : j = k := by simp_all
      simp_all
    | _ => simp_all
  cases hc : s.claimed with
  | some c => exact .taken c hc fun h => hne (hc.trans (congrArg some h))
  | none =>
    have hclaim := hi.claim
    have hlife := hi.life
    cases hclaim with
    | unclaimed _ hd' hl _ _ hn =>
      have hr : s.initiator = .returned := by
        rcases hd with hd | hd
        · rw [hd'] at hd
          cases hd
        · exact hd
      have hq : s.request = .unposted := by
        cases hlife with
        | cleaned _ _ hl => exact congrArg (fun x => x.2.1) hl
        | _ => simp_all [OpState.life]
      exact .expired hr hq hb (Or.inl hc) hl (by rw [hk]; decide) hn
    | _ => simp_all

/-- The callback was deleted once, after its invocation or after a refused post, or not yet. -/
theorem Life.deletions_cases (h : Life scn s) :
    (s.deletions = 0 ∧ s.callback ≠ .deleted) ∨
    (s.deletions = 1 ∧ s.callback = .deleted ∧
      ((scn.env.accepts = true ∧ s.invocations = 1 ∧ s.dispatch = .finished) ∨
        (scn.env.accepts = false ∧ s.invocations = 0))) := by
  cases h with
  | cleaned ha _ hl => exact Or.inr (by simp_all [OpState.life])
  | finished ha _ hl => exact Or.inr (by simp_all [OpState.life])
  | _ => exact Or.inl (by simp_all [OpState.life])

theorem Life.invocations_le (h : Life scn s) : s.invocations ≤ 1 ∧ s.usedAfterDelete = false := by
  cases h <;> simp_all [OpState.life]

/-- An operation at rest has deleted its callback, or the process is gone. -/
theorem Settled.deleted (h : Settled scn s) (hz : s.terminated = false) :
    s.deletions = 1 ∧ s.callback = .deleted := by
  cases h with
  | terminated hz' =>
    rw [hz] at hz'
    cases hz'
  | refused _ _ _ hl => simp_all [OpState.life]
  | finished _ _ _ hl => simp_all [OpState.life]

/-- **A recv under any race with cancellation**: the handler is completed at most once, by the
    callback with the entry's result or by a signal with `operation_aborted`; the callback is
    deleted exactly once and never used afterwards; a late signal does not reach the handler. -/
theorem recv_raceSafe (strerror : Int → String) (buf : LocalBuffer) (slotConnected : Bool)
    (env : PostEnv) (wc : IbvWc) (hw : wc.status = .success) (s : OpState)
    (hs : (machine strerror (operationScenario .recv buf slotConnected env wc)).Reach
      (OpState.init (operationScenario .recv buf slotConnected env wc)) s) :
    RaceSafe strerror (operationScenario .recv buf slotConnected env wc) s := by
  have hi := opInv_reach hs
  have hn : (operationScenario .recv buf slotConnected env wc).awaitable.unhandledException = none :=
    QpOperation.unhandledException_awaitable .recv buf
  have hz := not_terminated_of_success hi hw
  have hrest : Quiet strerror (operationScenario .recv buf slotConnected env wc) s →
      s.deletions = 1 ∧ s.callback = .deleted :=
    fun hq => (settled_of_quiet hi.life hq).deleted hz
  obtain ⟨hinv, hused⟩ := hi.life.invocations_le
  refine
    { completedOnce := ?_, byCallback := ?_, bySignal := ?_
      noneIgnored := fun k t h => step_signal_none k h
      invokedOnce := hinv, deletedOnce := ?_, deletedAfter := ?_, notUsedAfter := hused
      comesToRest := exists_quiet hi, deletedAtRest := hrest
      lateUntouched := fun hb hd k hk t ht => (outOfReach_of_deleted hi hb hd hk).reach hi ht }
  · rcases hi.claim.completed with h | ⟨_, _, h⟩ | ⟨_, h⟩ <;> simp [h]
  · intro c hc hcb
    rcases hi.claim.completed with h | ⟨r, hr, h⟩ | ⟨k, h⟩
    · rw [h] at hc
      cases hc
    · rw [h, List.mem_singleton] at hc
      subst hc
      exact ⟨hn, hr⟩
    · rw [h, List.mem_singleton] at hc
      subst hc
      cases hcb
  · intro c hc k hck
    rcases hi.claim.completed with h | ⟨r, hr, h⟩ | ⟨j, h⟩
    · rw [h] at hc
      cases hc
    · rw [h, List.mem_singleton] at hc
      subst hc
      cases hck
    · rw [h, List.mem_singleton] at hc
      subst hc
      exact ⟨rfl, rfl⟩
  · rcases hi.life.deletions_cases with ⟨h, _⟩ | ⟨h, _⟩ <;> omega
  · intro h
    rcases hi.life.deletions_cases with ⟨h', _⟩ | ⟨_, _, h'⟩
    · omega
    · exact h'

/-- A recv on a live QP, cancelled while its request is outstanding. -/
theorem recv_raceSafe_cancelled :
    let scn := operationScenario .recv (.view MrView.null) true ⟨some .postRecvRq, 0⟩
      ⟨8, .success, 0, 0, 0⟩
    let run := (machine (fun _ => "") scn).run (OpState.init scn)
      [.start, .assignSlot, .makeCallback, .post, .signal 0 1, .signalLock 0, .signalComplete 0]
    ∃ s, run = some s ∧ s.completions ≠ [] ∧ RaceSafe (fun _ => "") scn s :=
  ⟨_, rfl, by decide, recv_raceSafe (fun _ => "") (.view MrView.null) true ⟨some .postRecvRq, 0⟩
    ⟨8, .success, 0, 0, 0⟩ rfl _ (Machine.reach_of_run [.start, .assignSlot, .makeCallback,
      .post, .signal 0 1, .signalLock 0, .signalComplete 0] rfl)⟩

/-- A signal that arrives when the callback of a refused post is already deleted, but before the
    initiating function has returned, completes the handler. -/
theorem late_signal_completes :
    ¬ ∀ (buf : LocalBuffer) (slotConnected : Bool) (env : PostEnv) (wc : IbvWc),
      wc.status = .success →
      ∀ s t k, (machine (fun _ => "") (operationScenario .recv buf slotConnected env wc)).Reach
          (OpState.init (operationScenario .recv buf slotConnected env wc)) s →
        s.callback = .deleted → s.signal k = .idle →
        (machine (fun _ => "") (operationScenario .recv buf slotConnected env wc)).Reach s t →
        ∀ c ∈ t.completions, c.caller ≠ .signal k := by
  intro h
  refine h (.view MrView.null) true ⟨none, 0⟩ ⟨8, .success, 0, 0, 0⟩ rfl _ _ 0
    (Machine.reach_of_run
      [.start, .assignSlot, .makeCallback, .post, .destroyCallback] rfl) rfl rfl
    (Machine.reach_of_run [.signal 0 1, .signalLock 0, .signalComplete 0] rfl)
    ⟨.signal 0, some .operationAborted, emptyResult⟩ ?_ rfl
  exact List.mem_cons_self

end Race

end Rdmapp.Asio
