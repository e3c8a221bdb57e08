/-
  File:      Rdmapp/Asio/Refinement.lean
  Subject:   THE ASIO TOKEN AGAINST THE NATIVE TOKEN: what the awaiting coroutine observes.

  Under the native token the coroutine's own `await_suspend` posts, and a refused post resumes it
  at once, so `await_resume` throws the stored exception. Under the asio token the coroutine is
  resumed by `self->complete` only. The two agree exactly on the operations that are posted and
  complete with success (`refinesNative_iff`): a refused post destroys the callback and nobody
  completes the handler, and `complete` is `noexcept` around a `resume` that throws.
-/
import Rdmapp.Asio.Invariant

namespace Rdmapp.Asio

open Lib

/-! ## 1. Outcomes -/

/-- What becomes of the coroutine at its `co_await`. -/
inductive Outcome where
  | returned (r : OpResult)
  | threw (e : Exc)
  /-- `std::terminate`. -/
  | terminated
  /-- The coroutine is destroyed without having been resumed. -/
  | dropped
  deriving DecidableEq, Repr

/-- `co_await` through `use_native_awaitable`, by the coroutine `h`: `await_suspend`, the
    poller's `set_from_wc` when it returned true, `await_resume`. -/
def awaitNative (strerror : Int → String) (env : PostEnv) (wc : IbvWc) (h : Nat) (a : Awaitable) :
    Outcome :=
  let r := a.awaitSuspend strerror env h wc.wrId
  let resumed := if r.ret then r.self.setFromWc wc else r.self
  match resumed.awaitResume with
  | .ok r => .returned r
  | .error e => .threw e

/-- What the coroutine behind the handler observes once the operation is at rest: the handler
    rethrows the exception it is completed with, or returns the result. -/
def OpState.outcome (s : OpState) : Outcome :=
  if s.terminated then .terminated
  else match s.completions with
    | [] => .dropped
    | c :: _ =>
      match c.exception with
      | some e => .threw e
      | none => .returned c.result

/-- The states reached without a cancellation signal. -/
abbrev Uncancelled (strerror : Int → String) (scn : Scenario) : OpState → Prop :=
  (machine strerror scn).ReachIf (fun _ a => a.isSignal = false) (OpState.init scn)

/-- The post is refused, or the completion entry has an error status. -/
def fails (env : PostEnv) (wc : IbvWc) : Prop := env.accepts = false ∨ wc.status ≠ .success

/-- The handler was completed exactly once, with an exception, and the process lives. -/
def CompletedWithException (s : OpState) : Prop :=
  s.terminated = false ∧ ∃ c e, s.completions = [c] ∧ c.exception = some e

/-- Every uncancelled run of the operation through the asio token comes to rest, and at rest
    the coroutine observes what it observes through the native token, where the two completion
    entries differ at most in the `wr_id`. In a failing environment that is an exception. -/
def RefinesNative (strerror : Int → String) (scn : Scenario) (wrId : UInt64) (h : Nat) : Prop :=
  (∀ s, Uncancelled strerror scn s →
    ∃ t, (machine strerror scn).ReachIf (fun _ a => a.isSignal = false) s t ∧
      Quiet strerror scn t) ∧
  ∀ s, Uncancelled strerror scn s → Quiet strerror scn s →
    s.outcome = awaitNative strerror scn.env { scn.wc with wrId := wrId } h scn.awaitable ∧
    (fails scn.env scn.wc → CompletedWithException s)

/-! ## 2. The native path -/

section Native

variable {strerror : Int → String} {env : PostEnv} {wc : IbvWc}

theorem awaitNative_of_accepts (ha : env.accepts = true) (wc : IbvWc) (h : Nat) {a : Awaitable}
    (he : a.unhandledException = none) :
    awaitNative strerror env wc h a =
      match (a.presetByteLen.setFromWc wc).resume with
      | .ok r => .returned r
      | .error e => .threw e := by
  unfold awaitNative Awaitable.awaitSuspend Awaitable.awaitResume
  rw [Awaitable.suspend_of_accepts ha]
  dsimp only
  rw [if_pos rfl, Awaitable.unhandledException_setFromWc, Awaitable.unhandledException_presetByteLen,
    Awaitable.unhandledException_setCoroHandle, he]
  dsimp only
  rw [Awaitable.resume_setFromWc_setCoroHandle]

end Native

/-! ## 3. The asio path -/

section Observed

variable {strerror : Int → String} {scn : Scenario} {s : OpState}

/-- Without a signal nobody but the callback claims the handler. -/
theorem Uncancelled.claimed (h : Uncancelled strerror scn s) (k : Nat) :
    s.claimed ≠ some (.signal k) := by
  refine h.invariant (P := fun s => s.claimed ≠ some (.signal k)) (fun h => by cases h) ?_
  intro s a t hs ha hstep
  obtain ⟨-, ht⟩ := opStep_of_step hstep
  cases ht with
  | invokeClaimed => intro h; cases h
  | signalNothing | signalLate | signalWon | lockLive | lockExpired | signalComplete => cases ha
  | _ => exact hs

/-- What the coroutine observes when an uncancelled operation is at rest. -/
theorem outcome_of_quiet (h : Uncancelled strerror scn s) (hq : Quiet strerror scn s) :
    (scn.env.accepts = false ∧ s.outcome = .dropped) ∨
    (scn.env.accepts = true ∧ (∃ e, scn.entryResult = .error e) ∧ s.outcome = .terminated) ∨
    (scn.env.accepts = true ∧ s.terminated = false ∧
      ∃ r, scn.entryResult = .ok r ∧
        s.completions = [⟨.callback, scn.awaitable.unhandledException, r⟩]) := by
  have hi := opInv_reach h.reach
  have hc := hi.claim
  cases settled_of_quiet hi.life hq with
  | terminated hz =>
    refine Or.inr (Or.inl ?_)
    cases hc with
    | invoked hc hd hl hs hz' hn =>
      have hq : s.request = .polled := hi.life.polled_of_invoked (by rw [hd]; decide)
      refine ⟨hi.life.accepts_of_request (by rw [hq]; decide), hz' hz, ?_⟩
      unfold OpState.outcome
      rw [if_pos hz]
    | _ => simp_all
  | refused hz ha _ hl =>
    refine Or.inl ⟨ha, ?_⟩
    have hd : s.dispatch = .idle := congrArg (fun x => x.2.2.1) hl
    cases hc with
    | unclaimed _ _ _ _ _ hn =>
      unfold OpState.outcome
      rw [if_neg (by rw [hz]; decide), hn]
    | cancelling j hc => exact absurd hc (h.claimed j)
    | _ => simp_all
  | finished hz ha _ hl =>
    have hd : s.dispatch = .finished := congrArg (fun x => x.2.2.1) hl
    cases hc with
    | delivered _ _ _ _ _ r hr hn => exact Or.inr (Or.inr ⟨ha, hz, r, hr, hn⟩)
    | cancelling j hc => exact absurd hc (h.claimed j)
    | _ => simp_all

end Observed

/-! ## 4. Where the paths agree -/

section Refines

variable {strerror : Int → String} {scn : Scenario}

theorem exists_quiet_uncancelled {s : OpState} (h : Uncancelled strerror scn s) :
    ∃ t, (machine strerror scn).ReachIf (fun _ a => a.isSignal = false) s t ∧
      Quiet strerror scn t :=
  exists_quiet (opInv_reach h.reach)

theorem refines_of_success (ha : scn.env.accepts = true) (hw : scn.wc.status = .success)
    (he : scn.awaitable.unhandledException = none) (wrId : UInt64) (h : Nat) :
    RefinesNative strerror scn wrId h := by
  refine ⟨fun s hs => exists_quiet_uncancelled hs, fun s hs hq => ⟨?_, fun hf => ?_⟩⟩
  · obtain ⟨r, hr⟩ := Awaitable.resume_setFromWc_of_success hw scn.awaitable.presetByteLen
    rw [awaitNative_of_accepts ha _ h he, Awaitable.setFromWc_wrId, hr]
    rcases outcome_of_quiet hs hq with ⟨ha', _⟩ | ⟨_, ⟨e, he'⟩, _⟩ | ⟨_, hz, r', hr', hn⟩
    · rw [ha] at ha'
      cases ha'
    · unfold Scenario.entryResult at he'
      rw [hr] at he'
      cases he'
    · unfold Scenario.entryResult at hr'
      rw [hr] at hr'
      cases hr'
      unfold OpState.outcome
      rw [if_neg (by rw [hz]; decide), hn, he]
  · rcases hf with hf | hf
    · rw [ha] at hf
      cases hf
    · exact absurd hw hf

theorem success_of_refines {wrId : UInt64} {h : Nat} (hr : RefinesNative strerror scn wrId h) :
    scn.env.accepts = true ∧ scn.wc.status = .success := by
  have h₀ : Uncancelled strerror scn (OpState.init scn) := .start
  obtain ⟨t, ht, hq⟩ := exists_quiet_uncancelled h₀
  have ht' : Uncancelled strerror scn t := ht
  obtain ⟨-, hf⟩ := hr.2 t ht' hq
  refine Classical.byContradiction fun hn => ?_
  have hfails : fails scn.env scn.wc := by
    unfold fails
    by_cases ha : scn.env.accepts = true
    · exact Or.inr fun hw => hn ⟨ha, hw⟩
    · exact Or.inl (by simpa using ha)
  obtain ⟨hz, c, e, hc, hce⟩ := hf hfails
  rcases outcome_of_quiet ht' hq with ⟨_, ho⟩ | ⟨_, _, ho⟩ | ⟨ha, _, r, hr', hn'⟩
  · unfold OpState.outcome at ho
    rw [if_neg (by rw [hz]; decide), hc] at ho
    dsimp only at ho
    rw [hce] at ho
    cases ho
  · unfold OpState.outcome at ho
    rw [if_neg (by rw [hz]; decide), hc] at ho
    dsimp only at ho
    rw [hce] at ho
    cases ho
  · rcases hfails with hf | hf
    · rw [ha] at hf
      cases hf
    · obtain ⟨e', he'⟩ := Awaitable.resume_setFromWc_of_error hf scn.awaitable.presetByteLen
      unfold Scenario.entryResult at hr'
      rw [he'] at hr'
      cases hr'

/-- An operation of `basic_qp` awaited through the asio token. -/
def operationScenario (op : QpOperation) (buf : LocalBuffer) (slotConnected : Bool) (env : PostEnv)
    (wc : IbvWc) : Scenario where
  awaitable := op.awaitable buf
  slotConnected := slotConnected
  env := env
  wc := wc

/-- A recv whose entry is `IBV_WC_WR_FLUSH_ERR` terminates the process, and one awaited on an
    expired QP drops its coroutine; through the native token both throw. -/
theorem asio_differs_from_native :
    let flushed := operationScenario .recv (.view MrView.null) false ⟨some .postRecvRq, 0⟩
      ⟨8, .wrFlushErr, 0, 0, 0⟩
    let expired := operationScenario .recv (.view MrView.null) false ⟨none, 0⟩
      ⟨8, .success, 0, 0, 0⟩
    (((machine (fun _ => "") flushed).run (OpState.init flushed)
        [.start, .skipSlot, .makeCallback, .post, .leave, .poll, .invoke, .deliver]).map
        OpState.outcome = some .terminated ∧
      (∃ e, awaitNative (fun _ => "") flushed.env flushed.wc 0 flushed.awaitable = .threw e) ∧
      ¬ RefinesNative (fun _ => "") flushed 8 0) ∧
    (((machine (fun _ => "") expired).run (OpState.init expired)
        [.start, .skipSlot, .makeCallback, .post, .destroyCallback, .leave]).map
        OpState.outcome = some .dropped ∧
      (∃ e, awaitNative (fun _ => "") expired.env expired.wc 0 expired.awaitable = .threw e) ∧
      ¬ RefinesNative (fun _ => "") expired 8 0) := by
  refine ⟨⟨rfl, ⟨_, rfl⟩, fun h => ?_⟩, ⟨rfl, ⟨_, rfl⟩, fun h => ?_⟩⟩
  · obtain ⟨-, hw⟩ := success_of_refines h
    cases hw
  · obtain ⟨ha, -⟩ := success_of_refines h
    cases ha

/-- **For every operation, buffer, environment and completion entry, the asio token gives the
    coroutine what the native token gives it exactly when the post is accepted and the entry
    has status success.** -/
theorem refinesNative_iff (strerror : Int → String) (op : QpOperation) (buf : LocalBuffer)
    (slotConnected : Bool) (env : PostEnv) (wc : IbvWc) (wrId : UInt64) (h : Nat) :
    RefinesNative strerror (operationScenario op buf slotConnected env wc) wrId h ↔
      ((∃ fn, env.qp = some fn) ∧ env.rc = 0) ∧ wc.status = .success := by
  rw [← env.accepts_iff]
  constructor
  · exact success_of_refines
  · intro hs
    exact refines_of_success hs.1 hs.2 (op.unhandledException_awaitable buf) wrId h

end Refines

end Rdmapp.Asio
