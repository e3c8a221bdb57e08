/-
  File:      Rdmapp/Asio/Operation.lean
  Subject:   ONE OPERATION AWAITED THROUGH THE ASIO TOKEN, step by step.

  The conversions of `send_awaitable` and `recv_awaitable` to `asio::awaitable` start a composed
  operation. Three parties then work on it:

  * the initiating function: it moves the handler to the heap (`self_ptr`), assigns the
    cancellation slot (a recv with a connected slot), makes the callback, posts, destroys the
    callback when the post is refused, and returns;
  * the poller: it polls the operation's completion entry, invokes the callback and destroys it
    (`execute_callback<use_asio_awaitable_t>`);
  * the cancellation signals: any number of them, of any type, on any thread.

  `step` is one atomic step of one of them; `OpStep` says once and for all what a step can do
  (`opStep_of_step`).
-/
import Rdmapp.Awaitable
import Rdmapp.Lib.Transition

namespace Rdmapp.Asio

open Lib

/-! ## 1. The state of an operation -/

/-- Where the initiating function stands. -/
inductive Initiator where
  | notStarted
  /-- `self_ptr` made. -/
  | started
  /-- The cancellation slot is assigned, or there is none to assign. -/
  | slotDone
  | callbackMade
  /-- `suspend` returned true. -/
  | posted
  /-- `suspend` returned false. -/
  | rejected
  /-- The callback of a refused post is destroyed. -/
  | cleaned
  | returned
  deriving DecidableEq, Repr

/-- The heap callback. -/
inductive Callback where
  | absent
  | live
  | deleted
  deriving DecidableEq, Repr

/-- The operation's work request: outstanding until its own completion entry is polled. -/
inductive Request where
  | unposted
  | outstanding
  | polled
  deriving DecidableEq, Repr

/-- The poller's way through the callback. -/
inductive Dispatch where
  | idle
  /-- The callback is to complete the handler. -/
  | claimed
  /-- The callback found the handler claimed by a cancellation. -/
  | skipped
  | completed
  /-- The callback has returned and is destroyed. -/
  | finished
  deriving DecidableEq, Repr

/-- One emission of the cancellation signal, inside the slot's handler. -/
inductive Signal where
  | idle
  /-- `complete_called` was clear and is now set. -/
  | won
  /-- `self_ptr_view.lock()` succeeded. -/
  | locked
  | done
  deriving DecidableEq, Repr

/-- Who completes the handler. -/
inductive Claimant where
  | callback
  | signal (k : Nat)
  deriving DecidableEq, Repr

/-- A call of `self->complete`. -/
structure Completion where
  caller : Claimant
  exception : Option Exc
  result : OpResult
  deriving DecidableEq, Repr

/-- `asio::cancellation_type`, a bit mask; `none` is zero. -/
abbrev CancellationType := UInt32

def cancellationTypeNone : CancellationType := 0

/-- What the environment decides about an operation. -/
structure Scenario where
  awaitable : Awaitable
  slotConnected : Bool
  env : PostEnv
  /-- The completion entry, if the post is accepted; its `wr_id` is the callback's address. -/
  wc : IbvWc
  deriving DecidableEq, Repr

structure OpState where
  initiator : Initiator
  /-- Who has claimed the handler. For a recv `complete_called` is set exactly when this is
      not `none`; a send has no such flag and its callback claims unconditionally. -/
  claimed : Option Claimant
  slotAssigned : Bool
  callback : Callback
  request : Request
  dispatch : Dispatch
  signal : Nat → Signal
  /-- References to `self` held by signals past `lock()`. -/
  lockedSelf : Nat
  awaitable : Awaitable
  completions : List Completion
  invocations : Nat
  deletions : Nat
  /-- The callback was invoked after its deletion. -/
  usedAfterDelete : Bool
  /-- An exception left a `noexcept` function: `std::terminate`. -/
  terminated : Bool

/-- Before the composed operation is initiated. -/
def OpState.init (scn : Scenario) : OpState where
  initiator := .notStarted
  claimed := none
  slotAssigned := false
  callback := .absent
  request := .unposted
  dispatch := .idle
  signal _ := .idle
  lockedSelf := 0
  awaitable := scn.awaitable
  completions := []
  invocations := 0
  deletions := 0
  usedAfterDelete := false
  terminated := false

/-- The initiating function's local `self_ptr` exists. -/
def OpState.localSelf (s : OpState) : Bool :=
  s.initiator != .notStarted && s.initiator != .returned

/-- The use count of `self`: the initiating function, the callback's capture, signals past
    `lock()`. The cancellation slot's handler holds a weak reference only. -/
def OpState.selfRefs (s : OpState) : Nat :=
  (if s.localSelf then 1 else 0) + (if s.callback = .live then 1 else 0) + s.lockedSelf

/-! ## 2. Steps -/

/-- The actions of initiating function, poller and signals. -/
inductive Action where
  | start
  | assignSlot
  | skipSlot
  | makeCallback
  | post
  | destroyCallback
  | leave
  | poll
  | invoke
  | deliver
  | executorDestroy
  | signal (k : Nat) (type : CancellationType)
  | signalLock (k : Nat)
  | signalComplete (k : Nat)
  deriving DecidableEq, Repr

/-- The static helper `complete(self, awaitable)`: the arguments of `self->complete`. It is
    `noexcept`, so an exception of `resume` does not leave it. -/
def complete (awaitable : Awaitable) : Except Exc (Option Exc × OpResult) :=
  (fun r => (awaitable.unhandledException, r)) <$> awaitable.resume

/-- `recv_result{}`, the result a cancelled recv is completed with. -/
def emptyResult : OpResult := .recv 0 none

/-- The handler `slot.assign` installs, up to its `test_and_set`. -/
def onSignal (s : OpState) (k : Nat) (type : CancellationType) : OpState :=
  if type = cancellationTypeNone then s
  else if s.claimed.isSome then { s with signal := Function.update s.signal k .done }
  else { s with signal := Function.update s.signal k .won, claimed := some (.signal k) }

/-- The callback's body up to the decision who completes. -/
def onInvoke (s : OpState) : OpState :=
  let s := { s with invocations := s.invocations + 1
                    usedAfterDelete := s.usedAfterDelete || s.callback == Callback.deleted }
  if s.awaitable.isRecv && s.claimed.isSome then { s with dispatch := .skipped }
  else { s with dispatch := .claimed, claimed := some .callback }

/-- The rest of the callback: the entry is stored and the handler completed. -/
def onDeliver (scn : Scenario) (s : OpState) : OpState :=
  let awaitable := s.awaitable.setFromWc scn.wc
  match complete awaitable with
  | .ok (e, r) =>
    { s with dispatch := .completed, awaitable := awaitable
             completions := s.completions ++ [⟨.callback, e, r⟩] }
  | .error _ => { s with awaitable := awaitable, terminated := true }

section Step

variable (strerror : Int → String) (scn : Scenario)

/-- The post: `suspend` with the callback's address as `wr_id`. -/
def onPost (s : OpState) : OpState :=
  let r := s.awaitable.suspend strerror scn.env scn.wc.wrId
  if r.ret then
    { s with initiator := .posted, request := .outstanding, awaitable := r.self }
  else { s with initiator := .rejected, awaitable := r.self }

/-- One atomic step; `none` when the action is not possible in the state. -/
def step (s : OpState) (a : Action) : Option OpState :=
  if s.terminated then none else
  match a with
  | .start =>
    if s.initiator = .notStarted then some { s with initiator := .started } else none
  | .assignSlot =>
    if s.initiator = .started ∧ scn.slotConnected = true ∧ s.awaitable.isRecv = true then
      some { s with initiator := .slotDone, slotAssigned := true }
    else none
  | .skipSlot =>
    if s.initiator = .started ∧ ¬ (scn.slotConnected = true ∧ s.awaitable.isRecv = true) then
      some { s with initiator := .slotDone }
    else none
  | .makeCallback =>
    if s.initiator = .slotDone then
      some { s with initiator := .callbackMade, callback := .live }
    else none
  | .post => if s.initiator = .callbackMade then some (onPost strerror scn s) else none
  | .destroyCallback =>
    if s.initiator = .rejected then
      some { s with initiator := .cleaned, callback := .deleted, deletions := s.deletions + 1 }
    else none
  | .leave =>
    if s.initiator = .posted ∨ s.initiator = .cleaned then
      some { s with initiator := .returned }
    else none
  | .poll => if s.request = .outstanding then some { s with request := .polled } else none
  | .invoke =>
    if s.request = .polled ∧ s.dispatch = .idle then some (onInvoke s) else none
  | .deliver => if s.dispatch = .claimed then some (onDeliver scn s) else none
  | .executorDestroy =>
    if s.dispatch = .completed ∨ s.dispatch = .skipped then
      some { s with dispatch := .finished, callback := .deleted, deletions := s.deletions + 1 }
    else none
  | .signal k type =>
    if s.signal k ≠ .idle then none
    else if s.slotAssigned = true then some (onSignal s k type)
    -- no handler is assigned: the emission reaches nothing
    else some s
  | .signalLock k =>
    if s.signal k = .won then
      if 0 < s.selfRefs then
        some { s with signal := Function.update s.signal k .locked
                      lockedSelf := s.lockedSelf + 1 }
      else some { s with signal := Function.update s.signal k .done }
    else none
  | .signalComplete k =>
    if s.signal k = .locked then
      some { s with signal := Function.update s.signal k .done
                    lockedSelf := s.lockedSelf - 1
                    completions := s.completions ++
                      [⟨.signal k, some .operationAborted, emptyResult⟩] }
    else none

/-- The operation as a machine. -/
def machine : Machine OpState Action := ⟨step strerror scn⟩

end Step

theorem complete_of_ok {a : Awaitable} {r : OpResult} (h : a.resume = .ok r) :
    complete a = .ok (a.unhandledException, r) := by
  unfold complete
  rw [h]
  rfl

theorem complete_of_error {a : Awaitable} {e : Exc} (h : a.resume = .error e) :
    complete a = .error e := by
  unfold complete
  rw [h]
  rfl

/-! ## 3. What a step can do -/

section Inversion

variable {strerror : Int → String} {scn : Scenario}

/-- The steps, one constructor for each way an action can go. -/
inductive OpStep (scn : Scenario) (s : OpState) : Action → OpState → Prop
  | start (h : s.initiator = .notStarted) : OpStep scn s .start { s with initiator := .started }
  | assignSlot (h : s.initiator = .started) (hr : s.awaitable.isRecv = true) :
      OpStep scn s .assignSlot { s with initiator := .slotDone, slotAssigned := true }
  | skipSlot (h : s.initiator = .started) :
      OpStep scn s .skipSlot { s with initiator := .slotDone }
  | makeCallback (h : s.initiator = .slotDone) :
      OpStep scn s .makeCallback { s with initiator := .callbackMade, callback := .live }
  | postAccepted (h : s.initiator = .callbackMade) (ha : scn.env.accepts = true) :
      OpStep scn s .post
        { s with initiator := .posted, request := .outstanding
                 awaitable := s.awaitable.presetByteLen }
  | postRefused (h : s.initiator = .callbackMade) (ha : scn.env.accepts = false) (text : String) :
      OpStep scn s .post
        { s with initiator := .rejected
                 awaitable := s.awaitable.presetByteLen.setException (.runtimeError text) }
  | destroyCallback (h : s.initiator = .rejected) :
      OpStep scn s .destroyCallback
        { s with initiator := .cleaned, callback := .deleted, deletions := s.deletions + 1 }
  | leave (h : s.initiator = .posted ∨ s.initiator = .cleaned) :
      OpStep scn s .leave { s with initiator := .returned }
  | poll (h : s.request = .outstanding) : OpStep scn s .poll { s with request := .polled }
  | invokeSkipped (h : s.request = .polled) (hd : s.dispatch = .idle)
      (hr : s.awaitable.isRecv = true) (hc : s.claimed ≠ none) :
      OpStep scn s .invoke
        { s with invocations := s.invocations + 1
                 usedAfterDelete := s.usedAfterDelete || s.callback == Callback.deleted
                 dispatch := .skipped }
  | invokeClaimed (h : s.request = .polled) (hd : s.dispatch = .idle)
      (hc : s.awaitable.isRecv = false ∨ s.claimed = none) :
      OpStep scn s .invoke
        { s with invocations := s.invocations + 1
                 usedAfterDelete := s.usedAfterDelete || s.callback == Callback.deleted
                 dispatch := .claimed, claimed := some .callback }
  | delivered (hd : s.dispatch = .claimed) (r : OpResult)
      (hr : (s.awaitable.setFromWc scn.wc).resume = .ok r) :
      OpStep scn s .deliver
        { s with dispatch := .completed, awaitable := s.awaitable.setFromWc scn.wc
                 completions := s.completions ++
                   [⟨.callback, s.awaitable.unhandledException, r⟩] }
  | deliverFailed (hd : s.dispatch = .claimed) (e : Exc)
      (hr : (s.awaitable.setFromWc scn.wc).resume = .error e) :
      OpStep scn s .deliver
        { s with awaitable := s.awaitable.setFromWc scn.wc, terminated := true }
  | executorDestroy (h : s.dispatch = .completed ∨ s.dispatch = .skipped) :
      OpStep scn s .executorDestroy
        { s with dispatch := .finished, callback := .deleted, deletions := s.deletions + 1 }
  | signalNothing (k : Nat) (type : CancellationType)
      (h : type = cancellationTypeNone ∨ s.slotAssigned = false) :
      OpStep scn s (.signal k type) s
  | signalLate (k : Nat) (type : CancellationType) (hs : s.slotAssigned = true)
      (hk : s.signal k = .idle) (hc : s.claimed ≠ none) :
      OpStep scn s (.signal k type) { s with signal := Function.update s.signal k .done }
  | signalWon (k : Nat) (type : CancellationType) (ht : type ≠ cancellationTypeNone)
      (hs : s.slotAssigned = true) (hk : s.signal k = .idle) (hc : s.claimed = none) :
      OpStep scn s (.signal k type)
        { s with signal := Function.update s.signal k .won, claimed := some (.signal k) }
  | lockLive (k : Nat) (hk : s.signal k = .won) (hl : 0 < s.selfRefs) :
      OpStep scn s (.signalLock k)
        { s with signal := Function.update s.signal k .locked, lockedSelf := s.lockedSelf + 1 }
  | lockExpired (k : Nat) (hk : s.signal k = .won) (hl : s.selfRefs = 0) :
      OpStep scn s (.signalLock k) { s with signal := Function.update s.signal k .done }
  | signalComplete (k : Nat) (hk : s.signal k = .locked) :
      OpStep scn s (.signalComplete k)
        { s with signal := Function.update s.signal k .done
                 lockedSelf := s.lockedSelf - 1
                 completions := s.completions ++
                   [⟨.signal k, some .operationAborted, emptyResult⟩] }

/-- **Every step of the machine is one of `OpStep`**, taken before the process terminates. -/
theorem opStep_of_step {s t : OpState} {a : Action} (h : step strerror scn s a = some t) :
    s.terminated = false ∧ OpStep scn s a t := by
  unfold step at h
  split at h
  · cases h
  rename_i hz
  refine ⟨by simpa using hz, ?_⟩
  cases a with
  | start =>
    obtain ⟨hi, h⟩ := Option.ite_none_right_eq_some.mp h
    cases h
    exact .start hi
  | assignSlot =>
    obtain ⟨hi, h⟩ := Option.ite_none_right_eq_some.mp h
    cases h
    exact .assignSlot hi.1 hi.2.2
  | skipSlot =>
    obtain ⟨hi, h⟩ := Option.ite_none_right_eq_some.mp h
    cases h
    exact .skipSlot hi.1
  | makeCallback =>
    obtain ⟨hi, h⟩ := Option.ite_none_right_eq_some.mp h
    cases h
    exact .makeCallback hi
  | post =>
    obtain ⟨hi, h⟩ := Option.ite_none_right_eq_some.mp h
    cases h
    unfold onPost
    cases ha : scn.env.accepts with
    | true =>
      rw [Awaitable.suspend_of_accepts ha]
      exact .postAccepted hi ha
    | false =>
      obtain ⟨text, ht⟩ :=
        Awaitable.suspend_of_refuses strerror ha scn.wc.wrId s.awaitable
      rw [ht]
      exact .postRefused hi ha text
  | destroyCallback =>
    obtain ⟨hi, h⟩ := Option.ite_none_right_eq_some.mp h
    cases h
    exact .destroyCallback hi
  | leave =>
    obtain ⟨hi, h⟩ := Option.ite_none_right_eq_some.mp h
    cases h
    exact .leave hi
  | poll =>
    obtain ⟨hi, h⟩ := Option.ite_none_right_eq_some.mp h
    cases h
    exact .poll hi
  | invoke =>
    obtain ⟨hi, h⟩ := Option.ite_none_right_eq_some.mp h
    cases h
    unfold onInvoke
    dsimp only
    split
    · rename_i hc
      rw [Bool.and_eq_true, Option.isSome_iff_ne_none] at hc
      exact .invokeSkipped hi.1 hi.2 hc.1 hc.2
    · rename_i hc
      refine .invokeClaimed hi.1 hi.2 ?_
      rw [Bool.and_eq_true, Option.isSome_iff_ne_none] at hc
      by_cases hr : s.awaitable.isRecv = true
      · exact Or.inr (Classical.byContradiction fun hn => hc ⟨hr, hn⟩)
      · exact Or.inl (by simpa using hr)
  | deliver =>
    obtain ⟨hi, h⟩ := Option.ite_none_right_eq_some.mp h
    cases h
    unfold onDeliver
    cases hr : (s.awaitable.setFromWc scn.wc).resume with
    | ok r =>
      simp only [complete_of_ok hr, Awaitable.unhandledException_setFromWc]
      exact .delivered hi r hr
    | error e =>
      simp only [complete_of_error hr]
      exact .deliverFailed hi e hr
  | executorDestroy =>
    obtain ⟨hi, h⟩ := Option.ite_none_right_eq_some.mp h
    cases h
    exact .executorDestroy hi
  | signal k type =>
    dsimp only at h
    split at h
    · cases h
    · rename_i hk
      have hk' : s.signal k = .idle := Classical.byContradiction fun hn => hk hn
      split at h
      · rename_i hs
        cases h
        unfold onSignal
        split
        · rename_i ht
          exact .signalNothing k type (Or.inl ht)
        · rename_i ht
          split
          · rename_i hc
            exact .signalLate k type hs hk' (Option.isSome_iff_ne_none.mp hc)
          · rename_i hc
            exact .signalWon k type ht hs hk' (by simpa using hc)
      · rename_i hs
        cases h
        exact .signalNothing k type (Or.inr (by simpa using hs))
  | signalLock k =>
    obtain ⟨hk, h⟩ := Option.ite_none_right_eq_some.mp h
    split at h
    · rename_i hl
      cases h
      exact .lockLive k hk hl
    · rename_i hl
      cases h
      exact .lockExpired k hk (by omega)
  | signalComplete k =>
    obtain ⟨hk, h⟩ := Option.ite_none_right_eq_some.mp h
    cases h
    exact .signalComplete k hk

end Inversion

end Rdmapp.Asio
