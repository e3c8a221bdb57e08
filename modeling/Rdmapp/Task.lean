/-
  File:      Rdmapp/Task.lean
  Subject:   `task<T>`: the final suspension, one `co_await`, and `~task`, on three threads.

  `final_suspend`'s awaiter notifies the promise, tests `continuation_` and transfers; the awaiting
  coroutine asks `done()`, stores itself in `continuation_` and reads the future; `~task` waits on
  the future and destroys the frame. The machine takes these steps in any order, each on the frame
  as it is, and marks a read of the frame after its destruction.

  * `Timely` -- a coroutine stores itself before the test has come out empty, and the frame is
    destroyed when nobody will read it any more.
  * `task_safe_iff_timely` -- along such orders nothing goes wrong, and any other step can be
    continued to a coroutine never resumed or a read of the destroyed frame.

  The two tests the code relies on are not enough for that: `done()` is true before the promise is
  notified, and the promise is ready before `continuation_` is tested.
-/
import Rdmapp.Lib.Transition

namespace Rdmapp
namespace Task

open Lib

/-! ## 1. The shared state -/

/-- `utils::SharedState`. -/
structure SharedState (ε α : Type) where
  ready : Bool
  exception : Option ε
  value : Option α
  deriving DecidableEq, Repr

/-- `value_returner`: what a returned value leaves in the shared state, and what `get` finds. -/
structure ValueReturner (α : Type) where
  store : α → Option α
  load : Option α → Option α
  load_store : ∀ a, load (store a) = some a

/-- `return_value`. -/
def ValueReturner.value (α : Type) : ValueReturner α := ⟨some, id, fun _ => rfl⟩

/-- `return_void`, which sets nothing. -/
def ValueReturner.void : ValueReturner Unit := ⟨fun _ => none, fun _ => some (), fun _ => rfl⟩

section State

variable {ε α : Type}

/-- `SpinPromise::set_value` and `set_exception` with `notify = false`. -/
def SharedState.set (R : ValueReturner α) (s : SharedState ε α) : Except ε α → SharedState ε α
  | .ok a => { s with value := R.store a }
  | .error e => { s with exception := some e }

/-- `SpinPromise::notify`. -/
def SharedState.notify (s : SharedState ε α) : SharedState ε α := { s with ready := true }

/-- `SpinFuture::get` after its `wait`; nothing if it would read an empty `optional`. -/
def SharedState.get (R : ValueReturner α) (s : SharedState ε α) : Option (Except ε α) :=
  match s.exception with
  | some e => some (.error e)
  | none => (R.load s.value).map .ok

theorem SharedState.get_set (R : ValueReturner α) (r : Except ε α) :
    SharedState.get R (.set R ⟨false, none, none⟩ r) = some r := by
  cases r with
  | ok a => simp [SharedState.set, SharedState.get, R.load_store]
  | error e => rfl

/-! ## 2. The parties -/

/-- The finishing thread. -/
inductive Final where
  /-- The body runs. -/
  | running
  /-- The result is set. -/
  | returned
  /-- Suspended at the final point: `done()` is true. -/
  | suspended
  | notified
  /-- `continuation_` was tested. -/
  | tested (found : Bool)
  | finished
  /-- It read the frame after its destruction. -/
  | faulted
  deriving DecidableEq, Repr

/-- The awaiting coroutine. -/
inductive Awaiter where
  | idle
  /-- `await_ready` was false: suspended, `await_suspend` still to come. -/
  | checked
  | suspended
  /-- In `await_resume`. -/
  | resuming
  /-- Past the `co_await`. -/
  | resumed
  | faulted
  deriving DecidableEq, Repr

/-- `~task`. -/
inductive Owner where
  | idle
  | waited
  | destroyed
  deriving DecidableEq, Repr

structure State (ε α : Type) where
  final : Final
  awaiter : Awaiter
  owner : Owner
  /-- `handle.done()`. -/
  done : Bool
  /-- `continuation_` holds the awaiting coroutine. -/
  continuation : Bool
  shared : SharedState ε α
  /-- What the body produced. -/
  outcome : Option (Except ε α)
  /-- What the `co_await` gave. -/
  got : Option (Except ε α)
  suspensions : Nat
  resumptions : Nat
  deriving Repr

def State.start : State ε α where
  final := .running
  awaiter := .idle
  owner := .idle
  done := false
  continuation := false
  shared := ⟨false, none, none⟩
  outcome := none
  got := none
  suspensions := 0
  resumptions := 0

inductive Action (ε α : Type) where
  /-- The body ends: `return_value` or `return_void`, or `unhandled_exception`. -/
  | bodyEnds (r : Except ε α)
  /-- `co_await final_suspend()` suspends the coroutine. -/
  | finalSuspend
  /-- `h.promise().set_return_value()`. -/
  | notify
  /-- `if (h.promise().continuation_)`. -/
  | test
  /-- `return h.promise().continuation_`, or of the noop coroutine. -/
  | transfer
  | awaitReady
  | awaitSuspend
  | awaitResume
  /-- `get_future().wait()` in `~task`. -/
  | wait
  /-- `h_.destroy()`. -/
  | destroy
  deriving Repr

/-! ## 3. The machine -/

def step (R : ValueReturner α) (s : State ε α) : Action ε α → Option (State ε α)
  | .bodyEnds r =>
    if s.final = .running then
      some { s with final := .returned, shared := s.shared.set R r, outcome := some r }
    else none
  | .finalSuspend =>
    if s.final = .returned then some { s with final := .suspended, done := true } else none
  | .notify =>
    if s.final = .suspended then
      if s.owner = .destroyed then some { s with final := .faulted }
      else some { s with final := .notified, shared := s.shared.notify }
    else none
  | .test =>
    if s.final = .notified then
      if s.owner = .destroyed then some { s with final := .faulted }
      else some { s with final := .tested s.continuation }
    else none
  | .transfer =>
    match s.final with
    | .tested false => some { s with final := .finished }
    | .tested true =>
      if s.owner = .destroyed then some { s with final := .faulted }
      else
        some { s with
          final := .finished
          awaiter := .resuming
          resumptions := s.resumptions + 1 }
    | _ => none
  | .awaitReady =>
    -- the operand of a `co_await` is a living task
    if s.awaiter = .idle ∧ s.owner = .idle then
      some { s with awaiter := if s.done then .resuming else .checked }
    else none
  | .awaitSuspend =>
    if s.awaiter = .checked then
      if s.owner = .destroyed then some { s with awaiter := .faulted }
      else
        some { s with
          awaiter := .suspended
          continuation := true
          suspensions := s.suspensions + 1 }
    else none
  | .awaitResume =>
    if s.awaiter = .resuming then
      if s.owner = .destroyed then some { s with awaiter := .faulted }
      else if s.shared.ready then
        match s.shared.get R with
        | some r => some { s with awaiter := .resumed, got := some r }
        | none => some { s with awaiter := .faulted }
      else none
    else none
  | .wait =>
    if s.owner = .idle ∧ s.shared.ready then some { s with owner := .waited } else none
  | .destroy => if s.owner = .waited then some { s with owner := .destroyed } else none

def machine (R : ValueReturner α) : Machine (State ε α) (Action ε α) where
  step := step R

/-! ## 4. Safety, and the orders that keep it -/

/-- What a state may not show. -/
structure Safe (s : State ε α) : Prop where
  /-- The final awaiter did not read the frame after its destruction. -/
  frame : s.final ≠ .faulted
  /-- Neither did the awaiting coroutine. -/
  awaited : s.awaiter ≠ .faulted
  /-- When final suspension and `co_await` have taken their steps, the coroutine is resumed as often
      as it suspended, -/
  woken : s.final = .finished → s.awaiter ≠ .checked → s.resumptions = s.suspensions
  /-- at most once, -/
  once : s.resumptions ≤ s.suspensions ∧ s.suspensions ≤ 1
  /-- and it gets what the body produced. -/
  result : s.awaiter = .resumed → s.got = s.outcome ∧ s.got ≠ none

/-- The finishing thread will still read the frame. -/
def Final.readsFrame : Final → Bool
  | .running | .returned | .suspended | .notified | .tested true => true
  | .tested false | .finished | .faulted => false

/-- The awaiting coroutine will not read the frame. -/
def Awaiter.atRest : Awaiter → Bool
  | .idle | .resumed => true
  | _ => false

/-- A step in good time. -/
def Timely (s : State ε α) : Action ε α → Prop
  | .awaitSuspend => s.final ≠ .tested false ∧ s.final ≠ .finished
  | .destroy => s.final.readsFrame = false ∧ s.awaiter.atRest = true
  | _ => True

/-! ## 5. What timely steps keep -/

/-- The final suspension as `done()` and the future show it. -/
def Final.isDone : Final → Bool
  | .running | .returned => false
  | _ => true

def Final.isReady : Final → Bool
  | .running | .returned | .suspended => false
  | _ => true

/-- What the finishing thread has done shows in the frame. -/
structure Shown (R : ValueReturner α) (s : State ε α) : Prop where
  done : s.done = s.final.isDone
  ready : s.shared.ready = s.final.isReady
  fresh : s.final = .running → s.shared = ⟨false, none, none⟩
  result : s.final ≠ .running → ∃ r, s.outcome = some r ∧ s.shared.get R = some r
  found : s.final = .tested true → s.awaiter = .suspended
  sound : s.final ≠ .faulted

/-- Where the awaiting coroutine is. -/
inductive Waits (s : State ε α) : Prop
  /-- It has not stored itself. -/
  | before (ha : s.awaiter = .idle ∨ s.awaiter = .checked) (hc : s.continuation = false)
      (hs : s.suspensions = 0) (hr : s.resumptions = 0)
  /-- It is stored, and the test is still to come or has found it. -/
  | stored (ha : s.awaiter = .suspended) (hc : s.continuation = true) (hs : s.suspensions = 1)
      (hr : s.resumptions = 0) (hf : s.final ≠ .tested false ∧ s.final ≠ .finished)
  /-- It was not suspended, or is resumed. -/
  | past (ha : s.awaiter = .resuming ∨ s.awaiter = .resumed ∧ s.got = s.outcome ∧ s.got ≠ none)
      (hd : s.final.isDone = true)
      (hs : s.continuation = false ∧ s.suspensions = 0 ∧ s.resumptions = 0 ∨
        s.final = .finished ∧ s.suspensions = 1 ∧ s.resumptions = 1)

/-- `~task` waited for the future; it destroyed what nobody will read. -/
structure Owned (s : State ε α) : Prop where
  waited : s.owner ≠ .idle → s.final.isReady = true
  destroyed : s.owner = .destroyed → s.final.readsFrame = false ∧ s.awaiter.atRest = true

structure Inv (R : ValueReturner α) (s : State ε α) : Prop where
  shown : Shown R s
  waits : Waits s
  owned : Owned s

variable {R : ValueReturner α} {s t : State ε α}

theorem inv_start : Inv R (State.start : State ε α) where
  shown := ⟨rfl, rfl, fun _ => rfl, fun h => absurd rfl h, fun h => (nomatch h), fun h => (nomatch h)⟩
  waits := .before (.inl rfl) rfl rfl rfl
  owned := ⟨fun h => absurd rfl h, fun h => (nomatch h)⟩

/-- **What a timely step does.** -/
inductive Moves (R : ValueReturner α) (s : State ε α) : Action ε α → State ε α → Prop
  | bodyEnds (r : Except ε α) (hf : s.final = .running) : Moves R s (.bodyEnds r)
      { s with final := .returned, shared := s.shared.set R r, outcome := some r }
  | finalSuspend (hf : s.final = .returned) :
      Moves R s .finalSuspend { s with final := .suspended, done := true }
  | notify (hf : s.final = .suspended) :
      Moves R s .notify { s with final := .notified, shared := s.shared.notify }
  | test (hf : s.final = .notified) : Moves R s .test { s with final := .tested s.continuation }
  | leave (hf : s.final = .tested false) : Moves R s .transfer { s with final := .finished }
  | transfer (hf : s.final = .tested true) : Moves R s .transfer
      { s with final := .finished, awaiter := .resuming, resumptions := s.resumptions + 1 }
  | awaitReady (ha : s.awaiter = .idle) (ho : s.owner = .idle) : Moves R s .awaitReady
      { s with awaiter := if s.done then .resuming else .checked }
  | awaitSuspend (ha : s.awaiter = .checked) (hf : s.final ≠ .tested false ∧ s.final ≠ .finished) :
      Moves R s .awaitSuspend
        { s with awaiter := .suspended, continuation := true, suspensions := s.suspensions + 1 }
  | awaitResume (ha : s.awaiter = .resuming) (r : Except ε α) (hr : s.shared.get R = some r)
      (hf : s.final.isReady = true) :
      Moves R s .awaitResume { s with awaiter := .resumed, got := some r }
  | wait (hr : s.final.isReady = true) : Moves R s .wait { s with owner := .waited }
  | destroy (ho : s.owner = .waited) (hf : s.final.readsFrame = false)
      (ha : s.awaiter.atRest = true) : Moves R s .destroy { s with owner := .destroyed }

/-- Along timely steps nobody meets a destroyed frame. -/
theorem Inv.moves (hi : Inv R s) {a : Action ε α} (hc : Timely s a)
    (h : Task.step R s a = some t) : Moves R s a t := by
  have hread : s.final.readsFrame = true → s.owner ≠ .destroyed := fun hf ho => by
    simp [(hi.owned.destroyed ho).1] at hf
  have hbusy : s.awaiter.atRest = false → s.owner ≠ .destroyed := fun ha ho => by
    simp [(hi.owned.destroyed ho).2] at ha
  cases a with
  | bodyEnds r =>
    obtain ⟨hf, h⟩ := Option.ite_none_right_eq_some.mp h
    cases h
    exact .bodyEnds r hf
  | finalSuspend =>
    obtain ⟨hf, h⟩ := Option.ite_none_right_eq_some.mp h
    cases h
    exact .finalSuspend hf
  | notify =>
    obtain ⟨hf, h⟩ := Option.ite_none_right_eq_some.mp h
    rw [if_neg (hread (by rw [hf]; rfl))] at h
    cases h
    exact .notify hf
  | test =>
    obtain ⟨hf, h⟩ := Option.ite_none_right_eq_some.mp h
    rw [if_neg (hread (by rw [hf]; rfl))] at h
    cases h
    exact .test hf
  | transfer =>
    simp only [Task.step] at h
    split at h
    next hf =>
      cases h
      exact .leave hf
    next hf =>
      rw [if_neg (hread (by rw [hf]; rfl))] at h
      cases h
      exact .transfer hf
    next => cases h
  | awaitReady =>
    obtain ⟨⟨ha, ho⟩, h⟩ := Option.ite_none_right_eq_some.mp h
    cases h
    exact .awaitReady ha ho
  | awaitSuspend =>
    obtain ⟨ha, h⟩ := Option.ite_none_right_eq_some.mp h
    rw [if_neg (hbusy (by rw [ha]; rfl))] at h
    cases h
    exact .awaitSuspend ha hc
  | awaitResume =>
    obtain ⟨ha, h⟩ := Option.ite_none_right_eq_some.mp h
    rw [if_neg (hbusy (by rw [ha]; rfl))] at h
    obtain ⟨hr, h⟩ := Option.ite_none_right_eq_some.mp h
    rw [hi.shown.ready] at hr
    obtain ⟨r, -, hget⟩ := hi.shown.result fun hf => by simp [hf, Final.isReady] at hr
    rw [hget] at h
    cases h
    exact .awaitResume ha r hget hr
  | wait =>
    obtain ⟨⟨-, hr⟩, h⟩ := Option.ite_none_right_eq_some.mp h
    cases h
    rw [hi.shown.ready] at hr
    exact .wait hr
  | destroy =>
    obtain ⟨ho, h⟩ := Option.ite_none_right_eq_some.mp h
    cases h
    exact .destroy ho hc.1 hc.2

theorem Shown.step (hs : Shown R s) (hw : Waits s) {a : Action ε α} (ht : Moves R s a t) :
    Shown R t := by
  obtain ⟨hdone, hready, hfresh, hresult, hfound, hsound⟩ := hs
  cases ht with
  | bodyEnds r hf =>
    refine ⟨?_, ?_, fun h => (nomatch h), fun _ => ⟨r, rfl, ?_⟩, fun h => (nomatch h),
      fun h => (nomatch h)⟩
    · simpa [hf, Final.isDone] using hdone
    · cases r <;> simpa [hf, Final.isReady, SharedState.set] using hready
    · rw [hfresh hf]
      exact SharedState.get_set R r
  | finalSuspend hf =>
    have := hresult (by simp [hf])
    constructor <;> simp_all [Final.isDone, Final.isReady]
  | notify hf =>
    have := hresult (by simp [hf])
    constructor <;> simp_all [Final.isDone, Final.isReady, SharedState.notify, SharedState.get]
  | test hf =>
    have := hresult (by simp [hf])
    refine ⟨by simpa [hf, Final.isDone] using hdone, by simpa [hf, Final.isReady] using hready,
      fun h => (nomatch h), fun _ => this, fun h => ?_, fun h => (nomatch h)⟩
    -- the awaiting coroutine has stored itself, and nobody has resumed it
    have hc : s.continuation = true := by simpa using h
    cases hw with
    | before ha hc' hs hr => simp [hc] at hc'
    | stored ha hc' hs hr hf' => exact ha
    | past ha hd hs => simp_all
  | leave hf =>
    have := hresult (by simp [hf])
    constructor <;> simp_all [Final.isDone, Final.isReady]
  | transfer hf =>
    have := hresult (by simp [hf])
    constructor <;> simp_all [Final.isDone, Final.isReady]
  | awaitReady ha ho =>
    refine ⟨hdone, hready, hfresh, hresult, fun h => ?_, hsound⟩
    simp [hfound h] at ha
  | awaitSuspend ha hf => exact ⟨hdone, hready, hfresh, hresult, fun _ => rfl, hsound⟩
  | awaitResume ha r hr hf =>
    refine ⟨hdone, hready, hfresh, hresult, fun h => ?_, hsound⟩
    simp [hfound h] at ha
  | wait hr => exact ⟨hdone, hready, hfresh, hresult, hfound, hsound⟩
  | destroy ho hf ha => exact ⟨hdone, hready, hfresh, hresult, hfound, hsound⟩

theorem Waits.step (hw : Waits s) (hs : Shown R s) {a : Action ε α} (ht : Moves R s a t) :
    Waits t := by
  obtain ⟨hdone, hready, hfresh, hresult, hfound, hsound⟩ := hs
  cases ht with
  | bodyEnds r hf =>
    cases hw with
    | before ha hc hs hr => exact .before ha hc hs hr
    | stored ha hc hs hr hf' => exact .stored ha hc hs hr (by simp)
    | past ha hd hs => simp [hf, Final.isDone] at hd
  | finalSuspend hf =>
    cases hw with
    | before ha hc hs hr => exact .before ha hc hs hr
    | stored ha hc hs hr hf' => exact .stored ha hc hs hr (by simp)
    | past ha hd hs => simp [hf, Final.isDone] at hd
  | notify hf =>
    cases hw with
    | before ha hc hs hr => exact .before ha hc hs hr
    | stored ha hc hs hr hf' => exact .stored ha hc hs hr (by simp)
    | past ha hd hs => exact .past ha rfl (.inl (by simpa [hf] using hs))
  | test hf =>
    cases hw with
    | before ha hc hs hr => exact .before ha hc hs hr
    | stored ha hc hs hr hf' => exact .stored ha hc hs hr (by simp [hc])
    | past ha hd hs => exact .past ha rfl (.inl (by simpa [hf] using hs))
  | leave hf =>
    cases hw with
    | before ha hc hs hr => exact .before ha hc hs hr
    | stored ha hc hs hr hf' => exact absurd hf hf'.1
    | past ha hd hs => exact .past ha rfl (.inl (by simpa [hf] using hs))
  | transfer hf =>
    have hsusp := hfound hf
    cases hw with
    | before ha hc hs hr => simp [hsusp] at ha
    | stored ha hc hs hr hf' => exact .past (.inl rfl) rfl (.inr ⟨rfl, hs, by simp [hr]⟩)
    | past ha hd hs => simp [hsusp] at ha
  | awaitReady ha ho =>
    cases hw with
    | before ha' hc hs hr =>
      cases hd : s.done with
      | true => exact .past (.inl (by simp)) (hdone.symm.trans hd) (.inl ⟨hc, hs, hr⟩)
      | false => exact .before (.inr (by simp)) hc hs hr
    | stored ha' hc hs hr hf' => simp [ha] at ha'
    | past ha' hd hs => simp [ha] at ha'
  | awaitSuspend ha hf =>
    cases hw with
    | before ha' hc hs hr => exact .stored rfl rfl (by simp [hs]) hr hf
    | stored ha' hc hs hr hf' => simp [ha] at ha'
    | past ha' hd hs => simp [ha] at ha'
  | awaitResume ha r hr hf =>
    obtain ⟨r', ho, hget⟩ := hresult fun h => by simp [h, Final.isReady] at hf
    obtain rfl : r = r' := Option.some.inj (hr.symm.trans hget)
    cases hw with
    | before ha' hc hs hr => simp [ha] at ha'
    | stored ha' hc hs hr hf' => simp [ha] at ha'
    | past ha' hd hs => exact .past (.inr ⟨rfl, ho.symm, by simp⟩) hd hs
  | wait hr =>
    cases hw with
    | before ha hc hs hr => exact .before ha hc hs hr
    | stored ha hc hs hr hf' => exact .stored ha hc hs hr hf'
    | past ha hd hs => exact .past ha hd hs
  | destroy ho hf ha' =>
    cases hw with
    | before ha hc hs hr => exact .before ha hc hs hr
    | stored ha hc hs hr hf' => exact .stored ha hc hs hr hf'
    | past ha hd hs => exact .past ha hd hs

theorem Owned.step (ho : Owned s) {a : Action ε α} (ht : Moves R s a t) : Owned t := by
  obtain ⟨hwaited, hdestroyed⟩ := ho
  cases ht with
  | wait hr => exact ⟨fun _ => hr, fun h => (nomatch h)⟩
  | destroy ho hf ha => exact ⟨fun _ => hwaited (by simp [ho]), fun _ => ⟨hf, ha⟩⟩
  | _ => constructor <;> simp_all [Final.isReady, Final.readsFrame, Awaiter.atRest]

theorem Inv.step (hi : Inv R s) {a : Action ε α} (hc : Timely s a) (h : Task.step R s a = some t) :
    Inv R t :=
  have ht := hi.moves hc h
  ⟨hi.shown.step hi.waits ht, hi.waits.step hi.shown ht, hi.owned.step ht⟩

theorem inv_reach (h : (machine R).ReachIf Timely State.start s) : Inv R s :=
  h.invariant (P := Inv R) inv_start fun _ _ _ hi hc hs => hi.step hc hs

theorem Inv.safe (hi : Inv R s) : Safe s := by
  have hsound := hi.shown.sound
  cases hi.waits with
  | before ha hc hs hr =>
    refine ⟨hsound, ?_, fun _ _ => hr.trans hs.symm, by omega, fun h => ?_⟩
    · rcases ha with ha | ha <;> simp [ha]
    · rcases ha with ha | ha <;> simp [ha] at h
  | stored ha hc hs hr hf =>
    exact ⟨hsound, by simp [ha], fun h => absurd h hf.2, by omega, fun h => by simp [ha] at h⟩
  | past ha hd hs =>
    refine ⟨hsound, ?_, fun _ _ => by omega, by omega, fun h => ?_⟩
    · rcases ha with ha | ⟨ha, -⟩ <;> simp [ha]
    · rcases ha with ha | ⟨-, hgot⟩
      · simp [ha] at h
      · exact hgot

/-! ## 6. Any other step goes wrong -/

/-- A coroutine that stores itself after the test is not resumed. -/
theorem lost_of_late_store (hi : Inv R s) (h : Task.step R s .awaitSuspend = some t)
    (hf : s.final = .tested false ∨ s.final = .finished) :
    ∃ u, (machine R).Reach t u ∧ ¬ Safe u := by
  obtain ⟨ha, h⟩ := Option.ite_none_right_eq_some.mp h
  have ho : s.owner ≠ .destroyed := fun ho => by
    have := (hi.owned.destroyed ho).2
    simp [ha, Awaiter.atRest] at this
  rw [if_neg ho] at h
  have hcount : s.suspensions = 0 ∧ s.resumptions = 0 := by
    cases hi.waits with
    | before ha' hc hs hr => exact ⟨hs, hr⟩
    | stored ha' hc hs hr hf' => simp [ha] at ha'
    | past ha' hd hs => simp [ha] at ha'
  cases h
  rcases hf with hf | hf
  · refine ⟨_, .step .transfer .start trivial (by simp [machine, Task.step, hf]; rfl), fun hsafe => ?_⟩
    have := hsafe.woken rfl (by simp)
    simp [hcount] at this
  · refine ⟨_, .start, fun hsafe => ?_⟩
    have := hsafe.woken hf (by simp)
    simp [hcount] at this

/-- A frame destroyed before the final awaiter's last read is read by it. -/
theorem read_by_final (hi : Inv R s) (ho : s.owner ≠ .idle) (hf : s.final.readsFrame = true) :
    ∃ u, (machine R).Reach { s with owner := .destroyed } u ∧ ¬ Safe u := by
  have hready := hi.owned.waited ho
  cases hfinal : s.final with
  | running | returned | suspended => simp [hfinal, Final.isReady] at hready
  | finished | faulted => simp [hfinal, Final.readsFrame] at hf
  | notified =>
    refine ⟨{ s with owner := .destroyed, final := .faulted },
      .step .test .start trivial (by simp [machine, Task.step]), fun hsafe => hsafe.frame rfl⟩
  | tested found =>
    cases found with
    | true =>
      refine ⟨{ s with owner := .destroyed, final := .faulted },
        .step .transfer .start trivial (by simp [machine, Task.step]), fun hsafe => hsafe.frame rfl⟩
    | false => simp [hfinal, Final.readsFrame] at hf

/-- A frame destroyed before the awaiting coroutine is past its `co_await` is used by it. -/
theorem read_by_awaiter (hi : Inv R s) (hf : s.final.readsFrame = false)
    (ha : s.awaiter.atRest = false) :
    ∃ u, (machine R).Reach { s with owner := .destroyed } u ∧ ¬ Safe u := by
  have hsound := hi.shown.sound
  cases hawaiter : s.awaiter with
  | idle | resumed => simp [hawaiter, Awaiter.atRest] at ha
  | checked =>
    refine ⟨{ s with owner := .destroyed, awaiter := .faulted },
      .step .awaitSuspend .start trivial (by simp [machine, Task.step]), fun h => h.awaited rfl⟩
  | resuming =>
    refine ⟨{ s with owner := .destroyed, awaiter := .faulted },
      .step .awaitResume .start trivial (by simp [machine, Task.step]), fun h => h.awaited rfl⟩
  | suspended | faulted =>
    cases hi.waits with
    | before ha' => simp [hawaiter] at ha'
    | stored ha' hc hs hr hf' =>
      -- the final awaiter would find it
      cases hfinal : s.final <;> simp_all [Final.readsFrame]
    | past ha' => simp [hawaiter] at ha'

/-- **An untimely step can be continued to a state that is not safe.** -/
theorem unsafe_of_untimely (hi : Inv R s) {a : Action ε α} (h : Task.step R s a = some t)
    (hc : ¬ Timely s a) : ∃ u, (machine R).Reach t u ∧ ¬ Safe u := by
  cases a with
  | awaitSuspend =>
    refine lost_of_late_store hi h ?_
    by_contra hf
    exact hc (not_or.mp hf)
  | destroy =>
    obtain ⟨ho, h⟩ := Option.ite_none_right_eq_some.mp h
    cases h
    by_cases hf : s.final.readsFrame = true
    · exact read_by_final hi (by simp [ho]) hf
    · rw [Bool.not_eq_true] at hf
      refine read_by_awaiter hi hf ?_
      by_contra ha
      exact hc ⟨hf, by simpa using ha⟩
  | _ => exact absurd trivial hc

/-- **The orders of the three threads under which the task is safe.** Along timely steps every
    state is safe: the awaiting coroutine is resumed as often as it suspended, with what the body
    produced, and nobody reads a destroyed frame. From the first step that is not timely a run leads
    to a state that is not. -/
theorem task_safe_iff_timely (R : ValueReturner α) :
    (∀ s : State ε α, (machine R).ReachIf Timely State.start s → Safe s) ∧
    ∀ (s t : State ε α) (a : Action ε α), (machine R).ReachIf Timely State.start s →
      (machine R).step s a = some t → ¬ Timely s a → ∃ u, (machine R).Reach t u ∧ ¬ Safe u :=
  ⟨fun _ h => (inv_reach h).safe, fun _ _ _ h hs hc => unsafe_of_untimely (inv_reach h) hs hc⟩

end State

/-! ## 7. Three orders -/

/-- The steps that are timely in every state. -/
def Action.always {ε α : Type} : Action ε α → Bool
  | .awaitSuspend | .destroy => false
  | _ => true

theorem timely_of_always {ε α : Type} {a : Action ε α} (h : a.always = true) (s : State ε α) :
    Timely s a := by
  cases a with
  | awaitSuspend | destroy => cases h
  | _ => trivial

theorem reachIf_of_always {ε α : Type} {R : ValueReturner α} {s t : State ε α}
    (as : List (Action ε α)) (ha : as.all Action.always = true)
    (h : (machine R).run s as = some t) : (machine R).ReachIf Timely s t :=
  Machine.reachIf_of_run as (fun a hm s => timely_of_always (List.all_eq_true.mp ha a hm) s) h

/-- `done()` is asked before the body ends, the test comes out empty, then the coroutine stores
    itself. -/
def lateStore : List (Action String Unit) :=
  [.awaitReady, .bodyEnds (.ok ()), .finalSuspend, .notify, .test]

/-- A coroutine stored in time, the frame destroyed after it has its result; and the late store. -/
theorem task_safe_iff_timely_void :
    (∃ s : State String Unit, s.owner = .destroyed ∧ s.awaiter = .resumed ∧ Safe s) ∧
    ∃ s t u : State String Unit, (machine .void).run State.start lateStore = some s ∧
      (machine .void).step s .awaitSuspend = some t ∧ (machine .void).Reach t u ∧ ¬ Safe u := by
  obtain ⟨hsafe, hunsafe⟩ := task_safe_iff_timely (ε := String) ValueReturner.void
  constructor
  · refine ⟨_, ?_, ?_, hsafe _ <| .step .destroy (.trans (.step .awaitSuspend
      (reachIf_of_always [.awaitReady] rfl rfl) ⟨by decide, by decide⟩ rfl)
      (reachIf_of_always [.bodyEnds (.ok ()), .finalSuspend, .notify, .test, .transfer,
        .awaitResume, .wait] rfl rfl)) ⟨rfl, rfl⟩ rfl⟩
    · rfl
    · rfl
  · obtain ⟨u, hu⟩ := hunsafe _ _ .awaitSuspend (reachIf_of_always lateStore rfl rfl) rfl
      (fun h => h.1 rfl)
    exact ⟨_, _, u, rfl, rfl, hu⟩

/-- A wake-up lost, and a frame read after its destruction. -/
theorem task_loses_wakeup :
    (∃ s, (machine ValueReturner.void).run (State.start : State String Unit)
        (lateStore ++ [.awaitSuspend, .transfer]) = some s ∧
      s.final = .finished ∧ s.awaiter = .suspended ∧ s.resumptions = 0) ∧
    ∃ s, (machine ValueReturner.void).run (State.start : State String Unit)
        [.bodyEnds (.ok ()), .finalSuspend, .awaitReady, .notify, .awaitResume, .wait, .destroy,
          .test] = some s ∧ s.final = .faulted :=
  ⟨⟨_, rfl, rfl, rfl, rfl⟩, _, rfl, rfl⟩

end Task
end Rdmapp
