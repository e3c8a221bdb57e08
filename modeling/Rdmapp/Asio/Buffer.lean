/-
  File:      Rdmapp/Asio/Buffer.lean
  Subject:   WHO OWNS THE BUFFER of an operation awaited through the asio token.

  `recv` documents that its buffer must remain valid until the operation completes. Completion
  by the callback comes after the completion entry was polled. Completion by a cancellation
  does not: the signal completes the handler and leaves the work request where it is, and a
  signal before the post does not keep the request from being posted. `completed_owns_nothing`
  gives the condition under which a completed operation has released its buffer, and that a
  cancellation outside the condition leads to a completed operation whose buffer the adapter
  may still write.
-/
import Rdmapp.Asio.Cancellation

namespace Rdmapp

/-- The request names a local buffer: it has a scatter/gather entry. -/
def WorkRequest.referencesBuffer : WorkRequest → Bool
  | .send wr => wr.sgList.isSome
  | .recv wr => wr.sgList.isSome

end Rdmapp

namespace Rdmapp.Asio

open Lib

/-! ## 1. Ownership -/

/-- The operation's work request, if posted, references its local buffer. -/
def Scenario.referencesBuffer (scn : Scenario) : Bool :=
  (scn.awaitable.workRequest scn.wc.wrId).referencesBuffer

/-- The adapter may access the operation's local buffer. -/
def HoldsBuffer (scn : Scenario) (s : OpState) : Prop :=
  s.request = .outstanding ∧ scn.referencesBuffer = true

/-- A completed operation no longer owns its buffer. -/
def Released (scn : Scenario) (s : OpState) : Prop :=
  s.completions ≠ [] → ¬ HoldsBuffer scn s

/-- A cancellation that takes the handler of an operation with a buffer and an accepted post
    comes only after the completion entry was polled. -/
def Timely (scn : Scenario) (s : OpState) (a : Action) : Prop :=
  ∀ k type, a = .signal k type → type ≠ cancellationTypeNone → s.slotAssigned = true →
    s.claimed = none → scn.env.accepts = true → scn.referencesBuffer = true →
    s.request = .polled

section Ownership

variable {strerror : Int → String} {scn : Scenario} {s t : OpState} {a : Action}

/-- A signal that has the handler of such an operation came after the poll. -/
def CancelledLate (scn : Scenario) (s : OpState) : Prop :=
  ∀ k, s.claimed = some (.signal k) → scn.env.accepts = true → scn.referencesBuffer = true →
    s.request = .polled

/-- A timely step keeps that. -/
theorem CancelledLate.step (h : CancelledLate scn s) (hi : OpInv scn s) (hc : Timely scn s a)
    (ht : OpStep scn s a t) : CancelledLate scn t := by
  intro k hk ha hb
  cases ht with
  | postAccepted hi' =>
    have hq : s.request = .unposted := by
      have hl := hi.life
      cases hl with
      | made _ hl => exact congrArg (fun x => x.2.1) hl
      | _ => simp_all
    have hq' := h k hk ha hb
    rw [hq] at hq'
    cases hq'
  | poll => rfl
  | invokeClaimed => cases hk
  | signalWon j type hne hs hj hn => exact hc j type rfl hne hs hn ha hb
  | _ => exact h k hk ha hb

/-- **Where cancellations came late, completed operations have released their buffers.** -/
theorem CancelledLate.released (h : CancelledLate scn s) (hi : OpInv scn s) : Released scn s := by
  rintro hn ⟨hq, hb⟩
  have ha : scn.env.accepts = true := hi.life.accepts_of_request (by rw [hq]; decide)
  have hpolled : s.request = .polled := by
    rcases hi.claim.completed with hc | ⟨r, _, hc⟩ | ⟨k, hc⟩
    · exact absurd hc hn
    · have hcl := hi.claim.caller_eq (c := ⟨.callback, scn.awaitable.unhandledException, r⟩)
        (by rw [hc]; exact List.mem_cons_self)
      refine hi.life.polled_of_invoked fun hd => ?_
      have hclaim := hi.claim
      cases hclaim <;> simp_all
    · exact h k (hi.claim.caller_eq (c := ⟨.signal k, some .operationAborted, emptyResult⟩)
        (by rw [hc]; exact List.mem_cons_self)) ha hb
  rw [hq] at hpolled
  cases hpolled

/-- What is completed stays completed. -/
theorem completions_step (ht : OpStep scn s a t) (h : s.completions ≠ []) : t.completions ≠ [] := by
  cases ht with
  | delivered => exact List.append_ne_nil_of_left_ne_nil h _
  | signalComplete => exact List.append_ne_nil_of_left_ne_nil h _
  | _ => exact h

/-! ## 2. What an early cancellation leads to -/

/-- A signal that has claimed the handler of an outstanding request completes it. -/
theorem overtaken_outstanding (strerror : Int → String) (scn : Scenario) {k : Nat}
    (hz : s.terminated = false) (hk : s.signal k = .won)
    (hb : s.callback = .live) (hq : s.request = .outstanding) :
    ∃ u, (machine strerror scn).Reach s u ∧ u.request = .outstanding ∧ u.completions ≠ [] := by
  have hp : 0 < s.selfRefs := by
    unfold OpState.selfRefs
    rw [hb, if_pos rfl]
    omega
  let u₁ : OpState :=
    { s with signal := Function.update s.signal k .locked, lockedSelf := s.lockedSelf + 1 }
  have h₁ : step strerror scn s (.signalLock k) = some u₁ := by
    simp [step, hz, hk, hp, u₁]
  have hk₁ : u₁.signal k = .locked := Function.update_self _ _ _
  let u₂ : OpState :=
    { u₁ with signal := Function.update u₁.signal k .done
              lockedSelf := u₁.lockedSelf - 1
              completions := u₁.completions ++
                [⟨.signal k, some .operationAborted, emptyResult⟩] }
  have h₂ : step strerror scn u₁ (.signalComplete k) = some u₂ := by
    have hz₁ : u₁.terminated = false := hz
    simp [step, hz₁, hk₁, u₂]
  exact ⟨u₂, .step (.signalComplete k) (.step (.signalLock k) .start trivial h₁) trivial h₂, hq,
    List.append_ne_nil_of_right_ne_nil _ (List.cons_ne_nil _ _)⟩

/-- The same when the signal comes just before the post. -/
theorem overtaken_callbackMade (strerror : Int → String) {k : Nat} (hz : s.terminated = false)
    (hk : s.signal k = .won) (hb : s.callback = .live) (hi : s.initiator = .callbackMade)
    (ha : scn.env.accepts = true) :
    ∃ u, (machine strerror scn).Reach s u ∧ u.request = .outstanding ∧ u.completions ≠ [] := by
  have h₁ : step strerror scn s .post = some
      { s with initiator := .posted, request := .outstanding
               awaitable := s.awaitable.presetByteLen } := by
    simp [step, hz, hi, onPost, Awaitable.suspend_of_accepts ha]
  obtain ⟨u, hu, hq, hn⟩ := overtaken_outstanding strerror scn
    (s := { s with initiator := .posted, request := .outstanding
                   awaitable := s.awaitable.presetByteLen }) hz hk hb rfl
  exact ⟨u, (Machine.ReachIf.step .post .start trivial h₁).trans hu, hq, hn⟩

/-- The same when the callback is still to be made. -/
theorem overtaken_slotDone {k : Nat} (hz : s.terminated = false) (hk : s.signal k = .won)
    (hi : s.initiator = .slotDone) (ha : scn.env.accepts = true) :
    ∃ u, (machine strerror scn).Reach s u ∧ u.request = .outstanding ∧ u.completions ≠ [] := by
  have h₁ : step strerror scn s .makeCallback = some
      { s with initiator := .callbackMade, callback := .live } := by
    simp [step, hz, hi]
  obtain ⟨u, hu, hq, hn⟩ := overtaken_callbackMade strerror
    (s := { s with initiator := .callbackMade, callback := .live }) hz hk rfl rfl ha
  exact ⟨u, (Machine.ReachIf.step .makeCallback .start trivial h₁).trans hu, hq, hn⟩

/-- **An untimely cancellation can end with a completed operation that still owns its
    buffer.** -/
theorem not_released_of_untimely (hi : OpInv scn s) (hn : ¬ Timely scn s a)
    (hs : step strerror scn s a = some t) :
    ∃ u, (machine strerror scn).Reach t u ∧ ¬ Released scn u := by
  unfold Timely at hn
  obtain ⟨k, type, rfl, hne, hv, hc, ha, hb, hq⟩ :
      ∃ k type, a = .signal k type ∧ type ≠ cancellationTypeNone ∧ s.slotAssigned = true ∧
        s.claimed = none ∧ scn.env.accepts = true ∧ scn.referencesBuffer = true ∧
        s.request ≠ .polled := by
    by_contra h
    refine hn fun k type h₁ h₂ h₃ h₄ h₅ h₆ => ?_
    by_contra h₇
    exact h ⟨k, type, h₁, h₂, h₃, h₄, h₅, h₆, h₇⟩
  have hz : s.terminated = false := (opStep_of_step hs).1
  have hidle : s.signal k = .idle := by
    have hclaim := hi.claim
    cases hclaim with
    | unclaimed _ _ _ hs => exact hs k
    | _ => simp_all
  obtain rfl :
      { s with signal := Function.update s.signal k .won, claimed := some (.signal k) } = t := by
    simpa [step, hz, hidle, hv, onSignal, hne, hc] using hs
  have hwon : Function.update s.signal k .won k = .won := Function.update_self _ _ _
  suffices h : ∃ u, (machine strerror scn).Reach
      { s with signal := Function.update s.signal k .won, claimed := some (.signal k) } u ∧
      u.request = .outstanding ∧ u.completions ≠ [] by
    obtain ⟨u, hu, hq', hn'⟩ := h
    exact ⟨u, hu, fun hr => hr hn' ⟨hq', hb⟩⟩
  have hl := hi.life
  cases hl with
  | preparing hi' =>
    have hp := hi.stored.slotPast hv
    rcases hi' with hi' | hi' | hi'
    · rw [hi'] at hp
      cases hp
    · rw [hi'] at hp
      cases hp
    · exact overtaken_slotDone hz hwon hi' ha
  | made hi' hl =>
    exact overtaken_callbackMade strerror hz hwon (congrArg (fun x => x.1) hl) hi' ha
  | waiting _ _ q _ hl =>
    have hr : s.request = q := congrArg (fun x => x.2.1) hl
    refine overtaken_outstanding strerror scn hz hwon (congrArg (fun x => x.1) hl) ?_
    cases q with
    | outstanding => exact hr
    | _ => simp_all
  | refused ha' => simp_all
  | cleaned ha' => simp_all
  | invoked _ _ _ _ hl => exact absurd (congrArg (fun x => x.2.1) hl) hq
  | finished _ _ hl => exact absurd (congrArg (fun x => x.2.1) hl) hq

end Ownership

/-! ## 3. Any number of operations -/

section Many

variable {ι : Type*} [DecidableEq ι]

/-- Operations running side by side. -/
def operations (strerror : Int → String) (scn : ι → Scenario) : Machine (ι → OpState) (ι × Action) :=
  Machine.family fun i => machine strerror (scn i)

/-- The step of the operation that moves is timely. -/
def AllTimely (scn : ι → Scenario) (f : ι → OpState) (a : ι × Action) : Prop :=
  Timely (scn a.1) (f a.1) a.2

theorem operations_inv {strerror : Int → String} {scn : ι → Scenario} {f : ι → OpState}
    (h : (operations strerror scn).Reach (fun i => OpState.init (scn i)) f) (i : ι) :
    OpInv (scn i) (f i) :=
  opInv_reach (Machine.family_reach h i)

theorem operations_late {strerror : Int → String} {scn : ι → Scenario} {f : ι → OpState}
    (h : (operations strerror scn).ReachIf (AllTimely scn) (fun i => OpState.init (scn i)) f)
    (i : ι) : OpInv (scn i) (f i) ∧ CancelledLate (scn i) (f i) := by
  refine Machine.family_invariant (D := fun i s a => Timely (scn i) s a)
    (P := fun i s => OpInv (scn i) s ∧ CancelledLate (scn i) s) h
    (fun i => ⟨opInv_init (scn i), fun k hk => by cases hk⟩) ?_ i
  intro j s a t hs hd hstep
  exact ⟨hs.1.step hstep, hs.2.step hs.1 hd (opStep_of_step hstep).2⟩

/-- An operation completed in one state is completed in every later one. -/
theorem operations_completed {strerror : Int → String} {scn : ι → Scenario} {f g : ι → OpState}
    {C : (ι → OpState) → ι × Action → Prop} (h : (operations strerror scn).ReachIf C f g) {i : ι}
    (hf : (f i).completions ≠ []) : (g i).completions ≠ [] := by
  refine h.invariant (P := fun g => (g i).completions ≠ []) hf ?_
  intro u a v hu _ hs
  rcases Machine.family_step_apply (i := a.1) (b := a.2) hs i with ⟨rfl, hs'⟩ | ⟨-, he⟩
  · exact completions_step (opStep_of_step hs').2 hu
  · rw [he]
    exact hu

/-- **A completed operation owns its buffer no longer**, nor ever again, in every run of any
    number of operations whose cancellations are timely; an untimely one leads to a completed
    operation with an outstanding request on its buffer. -/
theorem completed_owns_nothing (strerror : Int → String) (scn : ι → Scenario) :
    (∀ f, (operations strerror scn).ReachIf (AllTimely scn) (fun i => OpState.init (scn i)) f →
      ∀ i, Released (scn i) (f i) ∧
        ((f i).completions ≠ [] → ∀ g, (operations strerror scn).ReachIf (AllTimely scn) f g →
          ¬ HoldsBuffer (scn i) (g i))) ∧
    (∀ f a g, (operations strerror scn).Reach (fun i => OpState.init (scn i)) f →
      ¬ AllTimely scn f a → (operations strerror scn).step f a = some g →
      ∃ h, (operations strerror scn).Reach g h ∧ ¬ Released (scn a.1) (h a.1)) := by
  refine ⟨fun f hf i => ⟨?_, fun hn g hg => ?_⟩, ?_⟩
  · obtain ⟨hi, hl⟩ := operations_late hf i
    exact hl.released hi
  · obtain ⟨hi, hl⟩ := operations_late (hf.trans hg) i
    exact hl.released hi (operations_completed hg hn)
  · intro f a g hf ha hs
    obtain ⟨u, hu, rfl⟩ := Machine.family_step_eq_some.mp hs
    obtain ⟨v, hv, hr⟩ := not_released_of_untimely (operations_inv hf a.1) ha hu
    refine ⟨Function.update (Function.update f a.1 u) a.1 v, Machine.family_reach_update ?_, ?_⟩
    · rw [Function.update_self]
      exact hv
    · rw [Function.update_self]
      exact hr

/-- A recv into 64 bytes, cancelled after its completion entry was polled. -/
theorem completed_owns_nothing_late :
    let scn : Unit → Scenario := fun _ =>
      operationScenario .recv (.view ⟨4096, 64, 7⟩) true ⟨some .postRecvRq, 0⟩
        ⟨8, .success, 0, 64, 0⟩
    ∃ f, (operations (fun _ => "") scn).ReachIf (AllTimely scn) (fun i => OpState.init (scn i)) f ∧
      (f ()).completions ≠ [] ∧ Released (scn ()) (f ()) := by
  intro scn
  have hr : (operations (fun _ => "") scn).ReachIf (AllTimely scn) (fun i => OpState.init (scn i)) _ :=
    .step ((), .signalComplete 0) (.step ((), .signalLock 0) (.step ((), .signal 0 1)
      (.step ((), .poll) (.step ((), .post) (.step ((), .makeCallback) (.step ((), .assignSlot)
        (.step ((), .start) .start (fun _ _ h => by cases h) rfl) (fun _ _ h => by cases h) rfl)
        (fun _ _ h => by cases h) rfl) (fun _ _ h => by cases h) rfl) (fun _ _ h => by cases h) rfl)
      (fun _ _ _ _ _ _ _ _ => rfl) rfl) (fun _ _ h => by cases h) rfl) (fun _ _ h => by cases h) rfl
  exact ⟨_, hr, by decide, ((completed_owns_nothing (fun _ => "") scn).1 _ hr ()).1⟩

/-- A recv into 64 bytes, cancelled while its request is outstanding: the handler is completed,
    and the adapter still owns the buffer. -/
theorem cancelled_recv_owns_buffer :
    ¬ ∀ (scn : Unit → Scenario) f,
      (operations (fun _ => "") scn).Reach (fun i => OpState.init (scn i)) f →
      ∀ i, Released (scn i) (f i) := by
  intro h
  refine h (fun _ => operationScenario .recv (.view ⟨4096, 64, 7⟩) true ⟨some .postRecvRq, 0⟩
    ⟨8, .success, 0, 64, 0⟩) _ (Machine.reach_of_run [((), .start), ((), .assignSlot),
      ((), .makeCallback), ((), .post), ((), .signal 0 1), ((), .signalLock 0),
      ((), .signalComplete 0)] rfl) () ?_ ?_
  · exact List.cons_ne_nil _ _
  · exact ⟨rfl, rfl⟩

end Many

end Rdmapp.Asio
