/-
  File:      Rdmapp/Asio/Invariant.lean
  Subject:   WHAT HOLDS IN EVERY REACHABLE STATE of an operation awaited through the asio token.

  `OpInv` is the invariant (`opInv_reach`). Its three parts: `Life`, where the positions of
  initiating function and poller determine whether the callback exists; `Stored`, what is in
  the awaitable; `Claim`, where the claimant of the handler determines what has been completed.
  `settled_of_quiet` says how an operation can come to rest.
-/
import Rdmapp.Asio.Operation

namespace Rdmapp.Asio

open Lib

/-! ## 1. The invariant -/

/-- What the life of callback and request is made of: callback, request, dispatch, deletions,
    invocations, use after deletion. -/
def OpState.life (s : OpState) : Callback × Request × Dispatch × Nat × Nat × Bool :=
  (s.callback, s.request, s.dispatch, s.deletions, s.invocations, s.usedAfterDelete)

/-- The life of callback and request, by the position of the initiating function. -/
inductive Life (scn : Scenario) (s : OpState) : Prop
  | preparing (hi : s.initiator = .notStarted ∨ s.initiator = .started ∨ s.initiator = .slotDone)
      (hl : s.life = (.absent, .unposted, .idle, 0, 0, false))
  | made (hi : s.initiator = .callbackMade)
      (hl : s.life = (.live, .unposted, .idle, 0, 0, false))
  | refused (ha : scn.env.accepts = false) (hi : s.initiator = .rejected)
      (hl : s.life = (.live, .unposted, .idle, 0, 0, false))
  | cleaned (ha : scn.env.accepts = false) (hi : s.initiator = .cleaned ∨ s.initiator = .returned)
      (hl : s.life = (.deleted, .unposted, .idle, 1, 0, false))
  | waiting (ha : scn.env.accepts = true) (hi : s.initiator = .posted ∨ s.initiator = .returned)
      (q : Request) (hq : q ≠ .unposted) (hl : s.life = (.live, q, .idle, 0, 0, false))
  | invoked (ha : scn.env.accepts = true) (hi : s.initiator = .posted ∨ s.initiator = .returned)
      (d : Dispatch) (hd : d = .claimed ∨ d = .skipped ∨ d = .completed)
      (hl : s.life = (.live, .polled, d, 0, 1, false))
  | finished (ha : scn.env.accepts = true) (hi : s.initiator = .posted ∨ s.initiator = .returned)
      (hl : s.life = (.deleted, .polled, .finished, 1, 1, false))

/-- The post is still to come. -/
def Initiator.beforePost : Initiator → Bool
  | .notStarted => true
  | .started => true
  | .slotDone => true
  | .callbackMade => true
  | _ => false

/-- The cancellation slot has been seen to. -/
def Initiator.pastSlot : Initiator → Bool
  | .notStarted => false
  | .started => false
  | _ => true

/-- What is stored in the awaitable. -/
structure Stored (scn : Scenario) (s : OpState) : Prop where
  isRecv : s.awaitable.isRecv = scn.awaitable.isRecv
  slot : s.slotAssigned = true → scn.awaitable.isRecv = true
  slotPast : s.slotAssigned = true → s.initiator.pastSlot = true
  fresh : s.initiator.beforePost = true → s.awaitable = scn.awaitable
  preset : s.request ≠ .unposted → s.dispatch = .idle ∨ s.dispatch = .claimed →
    s.terminated = false → s.awaitable = scn.awaitable.presetByteLen

/-- The result of the operation's own completion entry. -/
def Scenario.entryResult (scn : Scenario) : Except Exc OpResult :=
  (scn.awaitable.presetByteLen.setFromWc scn.wc).resume

/-- Who has claimed the handler, and how far the claimant is. -/
inductive Claim (scn : Scenario) (s : OpState) : Prop
  | unclaimed (hc : s.claimed = none) (hd : s.dispatch = .idle) (hl : s.lockedSelf = 0)
      (hs : ∀ k, s.signal k = .idle) (hz : s.terminated = false) (h : s.completions = [])
  | invoked (hc : s.claimed = some .callback) (hd : s.dispatch = .claimed) (hl : s.lockedSelf = 0)
      (hs : ∀ k, s.signal k = .idle ∨ s.signal k = .done)
      (hz : s.terminated = true → ∃ e, scn.entryResult = .error e) (h : s.completions = [])
  | delivered (hc : s.claimed = some .callback) (hd : s.dispatch = .completed ∨ s.dispatch = .finished)
      (hl : s.lockedSelf = 0) (hs : ∀ k, s.signal k = .idle ∨ s.signal k = .done)
      (hz : s.terminated = false) (r : OpResult) (hr : scn.entryResult = .ok r)
      (h : s.completions = [⟨.callback, scn.awaitable.unhandledException, r⟩])
  | cancelling (j : Nat) (hc : s.claimed = some (.signal j)) (hv : s.slotAssigned = true)
      (hd : s.dispatch = .idle ∨ s.dispatch = .skipped ∨ s.dispatch = .finished)
      (hs : ∀ k, k ≠ j → s.signal k = .idle ∨ s.signal k = .done) (hz : s.terminated = false)
      (hj : (s.signal j = .won ∧ s.lockedSelf = 0 ∧ s.completions = []) ∨
        (s.signal j = .locked ∧ s.lockedSelf = 1 ∧ s.completions = []) ∨
        (s.signal j = .done ∧ s.lockedSelf = 0 ∧
          (s.completions = [] ∨
            s.completions = [⟨.signal j, some .operationAborted, emptyResult⟩])))

/-- **The invariant of an operation.** -/
structure OpInv (scn : Scenario) (s : OpState) : Prop where
  life : Life scn s
  stored : Stored scn s
  claim : Claim scn s

/-! ## 2. Every step keeps it -/

section Invariant

variable {strerror : Int → String} {scn : Scenario} {s t : OpState} {a : Action}

/-- A step that touches neither initiating function nor callback nor request keeps the life. -/
theorem Life.congr (h : Life scn s) (hi : t.initiator = s.initiator) (hl : t.life = s.life) :
    Life scn t := by
  cases h with
  | preparing hi' hl' => exact .preparing (hi ▸ hi') (hl.trans hl')
  | made hi' hl' => exact .made (hi.trans hi') (hl.trans hl')
  | refused ha hi' hl' => exact .refused ha (hi.trans hi') (hl.trans hl')
  | cleaned ha hi' hl' => exact .cleaned ha (hi ▸ hi') (hl.trans hl')
  | waiting ha hi' q hq hl' => exact .waiting ha (hi ▸ hi') q hq (hl.trans hl')
  | invoked ha hi' d hd hl' => exact .invoked ha (hi ▸ hi') d hd (hl.trans hl')
  | finished ha hi' hl' => exact .finished ha (hi ▸ hi') (hl.trans hl')

/-- A polled request whose callback was not invoked yet was waiting for it. -/
theorem Life.of_polled_idle (h : Life scn s) (hq : s.request = .polled) (hd : s.dispatch = .idle) :
    scn.env.accepts = true ∧ (s.initiator = .posted ∨ s.initiator = .returned) ∧
      s.life = (.live, .polled, .idle, 0, 0, false) := by
  have hl : s.life = (s.callback, .polled, .idle, s.deletions, s.invocations, s.usedAfterDelete) := by
    rw [← hq, ← hd]
    rfl
  cases h with
  | waiting ha hi q _ hl' =>
    refine ⟨ha, hi, ?_⟩
    rw [hl', Prod.mk.injEq, Prod.mk.injEq] at hl
    rw [hl', hl.2.1]
  | invoked _ _ d hd' hl' =>
    have hd'' : d = .idle := (congrArg (fun x => x.2.2.1) hl').symm.trans hd
    rcases hd' with rfl | rfl | rfl <;> cases hd''
  | _ => simp_all [OpState.life]

/-- Only an accepted request leaves the state before the post. -/
theorem Life.accepts_of_request (h : Life scn s) (hq : s.request ≠ .unposted) :
    scn.env.accepts = true := by
  cases h with
  | waiting ha => exact ha
  | invoked ha => exact ha
  | finished ha => exact ha
  | preparing _ hl => exact absurd (congrArg (fun x => x.2.1) hl) hq
  | made _ hl => exact absurd (congrArg (fun x => x.2.1) hl) hq
  | refused _ _ hl => exact absurd (congrArg (fun x => x.2.1) hl) hq
  | cleaned _ _ hl => exact absurd (congrArg (fun x => x.2.1) hl) hq

/-- A callback is invoked for a polled entry only. -/
theorem Life.polled_of_invoked (h : Life scn s) (hd : s.dispatch ≠ .idle) :
    s.request = .polled := by
  cases h with
  | invoked _ _ _ _ hl => exact congrArg (fun x => x.2.1) hl
  | finished _ _ hl => exact congrArg (fun x => x.2.1) hl
  | preparing _ hl => exact absurd (congrArg (fun x => x.2.2.1) hl) hd
  | made _ hl => exact absurd (congrArg (fun x => x.2.2.1) hl) hd
  | refused _ _ hl => exact absurd (congrArg (fun x => x.2.2.1) hl) hd
  | cleaned _ _ hl => exact absurd (congrArg (fun x => x.2.2.1) hl) hd
  | waiting _ _ _ _ hl => exact absurd (congrArg (fun x => x.2.2.1) hl) hd

theorem Life.step (h : Life scn s) (ht : OpStep scn s a t) : Life scn t := by
  cases ht with
  | start hi => cases h with
    | preparing _ hl => exact .preparing (Or.inr (Or.inl rfl)) hl
    | _ => simp_all
  | assignSlot hi _ => cases h with
    | preparing _ hl => exact .preparing (Or.inr (Or.inr rfl)) hl
    | _ => simp_all
  | skipSlot hi => cases h with
    | preparing _ hl => exact .preparing (Or.inr (Or.inr rfl)) hl
    | _ => simp_all
  | makeCallback hi => cases h with
    | preparing _ hl => exact .made rfl (by simp_all [OpState.life])
    | _ => simp_all
  | postAccepted hi ha => cases h with
    | made _ hl => exact .waiting ha (Or.inl rfl) .outstanding (by decide) (by simp_all [OpState.life])
    | _ => simp_all
  | postRefused hi ha text => cases h with
    | made _ hl => exact .refused ha rfl hl
    | _ => simp_all
  | destroyCallback hi => cases h with
    | refused ha _ hl => exact .cleaned ha (Or.inl rfl) (by simp_all [OpState.life])
    | _ => simp_all
  | leave hi => cases h with
    | preparing hi' _ => rcases hi with hi | hi <;> simp_all
    | cleaned ha _ hl => exact .cleaned ha (Or.inr rfl) hl
    | waiting ha _ q hq hl => exact .waiting ha (Or.inr rfl) q hq hl
    | invoked ha _ d hd hl => exact .invoked ha (Or.inr rfl) d hd hl
    | finished ha _ hl => exact .finished ha (Or.inr rfl) hl
    | _ => simp_all
  | poll hq => cases h with
    | waiting ha hi q _ hl =>
      exact .waiting ha hi .polled (by decide) (by simp_all [OpState.life])
    | _ => simp_all [OpState.life]
  | invokeSkipped hq hd hr hc =>
    obtain ⟨ha, hi, hl⟩ := h.of_polled_idle hq hd
    exact .invoked ha hi .skipped (by decide) (by simp_all [OpState.life])
  | invokeClaimed hq hd hc =>
    obtain ⟨ha, hi, hl⟩ := h.of_polled_idle hq hd
    exact .invoked ha hi .claimed (by decide) (by simp_all [OpState.life])
  | delivered hd r hr => cases h with
    | invoked ha hi d _ hl =>
      exact .invoked ha hi .completed (by decide) (by simp_all [OpState.life])
    | _ => simp_all [OpState.life]
  | deliverFailed hd e hr => exact h.congr rfl rfl
  | executorDestroy hd => cases h with
    | invoked ha hi d _ hl => exact .finished ha hi (by simp_all [OpState.life])
    | _ => simp_all [OpState.life]
  | signalNothing k type hn => exact h
  | signalLate k type hs hk hc => exact h.congr rfl rfl
  | signalWon k type ht hs hk hc => exact h.congr rfl rfl
  | lockLive k hk hl => exact h.congr rfl rfl
  | lockExpired k hk hl => exact h.congr rfl rfl
  | signalComplete k hk => exact h.congr rfl rfl

theorem Stored.step (h : Stored scn s) (hl : Life scn s) (ht : OpStep scn s a t) :
    Stored scn t := by
  obtain ⟨h1, h2, hp, h3, h4⟩ := h
  cases ht with
  | start hi =>
    exact ⟨h1, h2, (fun hs => by rw [hi] at hp; cases hp hs), fun _ => h3 (by rw [hi]; rfl), h4⟩
  | assignSlot hi hr =>
    exact ⟨h1, fun _ => h1 ▸ hr, fun _ => rfl, fun _ => h3 (by rw [hi]; rfl), h4⟩
  | skipSlot hi => exact ⟨h1, h2, fun _ => rfl, fun _ => h3 (by rw [hi]; rfl), h4⟩
  | makeCallback hi => exact ⟨h1, h2, fun _ => rfl, fun _ => h3 (by rw [hi]; rfl), h4⟩
  | postAccepted hi ha =>
    have he : s.awaitable = scn.awaitable := h3 (by rw [hi]; rfl)
    exact ⟨by rw [← h1]; exact Awaitable.isRecv_presetByteLen _, h2, fun _ => rfl, (fun h => by cases h),
      fun _ _ _ => congrArg Awaitable.presetByteLen he⟩
  | postRefused hi ha text =>
    refine ⟨?_, h2, fun _ => rfl, (fun h => by cases h), ?_⟩
    · rw [← h1, Awaitable.isRecv_setException, Awaitable.isRecv_presetByteLen]
    · intro hq hd _
      cases hl with
      | made _ hl => exact absurd (congrArg (fun x => x.2.1) hl) hq
      | _ => simp_all
  | destroyCallback hi => exact ⟨h1, h2, fun _ => rfl, (fun h => by cases h), h4⟩
  | leave hi => exact ⟨h1, h2, fun _ => rfl, (fun h => by cases h), h4⟩
  | poll hq => exact ⟨h1, h2, hp, h3, fun _ => h4 (by rw [hq]; decide)⟩
  | invokeSkipped hq hd hr hc =>
    exact ⟨h1, h2, hp, h3, fun _ h => by rcases h with h | h <;> cases h⟩
  | invokeClaimed hq hd hc => exact ⟨h1, h2, hp, h3, fun h _ => h4 h (Or.inl hd)⟩
  | delivered hd r hr =>
    refine ⟨by rw [← h1]; exact Awaitable.isRecv_setFromWc _ _, h2, hp, ?_, ?_⟩
    · intro hi
      cases hl with
      | invoked _ hi' => rcases hi' with hi' | hi' <;> simp_all [Initiator.beforePost]
      | _ => simp_all [OpState.life]
    · intro _ h
      rcases h with h | h <;> cases h
  | deliverFailed hd e hr =>
    refine ⟨by rw [← h1]; exact Awaitable.isRecv_setFromWc _ _, h2, hp, ?_, ?_⟩
    · intro hi
      cases hl with
      | invoked _ hi' => rcases hi' with hi' | hi' <;> simp_all [Initiator.beforePost]
      | _ => simp_all [OpState.life]
    · intro _ _ h
      cases h
  | executorDestroy hd =>
    exact ⟨h1, h2, hp, h3, fun _ h => by rcases h with h | h <;> cases h⟩
  | signalNothing k type hn => exact ⟨h1, h2, hp, h3, h4⟩
  | signalLate k type hs hk hc => exact ⟨h1, h2, hp, h3, h4⟩
  | signalWon k type ht hs hk hc => exact ⟨h1, h2, hp, h3, h4⟩
  | lockLive k hk hl => exact ⟨h1, h2, hp, h3, h4⟩
  | lockExpired k hk hl => exact ⟨h1, h2, hp, h3, h4⟩
  | signalComplete k hk => exact ⟨h1, h2, hp, h3, h4⟩

/-- The callback finds in the awaitable what `suspend` left there. -/
theorem Stored.awaitable_of_claimed (h : Stored scn s) (hl : Life scn s) (hd : s.dispatch = .claimed)
    (hz : s.terminated = false) : s.awaitable = scn.awaitable.presetByteLen := by
  refine h.preset ?_ (Or.inr hd) hz
  cases hl with
  | invoked _ _ d _ hl =>
    have hq : s.request = .polled := congrArg (fun x => x.2.1) hl
    rw [hq]
    decide
  | _ => simp_all [OpState.life]

/-- A signal that is not on its way stays so when one is done. -/
theorem quiet_update {f : Nat → Signal} {i : Nat} (k : Nat) (hs : f i = .idle ∨ f i = .done) :
    Function.update f k .done i = .idle ∨ Function.update f k .done i = .done := by
  by_cases hk : i = k
  · rw [hk, Function.update_self]
    exact Or.inr rfl
  · rw [Function.update_of_ne hk]
    exact hs

/-- A signal on its way has claimed the handler. -/
theorem Claim.of_active (h : Claim scn s) {k : Nat} (hk : s.signal k = .won ∨ s.signal k = .locked) :
    s.claimed = some (.signal k) := by
  have hquiet : ¬ (s.signal k = .idle ∨ s.signal k = .done) := by
    rcases hk with hk | hk <;> rw [hk] <;> decide
  cases h with
  | unclaimed _ _ _ hs => exact absurd (Or.inl (hs k)) hquiet
  | invoked _ _ _ hs => exact absurd (hs k) hquiet
  | delivered _ _ _ hs => exact absurd (hs k) hquiet
  | cancelling j hc _ _ hs =>
    by_cases hj : k = j
    · rw [hj]
      exact hc
    · exact absurd (hs k hj) hquiet

theorem Claim.step (h : Claim scn s) (hl : Life scn s) (hv : Stored scn s)
    (hz : s.terminated = false) (ht : OpStep scn s a t) : Claim scn t := by
  cases ht with
  | start | skipSlot | makeCallback | leave | poll | postAccepted | postRefused
    | destroyCallback | signalNothing => cases h with
    | unclaimed hc hd hl hs hz h => exact .unclaimed hc hd hl hs hz h
    | invoked hc hd hl hs hz h => exact .invoked hc hd hl hs hz h
    | delivered hc hd hl hs hz r hr h => exact .delivered hc hd hl hs hz r hr h
    | cancelling j hc hv hd hs hz hj => exact .cancelling j hc hv hd hs hz hj
  | assignSlot hi hr => cases h with
    | unclaimed hc hd hl hs hz h => exact .unclaimed hc hd hl hs hz h
    | invoked hc hd hl hs hz h => exact .invoked hc hd hl hs hz h
    | delivered hc hd hl hs hz r hr h => exact .delivered hc hd hl hs hz r hr h
    | cancelling j hc hv hd hs hz hj => exact .cancelling j hc rfl hd hs hz hj
  | invokeSkipped hq hd hr hc => cases h with
    | cancelling j hc hv hd hs hz hj => exact .cancelling j hc hv (Or.inr (Or.inl rfl)) hs hz hj
    | _ => simp_all
  | invokeClaimed hq hd hc => cases h with
    | unclaimed hc' _ hl hs hz h =>
      exact .invoked rfl rfl hl (fun k => Or.inl (hs k)) (fun hz' => by simp_all) h
    | cancelling j hc' hv' =>
      -- a claim by a signal needs the slot, which only a recv has
      have hr : s.awaitable.isRecv = true := hv.isRecv.trans (hv.slot hv')
      simp_all
    | _ => simp_all
  | delivered hd r hr => cases h with
    | invoked hc _ hl' hs hz' h =>
      have he : s.awaitable = scn.awaitable.presetByteLen := hv.awaitable_of_claimed hl hd hz
      rw [he] at hr
      refine .delivered hc (Or.inl rfl) hl' hs hz r hr ?_
      show s.completions ++ _ = _
      rw [h, he, Awaitable.unhandledException_presetByteLen]
      rfl
    | _ => simp_all
  | deliverFailed hd e hr => cases h with
    | invoked hc _ hl' hs hz' h =>
      rw [hv.awaitable_of_claimed hl hd hz] at hr
      exact .invoked hc hd hl' hs (fun _ => ⟨e, hr⟩) h
    | _ => simp_all
  | executorDestroy hd => cases h with
    | delivered hc _ hl hs hz r hr h => exact .delivered hc (Or.inr rfl) hl hs hz r hr h
    | cancelling j hc hv _ hs hz hj => exact .cancelling j hc hv (Or.inr (Or.inr rfl)) hs hz hj
    | _ => simp_all
  | signalLate k type hs hk hc => cases h with
    | unclaimed hc' => exact absurd hc' hc
    | invoked hc hd hl hs hz h =>
      exact .invoked hc hd hl (fun i => quiet_update k (hs i)) hz h
    | delivered hc hd hl hs hz r hr h =>
      exact .delivered hc hd hl (fun i => quiet_update k (hs i)) hz r hr h
    | cancelling j hc hv hd hs hz hj =>
      have hkj : j ≠ k := by
        rintro rfl
        simp_all
      refine .cancelling j hc hv hd (fun i hi => quiet_update k (hs i hi)) hz ?_
      simpa only [Function.update_of_ne hkj] using hj
  | signalWon k type ht hs hk hc => cases h with
    | unclaimed _ hd hl hs' hz h =>
      refine .cancelling k rfl hs (Or.inl hd) (fun i hi => ?_) hz (Or.inl ⟨?_, hl, h⟩)
      · dsimp only
        rw [Function.update_of_ne hi]
        exact Or.inl (hs' i)
      · exact Function.update_self _ _ _
    | _ => simp_all
  | lockLive k hk hr =>
    have hc := h.of_active (Or.inl hk)
    cases h with
    | cancelling j hc' hv hd hs hz hj =>
      obtain rfl : k = j := by simp_all
      refine .cancelling k hc hv hd (fun i hi => ?_) hz (Or.inr (Or.inl ⟨?_, ?_, ?_⟩))
      · dsimp only
        rw [Function.update_of_ne hi]
        exact hs i hi
      · exact Function.update_self _ _ _
      · simp_all
      · simp_all
    | _ => simp_all
  | lockExpired k hk hr =>
    have hc := h.of_active (Or.inl hk)
    cases h with
    | cancelling j hc' hv hd hs hz hj =>
      obtain rfl : k = j := by simp_all
      refine .cancelling k hc hv hd (fun i hi => quiet_update k (hs i hi)) hz
        (Or.inr (Or.inr ⟨?_, ?_, ?_⟩))
      · exact Function.update_self _ _ _
      · simp_all
      · simp_all
    | _ => simp_all
  | signalComplete k hk =>
    have hc := h.of_active (Or.inr hk)
    cases h with
    | cancelling j hc' hv hd hs hz hj =>
      obtain rfl : k = j := by simp_all
      refine .cancelling k hc hv hd (fun i hi => quiet_update k (hs i hi)) hz
        (Or.inr (Or.inr ⟨?_, ?_, ?_⟩))
      · exact Function.update_self _ _ _
      · simp_all
      · simp_all
    | _ => simp_all

/-- Where the initiating function runs. -/
theorem localSelf_of {i : Initiator} (h : s.initiator = i)
    (hi : (i != .notStarted && i != .returned) = true) : s.localSelf = true := by
  unfold OpState.localSelf
  rw [h]
  exact hi

/-- The initiating function holds a reference to `self` while it runs. -/
theorem selfRefs_pos_of_local (h : s.localSelf = true) : 0 < s.selfRefs := by
  unfold OpState.selfRefs
  rw [if_pos h]
  omega

theorem selfRefs_pos_of_live (h : s.callback = .live) : 0 < s.selfRefs := by
  unfold OpState.selfRefs
  rw [if_pos h]
  omega

/-- Before the callback is made there is none. -/
theorem Life.absent (h : Life scn s)
    (hi : s.initiator = .notStarted ∨ s.initiator = .started ∨ s.initiator = .slotDone) :
    s.callback = .absent := by
  cases h with
  | preparing _ hl => exact congrArg Prod.fst hl
  | _ => rcases hi with hi | hi | hi <;> simp_all

/-- The callback is alive while its request is outstanding, until its end in the executor, and
    after a refused post. -/
theorem Life.live (h : Life scn s)
    (hi : s.initiator = .rejected ∨ s.request = .outstanding ∨ s.dispatch = .completed ∨
      s.dispatch = .skipped) : s.callback = .live := by
  cases h with
  | made _ hl => exact congrArg Prod.fst hl
  | refused _ _ hl => exact congrArg Prod.fst hl
  | waiting _ _ _ _ hl => exact congrArg Prod.fst hl
  | invoked _ _ _ _ hl => exact congrArg Prod.fst hl
  | _ => simp_all [OpState.life]

/-- A signal past `lock()` holds the one reference of this kind. -/
theorem Claim.lockedSelf_eq (h : Claim scn s) {k : Nat} (hk : s.signal k = .locked) :
    s.lockedSelf = 1 := by
  have hc := h.of_active (Or.inr hk)
  cases h with
  | cancelling j hc' _ _ _ _ hj =>
    obtain rfl : k = j := by simp_all
    simp_all
  | _ => simp_all

theorem opInv_init (scn : Scenario) : OpInv scn (OpState.init scn) where
  life := .preparing (Or.inl rfl) rfl
  stored := ⟨rfl, (fun h => by cases h), (fun h => by cases h), fun _ => rfl, fun h => absurd rfl h⟩
  claim := .unclaimed rfl rfl rfl (fun _ => rfl) rfl rfl

theorem OpInv.step (h : OpInv scn s) (hs : step strerror scn s a = some t) : OpInv scn t := by
  obtain ⟨hz, ht⟩ := opStep_of_step hs
  exact ⟨h.life.step ht, h.stored.step h.life ht, h.claim.step h.life h.stored hz ht⟩

/-- **Every reachable state of an operation satisfies the invariant.** -/
theorem opInv_reach (h : (machine strerror scn).Reach (OpState.init scn) s) : OpInv scn s :=
  h.invariant (opInv_init scn) fun _ _ _ hi _ hs => hi.step hs

end Invariant

/-! ## 3. Operations at rest -/

/-- The actions of the cancellation signals. -/
def Action.isSignal : Action → Bool
  | .signal _ _ => true
  | .signalLock _ => true
  | .signalComplete _ => true
  | _ => false

/-- Neither initiating function nor poller can move. -/
def Quiet (strerror : Int → String) (scn : Scenario) (s : OpState) : Prop :=
  ∀ a, a.isSignal = false → step strerror scn s a = none

/-- How an operation comes to rest. -/
inductive Settled (scn : Scenario) (s : OpState) : Prop
  | terminated (hz : s.terminated = true)
  | refused (hz : s.terminated = false) (ha : scn.env.accepts = false) (hi : s.initiator = .returned)
      (hl : s.life = (.deleted, .unposted, .idle, 1, 0, false))
  | finished (hz : s.terminated = false) (ha : scn.env.accepts = true) (hi : s.initiator = .returned)
      (hl : s.life = (.deleted, .polled, .finished, 1, 1, false))

section Rest

variable {strerror : Int → String} {scn : Scenario} {s : OpState}

/-- The initiating function of an operation at rest has returned, having posted. -/
theorem Quiet.returned (hq : Quiet strerror scn s) (hz : s.terminated = false)
    (hi : s.initiator = .posted ∨ s.initiator = .returned) : s.initiator = .returned := by
  rcases hi with hi | hi
  · have h := hq .leave rfl
    simp [step, hz, hi] at h
  · exact hi

/-- **An operation comes to rest only after its callback is deleted**, or with the process. -/
theorem settled_of_quiet (hl : Life scn s) (hq : Quiet strerror scn s) : Settled scn s := by
  cases hz : s.terminated with
  | true => exact .terminated hz
  | false =>
    cases hl with
    | preparing hi _ =>
      rcases hi with hi | hi | hi
      · have h := hq .start rfl
        simp [step, hz, hi] at h
      · have h₁ := hq .assignSlot rfl
        have h₂ := hq .skipSlot rfl
        by_cases hc : scn.slotConnected = true ∧ s.awaitable.isRecv = true
        · simp [step, hz, hi, hc] at h₁
        · simp [step, hz, hi, hc] at h₂
      · have h := hq .makeCallback rfl
        simp [step, hz, hi] at h
    | made hi _ =>
      have h := hq .post rfl
      simp [step, hz, hi] at h
    | refused _ hi _ =>
      have h := hq .destroyCallback rfl
      simp [step, hz, hi] at h
    | cleaned ha hi hl =>
      rcases hi with hi | hi
      · have h := hq .leave rfl
        simp [step, hz, hi] at h
      · exact .refused hz ha hi hl
    | waiting _ _ q hq' hl =>
      have hr : s.request = q := congrArg (fun x => x.2.1) hl
      have hd : s.dispatch = .idle := congrArg (fun x => x.2.2.1) hl
      cases q with
      | unposted => exact absurd rfl hq'
      | outstanding =>
        have h := hq .poll rfl
        simp [step, hz, hr] at h
      | polled =>
        have h := hq .invoke rfl
        simp [step, hz, hr, hd] at h
    | invoked _ _ d hd' hl =>
      have hd : s.dispatch = d := congrArg (fun x => x.2.2.1) hl
      rcases hd' with rfl | rfl | rfl
      · have h := hq .deliver rfl
        simp [step, hz, hd] at h
      · have h := hq .executorDestroy rfl
        simp [step, hz, hd] at h
      · have h := hq .executorDestroy rfl
        simp [step, hz, hd] at h
    | finished ha hi hl => exact .finished hz ha (hq.returned hz hi) hl

/-- How many steps initiating function and poller have at most left. -/
def OpState.rank (s : OpState) : Nat :=
  (match s.initiator with
    | .notStarted => 6
    | .started => 5
    | .slotDone => 4
    | .callbackMade => 3
    | .rejected => 2
    | .cleaned => 1
    | .posted => 1
    | .returned => 0) +
  (match s.request with
    | .unposted => 2
    | .outstanding => 1
    | .polled => 0) +
  (match s.dispatch with
    | .idle => 3
    | .claimed => 2
    | .skipped => 1
    | .completed => 1
    | .finished => 0) +
  (if s.terminated then 0 else 1)

theorem rank_lt_of_step {t : OpState} {a : Action} (hl : Life scn s) (ha : a.isSignal = false)
    (hs : step strerror scn s a = some t) : t.rank < s.rank := by
  obtain ⟨hz, ht⟩ := opStep_of_step hs
  cases ht with
  | postAccepted hi => cases hl with
    | made _ hl =>
      have hr : s.request = .unposted := congrArg (fun x => x.2.1) hl
      simp [OpState.rank, hi, hr]
    | _ => simp_all
  | leave hi => rcases hi with hi | hi <;> simp [OpState.rank, hi]
  | deliverFailed hd e hr => simp [OpState.rank, hz]
  | executorDestroy hd => rcases hd with hd | hd <;> simp [OpState.rank, hd]
  | signalNothing | signalLate | signalWon | lockLive | lockExpired | signalComplete => cases ha
  | _ => simp_all [OpState.rank]

/-- **Left alone by signals, every operation comes to rest.** -/
theorem exists_quiet (h : OpInv scn s) :
    ∃ t, (machine strerror scn).ReachIf (fun _ a => a.isSignal = false) s t ∧
      Quiet strerror scn t := by
  induction hn : s.rank using Nat.strong_induction_on generalizing s with
  | _ n ih =>
    by_cases hq : Quiet strerror scn s
    · exact ⟨s, .start, hq⟩
    · obtain ⟨a, ha⟩ := Classical.not_forall.mp hq
      obtain ⟨ha, hs⟩ := Classical.not_imp.mp ha
      obtain ⟨u, hu⟩ := Option.ne_none_iff_exists'.mp hs
      obtain ⟨t, ht, htq⟩ := ih u.rank (hn ▸ rank_lt_of_step h.life ha hu) (h.step hu) rfl
      exact ⟨t, (Machine.ReachIf.step a .start ha hu).trans ht, htq⟩

end Rest

end Rdmapp.Asio
