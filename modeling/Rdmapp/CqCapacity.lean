/-
  File:      Rdmapp/CqCapacity.lean
  Subject:   THE COMPLETION QUEUES OF THE CONNECTION HELPERS: their capacity under load.

  `alloc_cq` of connector and acceptor, and the QP each makes on the CQs it got, as
  `qp_connector.cc` and `qp_acceptor.cc` have them. Over them a machine of any number of such
  QPs: requests posted within the queues' depths, completion entries generated at any time, slots
  freed no earlier than that, the pollers draining when they like.

  `load` counts what a CQ holds and what will still complete into it. Posts that find room for
  one more keep every CQ within its capacity (`cq_within_capacity`), and any other accepted post
  lets completions alone overrun one.
-/
import Mathlib.Logic.Function.Basic
import Rdmapp.Lib.Transition
import Rdmapp.Qp

namespace Rdmapp
namespace CqCapacity

open Lib

/-! ## 1. The helpers -/

section Helpers

variable {ρ : Type}

/-- The CQs a helper call allocates, by the entries asked for, as they join `pollers_`. -/
abbrev Pollers := StateM (List Nat)

/-- `alloc_cq` of `basic_qp_connector`: the new CQ by its place in `pollers_`. -/
def Connector.allocCq : Pollers Nat := fun pollers => (pollers.length, pollers ++ [512])

/-- `from_socket`, as far as the QP's attributes go. -/
def Connector.fromSocket (srq : Option ρ) : Pollers (IbvQpInitAttr Nat ρ) := do
  let sendCq ← Connector.allocCq
  let recvCq := sendCq
  pure (qpInitAttr recvCq sendCq srq { maxSendWr := 512, maxRecvWr := 512 })

/-- `alloc_cq` of `basic_qp_acceptor`. -/
def Acceptor.allocCq : Pollers Nat := fun pollers => (pollers.length, pollers ++ [256])

/-- `accept`, as far as the QP's attributes go. -/
def Acceptor.accept (srq : Option ρ) : Pollers (IbvQpInitAttr Nat ρ) := do
  let sendCq ← Acceptor.allocCq
  let recvCq ← Acceptor.allocCq
  pure (qpInitAttr recvCq sendCq srq { maxSendWr := 2048, maxRecvWr := 2048 })

inductive Helper where
  | connector
  | acceptor
  deriving DecidableEq, Repr

/-- One call: the QP's attributes, and the CQs of this call. -/
def Helper.call (srq : Option ρ) : Helper → IbvQpInitAttr Nat ρ × List Nat
  | .connector => Connector.fromSocket srq []
  | .acceptor => Acceptor.accept srq []

end Helpers

/-! ## 2. Queues and completions -/

/-- The two sides of a queue pair. -/
inductive Dir where
  | send
  | recv
  deriving DecidableEq, Repr

def Dir.other : Dir → Dir
  | .send => .recv
  | .recv => .send

theorem Dir.other_ne (d : Dir) : d.other ≠ d := by
  cases d with
  | send => exact fun h => Dir.noConfusion h
  | recv => exact fun h => Dir.noConfusion h

/-- Where requests wait: a QP's send queue, its receive queue, a shared receive queue. -/
inductive WorkQueue (ι : Type*) (ρ : Type) where
  | sq (i : ι)
  | rq (i : ι)
  | srq (r : ρ)
  deriving DecidableEq

/-- QPs `ι`, each on CQs of its own, and SRQs `ρ`. -/
structure Fabric (ι : Type*) (ρ : Type) where
  attr : ι → IbvQpInitAttr Nat ρ
  /-- What each QP's CQs were asked to hold. -/
  cqes : ι → List Nat
  srqMaxWr : ρ → Nat

/-- QPs made by the helpers. -/
def helperFabric {ι : Type*} {ρ : Type} (helper : ι → Helper) (srq : ι → Option ρ)
    (srqMaxWr : ρ → Nat) : Fabric ι ρ where
  attr i := ((helper i).call (srq i)).1
  cqes i := ((helper i).call (srq i)).2
  srqMaxWr := srqMaxWr

namespace Fabric

variable {ι : Type*} {ρ : Type} (F : Fabric ι ρ)

/-- The queue a post goes to. -/
def queue (i : ι) : Dir → WorkQueue ι ρ
  | .send => .sq i
  | .recv =>
    match (F.attr i).srq with
    | none => .rq i
    | some r => .srq r

/-- How many requests may be outstanding. -/
def depth : WorkQueue ι ρ → Nat
  | .sq i => (F.attr i).maxSendWr.toNat
  | .rq i => (F.attr i).maxRecvWr.toNat
  | .srq r => F.srqMaxWr r

/-- The CQ that gets the completions: the `k`-th of the QP's. -/
def cq (i : ι) : Dir → ι × Nat
  | .send => (i, (F.attr i).sendCq)
  | .recv => (i, (F.attr i).recvCq)

def capacity (c : ι × Nat) : Nat := (F.cqes c.1).getD c.2 0

end Fabric

/-- Per queue the requests not completed, and those completed whose slot is still taken; per CQ
    the entries sitting in it. -/
structure State (ι : Type*) (ρ : Type) where
  uncompleted : WorkQueue ι ρ → Nat
  unretired : WorkQueue ι ρ → Nat
  entries : ι × Nat → List Dir

def init (ι : Type*) (ρ : Type) : State ι ρ := ⟨fun _ => 0, fun _ => 0, fun _ => []⟩

inductive Action (ι : Type*) (ρ : Type) where
  /-- The application posts a signaled request, or a recv. -/
  | post (i : ι) (d : Dir)
  /-- The adapter completes a request of the QP. -/
  | complete (i : ι) (d : Dir)
  /-- A completed request leaves its queue. -/
  | retire (w : WorkQueue ι ρ)
  /-- The CQ's poller takes up to `count` entries. -/
  | poll (c : ι × Nat) (count : Nat)

section Steps

variable {ι : Type*} {ρ : Type} [DecidableEq ι] [DecidableEq ρ] (F : Fabric ι ρ)

def step (s : State ι ρ) : Action ι ρ → Option (State ι ρ)
  | .post i d =>
    let w := F.queue i d
    if s.uncompleted w + s.unretired w < F.depth w then
      some { s with uncompleted := Function.update s.uncompleted w (s.uncompleted w + 1) }
    else none
  | .complete i d =>
    let w := F.queue i d
    let c := F.cq i d
    if 0 < s.uncompleted w then
      some
        { uncompleted := Function.update s.uncompleted w (s.uncompleted w - 1)
          unretired := Function.update s.unretired w (s.unretired w + 1)
          entries := Function.update s.entries c (s.entries c ++ [d]) }
    else none
  | .retire w =>
    if 0 < s.unretired w then
      some { s with unretired := Function.update s.unretired w (s.unretired w - 1) }
    else none
  | .poll c count =>
    some { s with entries := Function.update s.entries c ((s.entries c).drop count) }

def machine : Machine (State ι ρ) (Action ι ρ) where
  step := step F

end Steps

/-! ## 3. The load of a CQ -/

section Load

variable {ι : Type*} {ρ : Type} [DecidableEq ι] (F : Fabric ι ρ)

/-- The requests of one side that will complete into the CQ. -/
def share (s : State ι ρ) (c : ι × Nat) (d : Dir) : Nat :=
  if F.cq c.1 d = c then s.uncompleted (F.queue c.1 d) else 0

/-- What the CQ holds and what will still complete into it. -/
def load (s : State ι ρ) (c : ι × Nat) : Nat :=
  (s.entries c).length + (share F s c .send + share F s c .recv)

/-- A post finds room in every CQ its request may complete into. -/
def Roomy (s : State ι ρ) : Action ι ρ → Prop
  | .post i d => ∀ j e, F.queue j e = F.queue i d →
      load F s (F.cq j e) < F.capacity (F.cq j e)
  | _ => True

/-- Every CQ can take all that is coming to it. -/
def Fits (s : State ι ρ) : Prop :=
  ∀ c, load F s c ≤ F.capacity c

omit [DecidableEq ι] in
/-- Send and receive side never share a queue. -/
theorem queue_dir {i j : ι} {d e : Dir} (h : F.queue i d = F.queue j e) : d = e := by
  unfold Fabric.queue at h
  cases d with
  | send =>
    cases e with
    | send => rfl
    | recv =>
      dsimp only at h
      split at h <;> cases h
  | recv =>
    cases e with
    | send =>
      dsimp only at h
      split at h <;> cases h
    | recv => rfl

theorem share_cq (s : State ι ρ) (i : ι) (d : Dir) :
    share F s (F.cq i d) d = s.uncompleted (F.queue i d) := by
  cases d with
  | send => exact if_pos rfl
  | recv => exact if_pos rfl

/-- The load, seen from one side. -/
theorem load_eq (s : State ι ρ) (c : ι × Nat) (d : Dir) :
    load F s c = (s.entries c).length + (share F s c d + share F s c d.other) := by
  cases d with
  | send => rfl
  | recv => exact congrArg _ (Nat.add_comm _ _)

end Load

section Update

variable {ι : Type*} {ρ : Type} [DecidableEq ι] [DecidableEq ρ] {F : Fabric ι ρ}
  {s t : State ι ρ} {c : ι × Nat} {i : ι} {d : Dir} {n : Nat}

/-- A change in one side's queue leaves the other side's share. -/
theorem share_other (ht : t.uncompleted = Function.update s.uncompleted (F.queue i d) n) :
    share F t c d.other = share F s c d.other := by
  have hne : F.queue c.1 d.other ≠ F.queue i d := fun h => d.other_ne (queue_dir F h)
  unfold share
  rw [ht, Function.update_of_ne hne]

theorem share_hit (ht : t.uncompleted = Function.update s.uncompleted (F.queue i d) n)
    (hc : F.cq c.1 d = c) (hq : F.queue c.1 d = F.queue i d) : share F t c d = n := by
  unfold share
  rw [if_pos hc, ht, hq, Function.update_self]

theorem share_miss (ht : t.uncompleted = Function.update s.uncompleted (F.queue i d) n)
    (hm : ¬ (F.cq c.1 d = c ∧ F.queue c.1 d = F.queue i d)) :
    share F t c d = share F s c d := by
  unfold share
  by_cases hc : F.cq c.1 d = c
  · rw [if_pos hc, if_pos hc, ht, Function.update_of_ne fun hq => hm ⟨hc, hq⟩]
  · rw [if_neg hc, if_neg hc]

/-- **What a step does.** -/
inductive Moves (F : Fabric ι ρ) (s t : State ι ρ) : Action ι ρ → Prop
  | post (i : ι) (d : Dir)
      (room : s.uncompleted (F.queue i d) + s.unretired (F.queue i d) < F.depth (F.queue i d))
      (uncompleted : t.uncompleted =
        Function.update s.uncompleted (F.queue i d) (s.uncompleted (F.queue i d) + 1))
      (entries : t.entries = s.entries) : Moves F s t (.post i d)
  | complete (i : ι) (d : Dir) (waiting : 0 < s.uncompleted (F.queue i d))
      (uncompleted : t.uncompleted =
        Function.update s.uncompleted (F.queue i d) (s.uncompleted (F.queue i d) - 1))
      (entries : t.entries =
        Function.update s.entries (F.cq i d) (s.entries (F.cq i d) ++ [d])) :
      Moves F s t (.complete i d)
  | retire (w : WorkQueue ι ρ) (uncompleted : t.uncompleted = s.uncompleted)
      (entries : t.entries = s.entries) : Moves F s t (.retire w)
  | poll (c : ι × Nat) (count : Nat) (uncompleted : t.uncompleted = s.uncompleted)
      (entries : t.entries = Function.update s.entries c ((s.entries c).drop count)) :
      Moves F s t (.poll c count)

theorem moves_of_step {a : Action ι ρ} (h : step F s a = some t) : Moves F s t a := by
  cases a with
  | post i d =>
    obtain ⟨hroom, h⟩ := Option.ite_none_right_eq_some.mp h
    cases h
    exact .post i d hroom rfl rfl
  | complete i d =>
    obtain ⟨hsome, h⟩ := Option.ite_none_right_eq_some.mp h
    cases h
    exact .complete i d hsome rfl rfl
  | retire w =>
    obtain ⟨-, h⟩ := Option.ite_none_right_eq_some.mp h
    cases h
    exact .retire w rfl rfl
  | poll c count =>
    cases h
    exact .poll c count rfl rfl

/-- A post adds one to the load of the CQs its request may complete into. -/
theorem load_post (hu : t.uncompleted =
      Function.update s.uncompleted (F.queue i d) (s.uncompleted (F.queue i d) + 1))
    (he : t.entries = s.entries) (c : ι × Nat) :
    load F t c = load F s c + if F.cq c.1 d = c ∧ F.queue c.1 d = F.queue i d then 1 else 0 := by
  rw [load_eq F t c d, load_eq F s c d, share_other hu, he]
  split
  next hm =>
    rw [share_hit hu hm.1 hm.2]
    unfold share
    rw [if_pos hm.1, hm.2]
    omega
  next hm =>
    rw [share_miss hu hm, Nat.add_zero]

/-- A completion turns a request into an entry. -/
theorem load_complete_le (hs : 0 < s.uncompleted (F.queue i d))
    (hu : t.uncompleted =
      Function.update s.uncompleted (F.queue i d) (s.uncompleted (F.queue i d) - 1))
    (he : t.entries = Function.update s.entries (F.cq i d) (s.entries (F.cq i d) ++ [d]))
    (c : ι × Nat) : load F t c ≤ load F s c := by
  rw [load_eq F t c d, load_eq F s c d, share_other hu, he]
  by_cases hm : F.cq c.1 d = c ∧ F.queue c.1 d = F.queue i d
  · have hh := share_hit hu hm.1 hm.2
    have hsh : share F s c d = s.uncompleted (F.queue i d) := by
      unfold share
      rw [if_pos hm.1, hm.2]
    by_cases hc : c = F.cq i d
    · rw [hc, Function.update_self, List.length_append, List.length_singleton, ← hc]
      omega
    · rw [Function.update_of_ne hc]
      omega
  · have hc : c ≠ F.cq i d := by
      rintro rfl
      refine hm ⟨?_, ?_⟩
      · cases d <;> rfl
      · cases d <;> rfl
    rw [Function.update_of_ne hc, share_miss hu hm]

/-- A step that finds room keeps every CQ within what it can take. -/
theorem Fits.step {a : Action ι ρ} (hf : Fits F s) (hr : Roomy F s a)
    (h : CqCapacity.step F s a = some t) : Fits F t := by
  intro c
  cases moves_of_step h with
  | post i d _ hu he =>
    rw [load_post hu he c]
    split
    next hm =>
      have hlt := hr c.1 d hm.2
      rw [hm.1] at hlt
      exact hlt
    next => exact hf c
  | complete i d hs hu he => exact (load_complete_le hs hu he c).trans (hf c)
  | retire w hu he =>
    have hl : load F t c = load F s c := by
      unfold load share
      rw [hu, he]
    exact hl.trans_le (hf c)
  | poll c' count hu he =>
    have hl : load F t c ≤ load F s c := by
      unfold load share
      rw [hu, he]
      refine Nat.add_le_add_right ?_ _
      by_cases hc : c = c'
      · rw [hc, Function.update_self, List.length_drop]
        exact Nat.sub_le _ _
      · rw [Function.update_of_ne hc]
    exact hl.trans (hf c)

omit [DecidableEq ρ] in
theorem fits_init (F : Fabric ι ρ) : Fits F (init ι ρ) := by
  intro c
  have h0 : load F (init ι ρ) c = 0 := by
    unfold load share init
    simp
  rw [h0]
  exact Nat.zero_le _

/-- **Posts that find room never overrun a CQ**, whatever its poller does. -/
theorem fits_reach (h : (machine F).ReachIf (Roomy F) (init ι ρ) s) : Fits F s :=
  h.invariant (fits_init F) fun _ _ _ hf hr hs => hf.step hr hs

omit [DecidableEq ρ] in
theorem Fits.entries_le (hf : Fits F s) (c : ι × Nat) : (s.entries c).length ≤ F.capacity c :=
  (Nat.le_add_right _ _).trans (hf c)

/-! ## 4. Without room -/

/-- Only the adapter moves. -/
def Completing : State ι ρ → Action ι ρ → Prop
  | _, .complete _ _ => True
  | _, _ => False

/-- The adapter may complete all requests of one side, with no poll in between. -/
theorem complete_all (F : Fabric ι ρ) (c : ι × Nat) (d : Dir) (s : State ι ρ) :
    ∃ u, (machine F).ReachIf Completing s u ∧
      (u.entries c).length = (s.entries c).length + share F s c d ∧
      share F u c d.other = share F s c d.other := by
  generalize hn : share F s c d = n
  induction n generalizing s with
  | zero => exact ⟨s, .start, rfl, rfl⟩
  | succ n ih =>
    have hc : F.cq c.1 d = c := by
      by_contra hc
      unfold share at hn
      rw [if_neg hc] at hn
      cases hn
    have hq : s.uncompleted (F.queue c.1 d) = n + 1 := by
      rw [← hn, ← share_cq, hc]
    -- one completion, then the rest
    have hpos : 0 < s.uncompleted (F.queue c.1 d) := hq ▸ Nat.succ_pos n
    obtain ⟨t, ht⟩ : ∃ t, (machine F).step s (.complete c.1 d) = some t := ⟨_, if_pos hpos⟩
    have hm : Moves F s t (.complete c.1 d) := moves_of_step ht
    cases hm with
    | complete _ _ _ hu he =>
      have hsh : share F t c d = n := by
        rw [share_hit hu hc rfl, hq]
        rfl
      obtain ⟨u, hru, hlen, hoth⟩ := ih t hsh
      refine ⟨u, (Machine.ReachIf.step _ .start trivial ht).trans hru, ?_, ?_⟩
      · rw [hlen, he, hc, Function.update_self, List.length_append, List.length_singleton]
        omega
      · rw [hoth, share_other hu]

/-- **A CQ with more coming than it can take can be overrun by completions alone.** -/
theorem overrun_of_load {c : ι × Nat} (h : F.capacity c < load F s c) :
    ∃ u, (machine F).ReachIf Completing s u ∧ F.capacity c < (u.entries c).length := by
  obtain ⟨u, hu, hlen, hoth⟩ := complete_all F c .send s
  obtain ⟨v, hv, hlen', -⟩ := complete_all F c .recv u
  refine ⟨v, hu.trans hv, ?_⟩
  have hsh : share F u c .recv = share F s c .recv := hoth
  unfold load at h
  omega

/-- **A post that finds no room lets completions alone overrun a CQ.** -/
theorem overrun_of_not_roomy (h : step F s (.post i d) = some t)
    (hr : ¬ Roomy F s (.post i d)) :
    ∃ j e u, (machine F).ReachIf Completing t u ∧
      F.capacity (F.cq j e) < (u.entries (F.cq j e)).length := by
  unfold Roomy at hr
  push Not at hr
  obtain ⟨j, e, hq, hle⟩ := hr
  refine ⟨j, e, overrun_of_load ?_⟩
  cases moves_of_step h with
  | post _ _ _ hu he =>
    have hd : e = d := queue_dir F hq
    subst hd
    have hm : F.cq (F.cq j e).1 e = F.cq j e ∧ F.queue (F.cq j e).1 e = F.queue i e := by
      cases e with
      | send => exact ⟨rfl, hq⟩
      | recv => exact ⟨rfl, hq⟩
    rw [load_post hu he, if_pos hm]
    omega

end Update

/-! ## 5. The helpers' QPs -/

section Helpers

variable {ι : Type*} {ρ : Type} [DecidableEq ι] [DecidableEq ρ]

/-- **The CQs of the connection helpers.** Over any number of QPs made by `connect` and `accept`,
    on SRQs or not, every run whose posts find room keeps each CQ within what `alloc_cq` asked
    for. An accepted post that finds none, in whatever run, leaves a CQ that completions alone
    overrun. -/
theorem cq_within_capacity (helper : ι → Helper) (srq : ι → Option ρ) (srqMaxWr : ρ → Nat) :
    let F := helperFabric helper srq srqMaxWr
    (∀ s, (machine F).ReachIf (Roomy F) (init ι ρ) s → ∀ i d,
      (s.entries (F.cq i d)).length ≤ F.capacity (F.cq i d)) ∧
    (∀ s t i d, (machine F).Reach (init ι ρ) s → (machine F).step s (.post i d) = some t →
      ¬ Roomy F s (.post i d) →
      ∃ j e u, (machine F).ReachIf Completing t u ∧
        F.capacity (F.cq j e) < (u.entries (F.cq j e)).length) :=
  ⟨fun _ h _ _ => (fits_reach h).entries_le _, fun _ _ _ _ _ => overrun_of_not_roomy⟩

end Helpers

section Posted

variable {ι : Type*} {ρ : Type} [DecidableEq ι] [DecidableEq ρ]

/-- Up to its depth a send queue takes posts from the start, with no completion in between. -/
theorem exists_posted (F : Fabric ι ρ) (i : ι) (n : Nat) (hn : n ≤ F.depth (.sq i)) :
    ∃ s, (machine F).Reach (init ι ρ) s ∧ s.uncompleted (.sq i) = n ∧
      s.unretired (.sq i) = 0 := by
  induction n with
  | zero => exact ⟨_, .start, rfl, rfl⟩
  | succ n ih =>
    obtain ⟨s, hs, hu, hr⟩ := ih (Nat.le_of_succ_le hn)
    have hroom : s.uncompleted (.sq i) + s.unretired (.sq i) < F.depth (.sq i) := by
      rw [hu, hr]
      exact hn
    refine ⟨_, .step (.post i .send) hs trivial (if_pos hroom), ?_, hr⟩
    show Function.update s.uncompleted (.sq i) (s.uncompleted (.sq i) + 1) (.sq i) = n + 1
    rw [Function.update_self, hu]

omit [DecidableEq ρ] in
theorem posted_le_load (F : Fabric ι ρ) (s : State ι ρ) (i : ι) :
    s.uncompleted (.sq i) ≤ load F s (F.cq i .send) := by
  have hsh : share F s (F.cq i .send) .send = s.uncompleted (.sq i) := share_cq F s i .send
  unfold load
  omega

end Posted

/-- One QP of an acceptor, no SRQ. -/
def acceptorQp : Fabric Unit Empty :=
  helperFabric (fun _ => .acceptor) (fun _ => none) fun r => nomatch r

/-- 257 sends of an accepted QP, completed before the poller runs, overrun its send CQ. -/
theorem accepted_qp_overruns : ¬ ∀ s, (machine acceptorQp).Reach (init Unit Empty) s →
    ∀ i d, (s.entries (acceptorQp.cq i d)).length ≤ acceptorQp.capacity (acceptorQp.cq i d) := by
  intro h
  obtain ⟨s, hs, hu, -⟩ := exists_posted acceptorQp () 257 (by decide)
  have hload : acceptorQp.capacity (acceptorQp.cq () .send) <
      load acceptorQp s (acceptorQp.cq () .send) := by
    have hle := posted_le_load acceptorQp s ()
    rw [hu] at hle
    exact Nat.lt_of_lt_of_le (by decide) hle
  obtain ⟨u, hsu, hlt⟩ := overrun_of_load hload
  exact Nat.not_lt.mpr (h u (hs.trans hsu.reach) () .send) hlt

/-- Both halves on one accepted QP: a send that finds room and is completed, and the 257th of
    257 sends. -/
theorem cq_within_capacity_accepted :
    (∃ s, (machine acceptorQp).ReachIf (Roomy acceptorQp) (init Unit Empty) s ∧
      (s.entries ((), 0)).length = 1 ∧ (s.entries ((), 0)).length ≤ 256) ∧
    (∃ s t, (machine acceptorQp).Reach (init Unit Empty) s ∧
      (machine acceptorQp).step s (.post () .send) = some t ∧
      ∃ j e u, (machine acceptorQp).ReachIf Completing t u ∧
        acceptorQp.capacity (acceptorQp.cq j e) < (u.entries (acceptorQp.cq j e)).length) := by
  obtain ⟨hfit, hover⟩ := cq_within_capacity (fun _ : Unit => .acceptor)
    (fun _ => (none : Option Empty)) fun r => nomatch r
  refine ⟨?_, ?_⟩
  · have hroomy : Roomy acceptorQp (init Unit Empty) (.post () .send) := by
      rintro ⟨⟩ e _
      cases e with
      | send => decide
      | recv => decide
    have hr := Machine.ReachIf.step (M := machine acceptorQp) (C := Roomy acceptorQp)
      (.complete () .send) (.step (.post () .send) .start hroomy rfl) trivial rfl
    exact ⟨_, hr, rfl, hfit _ hr () .send⟩
  · obtain ⟨s, hs, hu, hr⟩ := exists_posted acceptorQp () 256 (by decide)
    have hroom : s.uncompleted (.sq ()) + s.unretired (.sq ()) < acceptorQp.depth (.sq ()) := by
      rw [hu, hr]
      decide
    refine ⟨s, _, hs, if_pos hroom, hover s _ () .send hs (if_pos hroom) fun hroomy => ?_⟩
    have hlt := hroomy () .send rfl
    have hle := posted_le_load acceptorQp s ()
    rw [hu] at hle
    exact Nat.not_lt.mpr hle hlt

end CqCapacity
end Rdmapp
