/-
  File:      Rdmapp/Objects/Teardown.lean
  Subject:   TEARDOWN: children before parents, each verbs object once.

  `ProcInv` ties the log of verbs calls to the heap: what was created was destroyed, is pending
  in a destructor or with a live object, or was leaked by a constructor. The heap's own
  invariant (`Lib.Heap.Inv`) says that what a pending `ibv_destroy_*` needs is alive, and the wiring
  of the wrappers that this is the wrapper of a parent. So a parent goes after its children
  (`ProcInv.parent_open`) and a polled CQ is open (`ProcInv.polled_open`).
-/
import Rdmapp.Objects.Construction

namespace Rdmapp
namespace Objects

open Lib Heap

/-! ## 1. The invariant -/

/-- The wrappers an effect needs, by address: those of the parents; the CQ a poller polls. -/
def Effect.needs : Effect → Nat → Prop
  | .destroy v, m => ∃ p ∈ v.parents, p.id = m
  | .err _, _ => False
  | .join _ cq, m => m = cq

/-- Created and not yet destroyed. -/
def IsOpen (log : List Event) (v : VerbsObject) : Prop :=
  log.count (.destroyed v) < log.count (.created v)

/-- Every poll so far was on a CQ not yet destroyed. -/
def PollsOpen : List Event → Prop
  | [] => True
  | .polled c :: log => .destroyed (.cq c) ∉ log ∧ PollsOpen log
  | _ :: log => PollsOpen log

/-- A wrapper at an address carries the handle of that number; a region may have moved. -/
def Wrapper.At (a : Nat) : Wrapper → Prop
  | .device ctx _ => ctx.id = a
  | .pd p _ => p.id = a
  | .cq c _ => c.id = a
  | .srq s _ => s.id = a
  | .poller this _ => this = a
  | .localMr _ _ | .qp .. => True

/-- The destructions to come, or under way, of a verbs object. -/
def Process.pendingDestroys (s : Process) (v : VerbsObject) : Nat :=
  pending layout s.heap (.run (.destroy v))

/-- The parents of a verbs object have wrappers. -/
def Process.Wired (s : Process) (v : VerbsObject) : Prop :=
  ∀ p ∈ v.parents, ∃ o, s.heap.objAt p.id = some o ∧ p ∈ o.handles

/-- **The invariant of a process** whose constructors leaked `leaked`. -/
structure ProcInv (leaked : List VerbsObject) (s : Process) : Prop where
  heap : Heap.Inv layout Effect.needs s.heap
  balance : ∀ v, s.log.count (.created v) =
    s.log.count (.destroyed v) + s.pendingDestroys v + leaked.count v
  once : ∀ v, s.log.count (.created v) ≤ 1
  old : ∀ v, .created v ∈ s.log → v.id < s.next
  placed : ∀ a o, s.heap.objAt a = some o → o.At a
  wired : ∀ v, .created v ∈ s.log → s.Wired v
  joins : ∀ p this cq, s.heap.objAt p = some (.poller this cq) → p ∉ s.exited →
    0 < pending layout s.heap (.run (.join p cq))
  joined : ∀ p cq, 0 < pending layout s.heap (.run (.join p cq)) →
    ∃ this, s.heap.objAt p = some (.poller this cq)
  polls : PollsOpen s.log

theorem procInv_start : ProcInv [] Process.start where
  heap := inv_empty
  balance v := by simp [Process.start, Process.pendingDestroys, pending, total, Heap.empty]
  once v := by simp [Process.start]
  old v hv := by simp [Process.start] at hv
  placed a o ho := by simp [Process.start, objAt, Heap.empty] at ho
  wired v hv := by simp [Process.start] at hv
  joins p this cq hp := by simp [Process.start, objAt, Heap.empty] at hp
  joined p cq hp := by simp [Process.start, pending, total, Heap.empty] at hp
  polls := trivial

theorem pollsOpen_append {new log : List Event} (hq : ∀ c, .polled c ∉ new) (h : PollsOpen log) :
    PollsOpen (new ++ log) := by
  induction new with
  | nil => exact h
  | cons e new ih =>
    have ih := ih fun c hc => hq c (List.mem_cons_of_mem e hc)
    cases e with
    | polled c => exact absurd List.mem_cons_self (hq c)
    | created v => exact ih
    | destroyed v => exact ih
    | erred q => exact ih

/-- A region has no children. -/
theorem not_mr_of_parent {v p : VerbsObject} (hp : p ∈ v.parents) (m : IbvRegion) : p ≠ .mr m := by
  rintro rfl
  cases v with
  | qp q =>
    obtain ⟨id, pd, rc, sc, srq⟩ := q
    cases srq <;> simp [VerbsObject.parents] at hp
  | _ => simp [VerbsObject.parents] at hp

/-! ## 2. What the invariant says -/

section Reading

variable {leaked : List VerbsObject} {s : Process}

/-- A live wrapper's handles are still to be destroyed. -/
theorem pending_of_alive {a : Nat} {o : Wrapper} {v : VerbsObject} (ha : s.heap.Alive a)
    (ho : s.heap.objAt a = some o) (hv : v ∈ o.handles) : 0 < s.pendingDestroys v := by
  obtain ⟨b, hb, hu⟩ := exists_block_of_alive ha
  obtain rfl : b.obj = o := Option.some.inj ((objAt_eq hb).symm.trans ho)
  exact pending_pos_iff.mpr <|
    .inr ⟨b, List.mem_of_getElem? hb, hu, run_mem_teardown.mpr (destroy_mem_body.mpr hv)⟩

variable (hi : ProcInv leaked s)
include hi

theorem ProcInv.created_of_pending {v : VerbsObject} (hp : 0 < s.pendingDestroys v) :
    .created v ∈ s.log := by
  have := hi.balance v
  exact List.count_pos_iff.mp (by omega)

/-- What is still to be destroyed has not been. -/
theorem ProcInv.open_of_pending {v : VerbsObject} (hp : 0 < s.pendingDestroys v) :
    IsOpen s.log v ∧ .destroyed v ∉ s.log := by
  have hb := hi.balance v
  have ho := hi.once v
  refine ⟨?_, fun hd => ?_⟩
  · unfold IsOpen
    omega
  · have := List.count_pos_iff.mpr hd
    omega

/-- **The parents of what is still to be destroyed are still to be destroyed.** -/
theorem ProcInv.parent_pending {v p : VerbsObject} (hv : 0 < s.pendingDestroys v)
    (hp : p ∈ v.parents) : 0 < s.pendingDestroys p := by
  obtain ⟨o, ho, hmem⟩ := hi.wired v (hi.created_of_pending hv) p hp
  exact pending_of_alive (hi.heap.alive_of_pending hv ⟨p, hp, rfl⟩) ho hmem

/-- **The CQ a running poller reads is open.** -/
theorem ProcInv.polled_open {p : Nat} {c : IbvCq} (hp : s.polledCq p = some c) :
    0 < s.pendingDestroys (.cq c) := by
  unfold Process.polledCq at hp
  split at hp
  next this cq hthis =>
    split at hp
    next c' d hcq =>
      split at hp
      · cases hp
      next hrun =>
        cases hp
        have halive := hi.heap.alive_of_pending (hi.joins p this cq hthis hrun) rfl
        exact pending_of_alive halive hcq List.mem_cons_self
    · cases hp
  · cases hp

end Reading

/-! ## 3. Construction keeps it -/

variable {leaked : List VerbsObject} {s t : Process}

/-- What a new object must be: its members held by the caller, what its effects need among them. -/
structure Owns (s : Process) (o : Wrapper) : Prop where
  members : ∀ m ∈ layout.members o, m ∈ s.heap.refs
  needs : ∀ e ∈ layout.body o, ∀ m, e.needs m → m ∈ layout.members o
  placed : o.At s.next

theorem objAt_lt {h : Heap Wrapper Effect} {a : Nat} {o : Wrapper} (ho : h.objAt a = some o) :
    a < h.blocks.length := by
  refine Nat.lt_of_not_le fun hle => ?_
  rw [objAt_fresh hle] at ho
  cases ho

theorem objAt_build (h : Heap Wrapper Effect) (ms : List Nat) (o : Wrapper) (a : Nat) :
    ((h.copyAll ms).adopt layout o).objAt a =
      if a = h.blocks.length then some o else h.objAt a := by
  refine (objAt_append ⟨1, o⟩ _ (h.copyAll ms).tasks _ a).trans ?_
  rw [length_copyAll]
  split
  · rfl
  · exact objAt_copyAll ms a

theorem objAt_abandon (h : Heap Wrapper Effect) (husk : Wrapper) (a : Nat) :
    (h.abandon husk).objAt a = if a = h.blocks.length then some husk else h.objAt a :=
  objAt_append ⟨0, husk⟩ h.refs h.tasks h.blocks a

/-- The parents stay wired when an object is added. -/
theorem Process.Wired.mono {v : VerbsObject} (hw : s.Wired v)
    (ho : ∀ a o, s.heap.objAt a = some o → t.heap.objAt a = some o) : t.Wired v := by
  intro p hp
  obtain ⟨o, hpo, hmem⟩ := hw p hp
  exact ⟨o, ho _ _ hpo, hmem⟩

theorem teardown_movedFrom : teardown layout Wrapper.movedFrom = [] := rfl

/-- A join stands in the destructor of the poller it joins. -/
theorem join_mem_body {o : Wrapper} {a p cq : Nat} (hj : .join p cq ∈ layout.body o)
    (ho : o.At a) : p = a ∧ o = .poller p cq := by
  cases o with
  | device ctx l => cases l <;> simp [layout] at hj
  | localMr mr pd => cases mr <;> simp [layout] at hj
  | poller this cq' =>
    obtain ⟨rfl, rfl⟩ := Effect.join.inj (List.mem_singleton.mp hj)
    exact ⟨ho, rfl⟩
  | _ => simp [layout] at hj

theorem count_created_new {Q : VerbsObject → Prop} {left : List VerbsObject} {new : List Event}
    (hi : ProcInv leaked s) (hb : Builds Q left new) (hQ : ∀ v, Q v → v.id = s.next)
    (v : VerbsObject) : (new ++ s.log).count (.created v) ≤ 1 := by
  rw [List.count_append]
  have hn := hb.once v
  have ho := hi.once v
  by_cases hv : .created v ∈ new
  · have hlog : .created v ∉ s.log := fun h => by
      have := hi.old v h
      rw [hQ v (hb.made v hv)] at this
      exact Nat.lt_irrefl _ this
    rw [List.count_eq_zero.mpr hlog]
    omega
  · rw [List.count_eq_zero.mpr hv]
    omega

/-- **One more object, whole or a husk**: it is the object `o` behind a new address, its effects
    are to come, and what the constructor left open are its handles and `lost`. -/
theorem ProcInv.grow (hi : ProcInv leaked s) {h : Heap Wrapper Effect} {o : Wrapper}
    {Q : VerbsObject → Prop} {left lost : List VerbsObject} {new : List Event}
    (hb : Builds Q left new) (hQ : ∀ v, Q v → v.id = s.next ∧ s.Wired v)
    (hh : Heap.Inv layout Effect.needs h)
    (hobj : ∀ a, h.objAt a = if a = s.heap.blocks.length then some o else s.heap.objAt a)
    (hlen : h.blocks.length = s.next + 1)
    (hpend : ∀ e, pending layout h (.run e) =
      pending layout s.heap (.run e) + (layout.body o).count e)
    (hleft : ∀ v, left.count v = (layout.body o).count (.destroy v) + lost.count v)
    (hplaced : o.At s.next) :
    ProcInv (lost ++ leaked) ⟨h, new ++ s.log, s.stopping, s.exited⟩ := by
  have hkeep : ∀ a o', s.heap.objAt a = some o' → h.objAt a = some o' := by
    intro a o' ho'
    rw [hobj, if_neg (Nat.ne_of_lt (objAt_lt ho'))]
    exact ho'
  refine ⟨hh, fun v => ?_, count_created_new hi hb fun v hv => (hQ v hv).1, fun v hv => ?_,
    fun a o' ho' => ?_, fun v hv => ?_, fun p this cq hp hrun => ?_, fun p cq hp => ?_,
    pollsOpen_append hb.quiet hi.polls⟩
  · have hbal := hi.balance v
    have hnew := hb.balance v
    have hv := hpend (.destroy v)
    rw [hleft] at hnew
    show (new ++ s.log).count _ = (new ++ s.log).count _ + pending layout h _ +
      (lost ++ leaked).count v
    unfold Process.pendingDestroys at hbal
    rw [List.count_append, List.count_append, List.count_append, hv]
    omega
  · show v.id < h.blocks.length
    rw [hlen]
    rcases List.mem_append.mp hv with hv | hv
    · rw [(hQ v (hb.made v hv)).1]
      exact Nat.lt_succ_self _
    · exact Nat.lt_succ_of_lt (hi.old v hv)
  · change h.objAt a = some o' at ho'
    rw [hobj] at ho'
    split at ho'
    next ha =>
      cases ho'
      rw [ha]
      exact hplaced
    next => exact hi.placed a o' ho'
  · rcases List.mem_append.mp hv with hv | hv
    · exact (hQ v (hb.made v hv)).2.mono hkeep
    · exact (hi.wired v hv).mono hkeep
  · show 0 < pending layout h _
    rw [hpend]
    change h.objAt p = _ at hp
    rw [hobj] at hp
    split at hp
    next ha =>
      cases hp
      have hthis : this = s.next := hplaced
      have hbody : (layout.body (.poller this cq)).count (.join p cq) = 1 := by
        simp [layout, hthis, ha, Process.next]
      omega
    next =>
      have := hi.joins p this cq hp hrun
      omega
  · change 0 < pending layout h _ at hp
    rw [hpend] at hp
    by_cases hbody : 0 < (layout.body o).count (.join p cq)
    · obtain ⟨hpn, ho⟩ := join_mem_body (List.count_pos_iff.mp hbody) hplaced
      refine ⟨p, ?_⟩
      show h.objAt p = _
      rw [hobj, if_pos (show p = s.heap.blocks.length from hpn), ho]
    · obtain ⟨this, ho⟩ := hi.joined p cq (by omega)
      exact ⟨this, hkeep p _ ho⟩

theorem ProcInv.construct (hi : ProcInv leaked s) (lost : List VerbsObject)
    {ctor : VerbsM Wrapper} {Q : VerbsObject → Prop} {R : Wrapper → Prop}
    (hr : Ran Q R lost s.log (ctor s.log)) (hQ : ∀ v, Q v → v.id = s.next ∧ s.Wired v)
    (hR : ∀ o, R o → Owns s o) (ht : s.construct ctor = some t) :
    ProcInv (lost ++ leaked) t := by
  unfold Process.construct at ht
  generalize ctor s.log = r at hr ht
  cases hr with
  | returned o new builds ho clean =>
    cases ht
    subst clean
    have hOwns := hR o ho
    refine hi.grow builds hQ (hi.heap.build hOwns.members (covered_teardown hOwns.needs))
      (objAt_build s.heap (layout.members o) o) ?_ (fun e => ?_) (fun v => ?_) hOwns.placed
    · simp [adopt, Process.next]
    · rw [← count_run_teardown]
      exact hi.heap.total_build hOwns.members
    · rw [← count_body]
      rfl
  | threw f new builds hf =>
    have ht : some (⟨s.heap.abandon .movedFrom, new ++ s.log, s.stopping, s.exited⟩ : Process) =
        some t := by
      cases f with
      | crash => exact absurd rfl hf
      | exception e => exact ht
      | invalidArgument what => exact ht
    cases ht
    refine hi.grow builds hQ (hi.heap.abandon teardown_movedFrom) (objAt_abandon s.heap .movedFrom)
      ?_ (fun e => total_abandon) (fun v => (Nat.zero_add _).symm) trivial
    simp [abandon, Process.next]
  | crashed log' => cases ht

/-! ## 4. Every step keeps it -/

theorem object_eq_some {a : Nat} {o : Wrapper} (h : s.object a = some o) :
    a ∈ s.heap.refs ∧ s.heap.objAt a = some o :=
  Option.ite_none_right_eq_some.mp h

/-- Work on the heap that adds and removes no effect. -/
theorem ProcInv.of_heap (hi : ProcInv leaked s) {h : Heap Wrapper Effect}
    (hh : Heap.Inv layout Effect.needs h)
    (hrun : ∀ e, pending layout h (.run e) = pending layout s.heap (.run e))
    (hobj : ∀ a, h.objAt a = s.heap.objAt a) (hlen : h.blocks.length = s.next) (st : List Nat) :
    ProcInv leaked ⟨h, s.log, st, s.exited⟩ where
  heap := hh
  balance v := by
    show _ = _ + pending layout h _ + _
    rw [hrun]
    exact hi.balance v
  once := hi.once
  old v hv := by
    show _ < h.blocks.length
    rw [hlen]
    exact hi.old v hv
  placed a o ho := hi.placed a o ((hobj a).symm.trans ho)
  wired v hv := (hi.wired v hv).mono fun a o ho => (hobj a).trans ho
  joins p this cq hp hr := by
    show 0 < pending layout h _
    rw [hrun]
    exact hi.joins p this cq ((hobj p).symm.trans hp) hr
  joined p cq hp := by
    change 0 < pending layout h _ at hp
    rw [hrun] at hp
    obtain ⟨this, ho⟩ := hi.joined p cq hp
    exact ⟨this, (hobj p).trans ho⟩
  polls := hi.polls

/-- The end of an effect. -/
theorem pending_finish {h : Heap Wrapper Effect} {i : Nat} {e : Effect}
    {rest : List (Lib.Task Effect)} (ht : h.tasks[i]? = some (.run e :: rest)) (e' : Effect) :
    pending layout (h.finish i rest) (.run e') + (if e' = e then 1 else 0) =
      pending layout h (.run e') := by
  have hone : one (.run e') (.run e) = if e' = e then 1 else 0 := by
    simp [one, eq_comm]
  rw [← hone]
  exact total_finish ht

theorem pending_of_finish {h : Heap Wrapper Effect} {i : Nat} {e e' : Effect}
    {rest : List (Lib.Task Effect)} (ht : h.tasks[i]? = some (.run e :: rest))
    (hp : 0 < pending layout (h.finish i rest) (.run e')) : 0 < pending layout h (.run e') := by
  have := pending_finish ht e'
  omega

/-- A destructor's effect. -/
theorem ProcInv.perform (hi : ProcInv leaked s) {i : Nat} {e : Effect}
    {rest : List (Lib.Task Effect)} (ht : s.heap.tasks[i]? = some (.run e :: rest))
    (hs : s.perform i rest e = some t) : ProcInv leaked t := by
  have hfin := hi.heap.finish ht
  cases e with
  | destroy v =>
    cases hs
    refine ⟨hfin, fun u => ?_, fun u => ?_, fun u hu => hi.old u (by simpa using hu), hi.placed,
      fun u hu => hi.wired u (by simpa using hu), fun p this cq hp hr => ?_,
      fun p cq hp => hi.joined p cq (pending_of_finish ht hp), hi.polls⟩
    · have hb := hi.balance u
      have hp := pending_finish ht (.destroy u)
      show (Event.destroyed v :: s.log).count _ = (Event.destroyed v :: s.log).count _ +
        pending layout (s.heap.finish i rest) _ + _
      unfold Process.pendingDestroys at hb
      by_cases hu : v = u
      · subst hu
        simp only [List.count_cons, beq_iff_eq, reduceCtorEq, if_false, if_true] at hp ⊢
        omega
      · simp only [Effect.destroy.injEq, Ne.symm hu, if_false] at hp
        simp only [List.count_cons, beq_iff_eq, reduceCtorEq, Event.destroyed.injEq, hu, if_false]
        omega
    · simpa using hi.once u
    · have hj := hi.joins p this cq hp hr
      have hp := pending_finish ht (.join p cq)
      simp only [reduceCtorEq, if_false] at hp
      show 0 < pending layout (s.heap.finish i rest) _
      omega
  | err q =>
    cases hs
    refine ⟨hfin, fun u => ?_, fun u => ?_, fun u hu => hi.old u (by simpa using hu), hi.placed,
      fun u hu => hi.wired u (by simpa using hu), fun p this cq hp hr => ?_,
      fun p cq hp => hi.joined p cq (pending_of_finish ht hp), hi.polls⟩
    · have hp := pending_finish ht (.destroy u)
      simp only [reduceCtorEq, if_false, Nat.add_zero] at hp
      have hb := hi.balance u
      show (Event.erred q :: s.log).count _ = (Event.erred q :: s.log).count _ +
        pending layout (s.heap.finish i rest) _ + _
      unfold Process.pendingDestroys at hb
      simp only [List.count_cons, beq_iff_eq, reduceCtorEq, if_false]
      omega
    · simpa using hi.once u
    · have hj := hi.joins p this cq hp hr
      have hp := pending_finish ht (.join p cq)
      simp only [reduceCtorEq, if_false] at hp
      show 0 < pending layout (s.heap.finish i rest) _
      omega
  | join q cq =>
    simp only [Process.perform] at hs
    split at hs
    · cases hs
      exact hi.of_heap hi.heap (fun _ => rfl) (fun _ => rfl) rfl _
    · obtain ⟨hq, hs⟩ := Option.ite_none_right_eq_some.mp hs
      cases hs
      refine ⟨hfin, fun u => ?_, hi.once, hi.old, hi.placed, hi.wired, fun p this cq' hp hr => ?_,
        fun p cq hp => hi.joined p cq (pending_of_finish ht hp), hi.polls⟩
      · have hp := pending_finish ht (.destroy u)
        simp only [reduceCtorEq, if_false, Nat.add_zero] at hp
        show _ = _ + pending layout (s.heap.finish i rest) _ + _
        rw [hp]
        exact hi.balance u
      · -- the thread that was joined had left its loop
        have hj := hi.joins p this cq' hp hr
        have hne : Effect.join p cq' ≠ .join q cq := by
          rintro ⟨⟩
          exact hr hq
        have hp := pending_finish ht (.join p cq')
        rw [if_neg hne] at hp
        show 0 < pending layout (s.heap.finish i rest) _
        omega

/-- What an action's constructor leaks. -/
def Action.leak (id : Nat) : Action → List VerbsObject
  | .newDevice ctor env => ctor.leak env id
  | _ => []

section Machine

variable {strerror : Int → String}

/-- The constructor of an object with one verbs object, made from its parents. -/
theorem ProcInv.single (hi : ProcInv leaked s) {o : Wrapper} {v : VerbsObject} {r : MakeResult}
    {message : String} (ho : o.handles = [v]) (hid : v.id = s.next) (hw : s.Wired v)
    (hown : Owns s o)
    (ht : s.construct (do make strerror v r message; pure o) = some t) : ProcInv leaked t := by
  refine hi.construct [] (make_ran strerror ho r message s.log) ?_ ?_ ht
  · rintro u rfl
    exact ⟨hid, hw⟩
  · rintro o' rfl
    exact hown

/-- A child of one object: it keeps that object, and its verbs object is made on that object's. -/
theorem ProcInv.child (hi : ProcInv leaked s) {d : Nat} {od o : Wrapper} {p v : VerbsObject}
    {r : MakeResult} {message : String} (hd : s.object d = some od) (hp : p ∈ od.handles)
    (hpid : p.id = d) (hbody : layout.body o = [.destroy v]) (hmembers : layout.members o = [d])
    (hhandles : o.handles = [v]) (hparents : v.parents = [p]) (hid : v.id = s.next)
    (hat : o.At s.next) (ht : s.construct (do make strerror v r message; pure o) = some t) :
    ProcInv leaked t := by
  obtain ⟨hmem, hod⟩ := object_eq_some hd
  refine hi.single hhandles hid ?_ ⟨fun m hm => ?_, fun e he m hm => ?_, hat⟩ ht
  · intro q hq
    rw [hparents] at hq
    cases List.mem_singleton.mp hq
    exact ⟨od, hpid ▸ hod, hp⟩
  · rw [hmembers] at hm
    cases List.mem_singleton.mp hm
    exact hmem
  · rw [hbody] at he
    cases List.mem_singleton.mp he
    obtain ⟨q, hq, rfl⟩ := hm
    rw [hparents] at hq
    cases List.mem_singleton.mp hq
    rw [hmembers, hpid]
    exact List.mem_singleton_self d

/-- A queue pair keeps its protection domain, its CQs and its SRQ, if any. -/
theorem ProcInv.newQp (hi : ProcInv leaked s) {a rcq scq : Nat} {srq : Option Nat} {p : IbvPd}
    {rc sc : IbvCq} {r : Option IbvSrq} {d dr ds : Nat} (hp : s.object a = some (.pd p d))
    (hrc : s.object rcq = some (.cq rc dr)) (hsc : s.object scq = some (.cq sc ds))
    (hsrq : ∀ q ∈ srq, ∃ i e, r = some i ∧ s.object q = some (.srq i e))
    (hnone : srq = none → r = none)
    (ht : s.construct (qp s.next a rcq scq srq p rc sc r) = some t) : ProcInv leaked t := by
  obtain ⟨hpm, hpo⟩ := object_eq_some hp
  obtain ⟨hrm, hro⟩ := object_eq_some hrc
  obtain ⟨hsm, hso⟩ := object_eq_some hsc
  have hpa : p.id = a := hi.placed _ _ hpo
  have hra : rc.id = rcq := hi.placed _ _ hro
  have hsa : sc.id = scq := hi.placed _ _ hso
  -- the SRQ, when there is one
  have hopt : ∀ i, r = some i → ∃ q e, srq = some q ∧ s.object q = some (.srq i e) := by
    intro i hr
    cases srq with
    | none => simp [hnone rfl] at hr
    | some q =>
      obtain ⟨i', e, hi', ho⟩ := hsrq q rfl
      rw [hr] at hi'
      cases hi'
      exact ⟨q, e, rfl, ho⟩
  have hparent : ∀ u ∈ (VerbsObject.qp ⟨s.next, p, rc, sc, r⟩).parents,
      (∃ o, s.heap.objAt u.id = some o ∧ u ∈ o.handles) ∧
        u.id ∈ layout.members (.qp ⟨s.next, p, rc, sc, r⟩ a rcq scq srq) := by
    intro u hu
    simp only [VerbsObject.parents, List.mem_append, List.mem_cons, List.not_mem_nil, or_false,
      Option.mem_toList, Option.map_eq_some_iff] at hu
    rcases hu with (rfl | rfl | rfl) | ⟨i, hr, rfl⟩
    · exact ⟨⟨_, hpa ▸ hpo, List.mem_cons_self⟩, by simp [layout, VerbsObject.id, hpa]⟩
    · exact ⟨⟨_, hsa ▸ hso, List.mem_cons_self⟩, by simp [layout, VerbsObject.id, hsa]⟩
    · exact ⟨⟨_, hra ▸ hro, List.mem_cons_self⟩, by simp [layout, VerbsObject.id, hra]⟩
    · obtain ⟨q, e, hq, ho⟩ := hopt i hr
      obtain ⟨-, hqo⟩ := object_eq_some ho
      have hqa : i.id = q := hi.placed _ _ hqo
      exact ⟨⟨_, hqa ▸ hqo, List.mem_cons_self⟩, by simp [layout, VerbsObject.id, hqa, hq]⟩
  have hbuilds : Builds (· = .qp ⟨s.next, p, rc, sc, r⟩) [.qp ⟨s.next, p, rc, sc, r⟩]
      [.created (.qp ⟨s.next, p, rc, sc, r⟩)] := builds_nil.created rfl List.not_mem_nil
  have hran : Ran (· = .qp ⟨s.next, p, rc, sc, r⟩) (· = .qp ⟨s.next, p, rc, sc, r⟩ a rcq scq srq)
      [] s.log (qp s.next a rcq scq srq p rc sc r s.log) :=
    Ran.returned (.qp ⟨s.next, p, rc, sc, r⟩ a rcq scq srq) _ hbuilds rfl rfl
  refine hi.construct [] hran ?_ ?_ ht
  · rintro v rfl
    exact ⟨rfl, fun u hu => (hparent u hu).1⟩
  · rintro o rfl
    refine ⟨fun m hm => ?_, fun e he m hm => ?_, trivial⟩
    · simp only [layout, List.mem_append, Option.mem_toList, List.mem_cons, List.not_mem_nil,
        or_false] at hm
      rcases hm with hm | rfl | rfl | rfl
      · obtain ⟨i, e, -, ho⟩ := hsrq m hm
        exact (object_eq_some ho).1
      · exact hsm
      · exact hrm
      · exact hpm
    · simp only [layout, List.mem_cons, List.not_mem_nil, or_false] at he
      rcases he with rfl | rfl
      · exact hm.elim
      · obtain ⟨u, hu, rfl⟩ := hm
        exact (hparent u hu).2

/-- Move construction: the region's new wrapper takes over. -/
theorem ProcInv.moveMr (hi : ProcInv leaked s) {a uses : Nat} {mr : Option IbvRegion}
    {pd : Option Nat} (hb : s.heap.blocks[a]? = some ⟨uses, .localMr mr pd⟩)
    (ha : a ∈ s.heap.refs) :
    ProcInv leaked { s with heap := s.heap.moveOut a ⟨uses, .localMr mr pd⟩ .movedFrom } := by
  have hu : 0 < uses := by
    have := hi.heap.alive_of_mem ha
    unfold Alive at this
    rwa [usesAt_eq hb] at this
  have hrun : ∀ e, pending layout (s.heap.moveOut a ⟨uses, .localMr mr pd⟩ .movedFrom) (.run e) =
      pending layout s.heap (.run e) := fun e => total_moveOut hb hu teardown_movedFrom
  have hobj : ∀ c, (s.heap.moveOut a ⟨uses, .localMr mr pd⟩ .movedFrom).objAt c =
      if c = s.heap.blocks.length then some (.localMr mr pd)
      else if c = a then some .movedFrom else s.heap.objAt c := by
    intro c
    refine (objAt_append ⟨1, Wrapper.localMr mr pd⟩ _ s.heap.tasks _ c).trans ?_
    rw [List.length_set]
    split
    · rfl
    · exact objAt_set hb _ _ _ c
  refine ⟨hi.heap.moveOut ha hb teardown_movedFrom, fun v => ?_, hi.once, fun v hv => ?_,
    fun c o ho => ?_, fun v hv => ?_, fun p this cq hp hr => ?_, fun p cq hp => ?_, hi.polls⟩
  · show _ = _ + pending layout (s.heap.moveOut a _ .movedFrom) _ + _
    rw [hrun]
    exact hi.balance v
  · have := hi.old v hv
    simp only [Process.next, moveOut, List.length_append, List.length_set, List.length_singleton]
    exact Nat.lt_succ_of_lt this
  · rw [hobj] at ho
    split at ho
    · cases ho
      trivial
    · split at ho
      · cases ho
        trivial
      · exact hi.placed c o ho
  · -- the parents are no regions
    intro p hp
    obtain ⟨o, ho, hmem⟩ := hi.wired v hv p hp
    refine ⟨o, ?_, hmem⟩
    have hnext : p.id ≠ s.heap.blocks.length := Nat.ne_of_lt (objAt_lt ho)
    show (s.heap.moveOut a _ .movedFrom).objAt p.id = _
    rw [hobj, if_neg hnext, if_neg]
    · exact ho
    · rintro hpa
      rw [hpa, objAt_eq hb] at ho
      cases ho
      cases mr with
      | none => cases hmem
      | some m => exact not_mr_of_parent hp m (List.mem_singleton.mp hmem)
  · rw [hobj] at hp
    split at hp
    · cases hp
    · split at hp
      · cases hp
      · show 0 < pending layout (s.heap.moveOut a _ .movedFrom) _
        rw [hrun]
        exact hi.joins p this cq hp hr
  · change 0 < pending layout (s.heap.moveOut a _ .movedFrom) _ at hp
    rw [hrun] at hp
    obtain ⟨this, ho⟩ := hi.joined p cq hp
    refine ⟨this, ?_⟩
    have hnext : p ≠ s.heap.blocks.length := Nat.ne_of_lt (objAt_lt ho)
    show (s.heap.moveOut a _ .movedFrom).objAt p = _
    rw [hobj, if_neg hnext, if_neg]
    · exact ho
    · rintro rfl
      rw [objAt_eq hb] at ho
      cases ho

/-- **The invariant is kept by every step**; a `device` constructor may add a leak. -/
theorem ProcInv.step (hi : ProcInv leaked s) {a : Action} (ht : step strerror s a = some t) :
    ProcInv (a.leak s.next ++ leaked) t := by
  cases a with
  | newDevice ctor env =>
    refine hi.construct (ctor.leak env s.next) (device_ran strerror env s.next ctor s.log) ?_ ?_ ht
    · rintro v ⟨hid, hp⟩
      refine ⟨hid, fun p hmem => ?_⟩
      rw [hp] at hmem
      cases hmem
    · rintro o ⟨l, rfl⟩
      refine ⟨fun m hm => ?_, fun e he m hm => ?_, rfl⟩
      · cases hm
      · cases l <;> simp [layout] at he
        · subst he
          simp [Effect.needs, VerbsObject.parents] at hm
        · rcases he with rfl | rfl <;> simp [Effect.needs, VerbsObject.parents] at hm
  | newPd d r =>
    simp only [Objects.step] at ht
    split at ht
    next ctx l ho =>
      exact hi.child (o := .pd ⟨s.next, ctx⟩ d) (v := .pd ⟨s.next, ctx⟩) ho List.mem_cons_self
        (hi.placed _ _ (object_eq_some ho).2) rfl rfl rfl rfl rfl rfl ht
    next => cases ht
  | newCq d r =>
    simp only [Objects.step] at ht
    split at ht
    next ctx l ho =>
      exact hi.child (o := .cq ⟨s.next, ctx⟩ d) (v := .cq ⟨s.next, ctx⟩) ho List.mem_cons_self
        (hi.placed _ _ (object_eq_some ho).2) rfl rfl rfl rfl rfl rfl ht
    next => cases ht
  | newSrq a r =>
    simp only [Objects.step] at ht
    split at ht
    next p d ho =>
      exact hi.child (o := .srq ⟨s.next, p⟩ a) (v := .srq ⟨s.next, p⟩) ho List.mem_cons_self
        (hi.placed _ _ (object_eq_some ho).2) rfl rfl rfl rfl rfl rfl ht
    next => cases ht
  | regMr a r =>
    simp only [Objects.step] at ht
    split at ht
    next p d ho =>
      exact hi.child (o := .localMr (some ⟨s.next, p⟩) (some a)) (v := .mr ⟨s.next, p⟩) ho
        List.mem_cons_self (hi.placed _ _ (object_eq_some ho).2) rfl rfl rfl rfl rfl trivial ht
    next => cases ht
  | newQp a rcq scq srq =>
    cases srq with
    | none =>
      simp only [Objects.step] at ht
      split at ht
      next p d rc dr sc ds hp hrc hsc =>
        exact hi.newQp hp hrc hsc (fun q hq => by cases hq) (fun _ => rfl) ht
      next => cases ht
    | some q =>
      simp only [Objects.step] at ht
      split at ht
      next p d rc dr sc ds r e hp hrc hsc hq =>
        refine hi.newQp hp hrc hsc (fun q' hq' => ?_) (by simp) ht
        cases hq'
        exact ⟨r, e, rfl, hq⟩
      next => cases ht
  | newPoller c =>
    simp only [Objects.step] at ht
    split at ht
    next cq d ho =>
      obtain ⟨hmem, ho⟩ := object_eq_some ho
      refine hi.construct [] (Q := fun _ => False) (R := (· = .poller s.next c))
        (.returned _ [] builds_nil rfl rfl) (fun v hv => hv.elim) ?_ ht
      rintro o rfl
      refine ⟨fun m hm => ?_, fun e he m hm => ?_, rfl⟩
      · cases List.mem_singleton.mp hm
        exact hmem
      · cases List.mem_singleton.mp he
        exact List.mem_singleton.mpr hm
    next => cases ht
  | copy a =>
    obtain ⟨ha, ht⟩ := Option.ite_none_right_eq_some.mp ht
    cases ht
    have halive := hi.heap.alive_of_mem ha
    exact hi.of_heap (hi.heap.copy halive) (fun e => total_copy halive) objAt_copy length_copy _
  | copyMember owner a =>
    simp only [Objects.step] at ht
    split at ht
    next o ho =>
      obtain ⟨hmem, ho⟩ := object_eq_some ho
      obtain ⟨ha, ht⟩ := Option.ite_none_right_eq_some.mp ht
      cases ht
      have halive := hi.heap.alive_of_member (hi.heap.alive_of_mem hmem) ho ha
      exact hi.of_heap (hi.heap.copy halive) (fun e => total_copy halive) objAt_copy length_copy _
    next => cases ht
  | drop a =>
    obtain ⟨ha, ht⟩ := Option.ite_none_right_eq_some.mp ht
    cases ht
    refine hi.of_heap (hi.heap.drop ha) (fun e => ?_) (fun _ => rfl) rfl _
    exact total_drop.trans (by rw [one_of_ne (by simp), Nat.add_zero]; rfl)
  | moveMr a =>
    simp only [Objects.step] at ht
    split at ht
    next uses mr pd hb =>
      obtain ⟨ha, ht⟩ := Option.ite_none_right_eq_some.mp ht
      cases ht
      exact hi.moveMr hb ha
    next => cases ht
  | work i =>
    simp only [Objects.step] at ht
    split at ht
    next e rest htask => exact hi.perform htask ht
    next a rest htask =>
      obtain ⟨b, hb, ht⟩ := Option.map_eq_some_iff.mp ht
      cases ht
      obtain ⟨b', hb', hu⟩ := hi.heap.block_of_task htask
      obtain rfl : b = b' := Option.some.inj (hb.symm.trans hb')
      refine hi.of_heap (hi.heap.release htask hb) (fun e => ?_) (objAt_release hb)
        (by simp [Heap.release, Process.next]) _
      have := total_release (L := layout) (w := one (.run e)) htask hb hu
      rw [one_of_ne (by simp), Nat.add_zero] at this
      exact this
    next => cases ht
  | poll p =>
    obtain ⟨c, hc, ht⟩ := Option.map_eq_some_iff.mp ht
    cases ht
    have hopen := (hi.open_of_pending (hi.polled_open hc)).2
    show ProcInv leaked _
    refine ⟨hi.heap, fun v => ?_, fun v => by simpa using hi.once v,
      fun v hv => hi.old v (by simpa using hv), hi.placed,
      fun v hv => hi.wired v (by simpa using hv), hi.joins, hi.joined, hopen, hi.polls⟩
    show (Event.polled c :: s.log).count _ = (Event.polled c :: s.log).count _ +
      s.pendingDestroys v + _
    simpa using hi.balance v
  | exit p caught =>
    simp only [Objects.step] at ht
    split at ht
    next this cq hp =>
      obtain ⟨-, ht⟩ := Option.ite_none_right_eq_some.mp ht
      cases ht
      exact ⟨hi.heap, hi.balance, hi.once, hi.old, hi.placed, hi.wired,
        fun q this cq hq hr => hi.joins q this cq hq fun h => hr (List.mem_cons_of_mem p h),
        hi.joined, hi.polls⟩
    next => cases ht

/-! ## 5. Teardown ends -/

/-- The steps of destructors, and the pollers' threads leaving their loops. -/
def Action.IsTeardown : Action → Prop
  | .work _ | .exit _ _ => True
  | _ => False

theorem ProcInv.teardown_step (hi : ProcInv leaked s) {a : Action} (ha : a.IsTeardown)
    (ht : Objects.step strerror s a = some t) : ProcInv leaked t := by
  have hstep := hi.step ht
  cases a with
  | work i => exact hstep
  | exit p caught => exact hstep
  | _ => exact ha.elim

/-- The steps left before no destructor is under way, counted over all objects. -/
def Process.remaining (s : Process) : Nat := total layout (fun _ => 1) s.heap

variable (strerror) in
/-- **Any destructor under way can do its next task**, a join after the poller's thread left. -/
theorem ProcInv.advance (hi : ProcInv leaked s) {i : Nat} {task : Lib.Task Effect}
    {rest : List (Lib.Task Effect)} (htask : s.heap.tasks[i]? = some (task :: rest)) :
    ∃ t, (machine strerror).ReachIf (fun _ a => a.IsTeardown) s t ∧
      t.remaining + 1 = s.remaining ∧ t.heap.refs = s.heap.refs := by
  have hfin : total layout (fun _ => 1) (s.heap.finish i rest) + 1 = s.remaining :=
    total_finish htask
  cases task with
  | release a =>
    obtain ⟨b, hb, hu⟩ := hi.heap.block_of_task htask
    refine ⟨{ s with heap := s.heap.release layout i a b rest },
      .step (.work i) .start trivial ?_, total_release htask hb hu, rfl⟩
    show Objects.step strerror s (.work i) = _
    simp only [Objects.step, htask, hb, Option.map_some]
  | run e =>
    cases e with
    | destroy v =>
      refine ⟨{ s with heap := s.heap.finish i rest, log := .destroyed v :: s.log },
        .step (.work i) .start trivial ?_, hfin, rfl⟩
      show Objects.step strerror s (.work i) = _
      simp only [Objects.step, htask, Process.perform]
    | err q =>
      refine ⟨{ s with heap := s.heap.finish i rest, log := .erred q :: s.log },
        .step (.work i) .start trivial ?_, hfin, rfl⟩
      show Objects.step strerror s (.work i) = _
      simp only [Objects.step, htask, Process.perform]
    | join p cq =>
      -- first the stop request, then the thread's way out, then the join
      have hrequest : ∃ u, (machine strerror).ReachIf (fun _ a => a.IsTeardown) s u ∧
          p ∈ u.stopping ∧ u.heap = s.heap := by
        by_cases hp : p ∈ s.stopping
        · exact ⟨s, .start, hp, rfl⟩
        · refine ⟨{ s with stopping := p :: s.stopping }, .step (.work i) .start trivial ?_,
            List.mem_cons_self, rfl⟩
          show Objects.step strerror s (.work i) = _
          simp only [Objects.step, htask, Process.perform, hp, not_false_eq_true, if_true]
      obtain ⟨u, hu, hstop, hheap⟩ := hrequest
      have hexit : ∃ w, (machine strerror).ReachIf (fun _ a => a.IsTeardown) s w ∧
          p ∈ w.stopping ∧ p ∈ w.exited ∧ w.heap = s.heap := by
        by_cases hp : p ∈ u.exited
        · exact ⟨u, hu, hstop, hp, hheap⟩
        · have hpos : 0 < pending layout s.heap (.run (.join p cq)) :=
            pending_pos_iff.mpr (.inl ⟨_, List.mem_of_getElem? htask, List.mem_cons_self⟩)
          obtain ⟨this, hobj⟩ := hi.joined p cq hpos
          refine ⟨{ u with exited := p :: u.exited }, .step (.exit p false) hu trivial ?_, hstop,
            List.mem_cons_self, hheap⟩
          show Objects.step strerror u (.exit p false) = _
          simp [Objects.step, hheap, hobj, hp, hstop]
      obtain ⟨w, hw, hstop, hout, hheap⟩ := hexit
      refine ⟨{ w with heap := w.heap.finish i rest }, .step (.work i) hw trivial ?_, ?_, ?_⟩
      · show Objects.step strerror w (.work i) = _
        simp [Objects.step, hheap, htask, Process.perform, hstop, hout]
      · rw [← hfin, hheap]
        rfl
      · rw [hheap]
        rfl

variable (strerror) in
/-- **Every teardown ends.** -/
theorem ProcInv.exists_idle (hi : ProcInv leaked s) :
    ∃ t, (machine strerror).ReachIf (fun _ a => a.IsTeardown) s t ∧
      t.heap.refs = s.heap.refs ∧ t.heap.Idle := by
  induction hn : s.remaining using Nat.strong_induction_on generalizing s with
  | _ n ih =>
    by_cases hidle : s.heap.Idle
    · exact ⟨s, .start, rfl, hidle⟩
    · unfold Heap.Idle at hidle
      push Not at hidle
      obtain ⟨ts, hts, hne⟩ := hidle
      obtain ⟨i, hget⟩ := List.mem_iff_getElem?.mp hts
      obtain ⟨task, rest, rfl⟩ := List.exists_cons_of_ne_nil hne
      obtain ⟨u, hu, hless, hrefs⟩ := hi.advance strerror hget
      have hiu : ProcInv leaked u := by
        refine hu.invariant (P := ProcInv leaked) hi fun x a y hx ha hs => hx.teardown_step ha hs
      obtain ⟨t, ht, hrefs', hidle⟩ := ih u.remaining (by omega) hiu rfl
      exact ⟨t, hu.trans ht, hrefs'.trans hrefs, hidle⟩

/-! ## 6. Runs -/

/-- Every verbs call of the action succeeds. -/
def Action.Succeeds : Action → Prop
  | .newDevice _ env => (∃ names, env.getDeviceList = .devices names) ∧
      env.openDevice.made = true ∧ env.queriesSucceed = true
  | .newPd _ r | .newCq _ r | .newSrq _ r | .regMr _ r => r.made = true
  | _ => True

theorem leak_of_succeeds {a : Action} (ha : a.Succeeds) (id : Nat) : a.leak id = [] := by
  cases a with
  | newDevice ctor env => exact leak_of_succeed ha.2.2 id ctor
  | _ => rfl

theorem procInv_reach
    (h : (machine strerror).ReachIf (fun _ a => a.Succeeds) Process.start s) : ProcInv [] s := by
  refine h.invariant (P := ProcInv []) procInv_start fun x a y hx ha hs => ?_
  have hstep := hx.step hs
  rwa [leak_of_succeeds ha] at hstep

/-- **A child is open only while its parents are.** -/
theorem ProcInv.parent_open (hi : ProcInv [] s) {v p : VerbsObject} (hv : IsOpen s.log v)
    (hp : p ∈ v.parents) : IsOpen s.log p := by
  have hb := hi.balance v
  unfold IsOpen at hv
  rw [List.count_nil] at hb
  exact (hi.open_of_pending (hi.parent_pending (by omega) hp)).1

theorem ProcInv.destroyed_le (hi : ProcInv leaked s) (v : VerbsObject) :
    s.log.count (.destroyed v) ≤ 1 := by
  have hb := hi.balance v
  have ho := hi.once v
  omega

/-- With no reference left and no destructor under way, everything is destroyed. -/
theorem ProcInv.destroyed_of_idle (hi : ProcInv [] s) (hrefs : s.heap.refs = [])
    (hidle : s.heap.Idle) {v : VerbsObject} (hv : .created v ∈ s.log) :
    s.log.count (.destroyed v) = 1 := by
  have hb := hi.balance v
  have ho := hi.once v
  have hpos := List.count_pos_iff.mpr hv
  have hzero : s.pendingDestroys v = 0 := hi.heap.pending_eq_zero hrefs hidle _
  rw [List.count_nil] at hb
  omega

end Machine

/-- What teardown keeps to, in a state of the process. -/
structure OrderlyTeardown (strerror : Int → String) (s : Process) : Prop where
  /-- No parent goes before its children. -/
  parents : ∀ v, IsOpen s.log v → ∀ p ∈ v.parents, IsOpen s.log p
  /-- No poller polls a destroyed CQ. -/
  polls : PollsOpen s.log
  atMostOnce : ∀ v, s.log.count (.destroyed v) ≤ 1
  /-- Without references and with no destructor under way, everything is destroyed. -/
  complete : s.heap.refs = [] → s.heap.Idle →
    ∀ v, .created v ∈ s.log → s.log.count (.destroyed v) = 1
  /-- The destructors under way come to an end. -/
  ends : ∃ t, (machine strerror).ReachIf (fun _ a => a.IsTeardown) s t ∧
    t.heap.refs = s.heap.refs ∧ t.heap.Idle

/-- **Teardown is child before parent, and complete**, in every run whose verbs calls succeed. -/
theorem teardown_child_first (strerror : Int → String) {s : Process}
    (h : (machine strerror).ReachIf (fun _ a => a.Succeeds) Process.start s) :
    OrderlyTeardown strerror s where
  parents _ hv _ hp := (procInv_reach h).parent_open hv hp
  polls := (procInv_reach h).polls
  atMostOnce := (procInv_reach h).destroyed_le
  complete hrefs hidle _ hv := (procInv_reach h).destroyed_of_idle hrefs hidle hv
  ends := (procInv_reach h).exists_idle strerror

/-- A device by index, a CQ and its poller, let go of in that order while the poller polls. -/
def pollerRun : List Action :=
  [.newDevice (.deviceNum 0) ⟨.devices ["mlx5_0"], ⟨true, 0⟩, 0, 0, 0⟩, .newCq 0 ⟨true, 0⟩,
    .newPoller 1, .drop 0, .drop 1, .poll 2, .drop 2]

theorem pollerRun_succeeds : ∀ a ∈ pollerRun, a.Succeeds := by
  simp [pollerRun, Action.Succeeds, DeviceEnv.queriesSucceed]

theorem teardown_child_first_poller : ∃ s, (machine fun _ => "").run Process.start pollerRun = some s ∧
    s.heap.refs = [] ∧ OrderlyTeardown (fun _ => "") s :=
  ⟨_, rfl, rfl, teardown_child_first _
    (Machine.reachIf_of_run pollerRun (fun a ha _ => pollerRun_succeeds a ha) rfl)⟩

end Objects
end Rdmapp
