/-
  File:      Rdmapp/Objects/OpenHandles.lean
  Subject:   OPEN HANDLES: which runs keep the open verbs objects with live wrappers.

  Between operations an open verbs object is either owned by a live wrapper or leaked
  (`ProcInv.open_iff`). The only leak is that of a `device` constructor whose `open_device` throws
  after `ibv_open_device`: the context stays open, with no `~device` to close it. So the open
  handles are the owned ones in exactly the runs without such a constructor call.
-/
import Rdmapp.Objects.Teardown

namespace Rdmapp
namespace Objects

open Lib Heap

/-- A live, fully constructed object owns the handle. -/
def Process.Owned (s : Process) (v : VerbsObject) : Prop :=
  ∃ b ∈ s.heap.blocks, 0 < b.uses ∧ v ∈ b.obj.handles

/-- `ibv_open_device` returns a context in the constructor, and a query after it fails. -/
def Action.Leaks : Action → Prop
  | .newDevice ctor env =>
    ctor.opens env = true ∧ env.openDevice.made = true ∧ env.queriesSucceed = false
  | _ => False

theorem leak_eq_nil_iff (a : Action) (id : Nat) : a.leak id = [] ↔ ¬ a.Leaks := by
  cases a with
  | newDevice ctor env =>
    simp only [Action.leak, DeviceCtor.leak, Action.Leaks]
    cases ctor.opens env <;> cases env.openDevice.made <;> cases env.queriesSucceed <;> simp
  | _ => exact iff_of_true rfl not_false

variable {strerror : Int → String} {leaked : List VerbsObject} {s t : Process}

/-- **A run leaks by its leaking constructor calls**, and by nothing else. -/
theorem ProcInv.run (hi : ProcInv leaked s) {as : List Action}
    (h : (machine strerror).run s as = some t) :
    ∃ lost, ProcInv (lost ++ leaked) t ∧ (lost = [] ↔ ∀ a ∈ as, ¬ a.Leaks) := by
  induction as generalizing s leaked with
  | nil =>
    cases h
    exact ⟨[], hi, by simp⟩
  | cons a as ih =>
    obtain ⟨u, hs, hr⟩ := Machine.run_cons_eq_some.mp h
    obtain ⟨lost, ht, hlost⟩ := ih (hi.step hs) hr
    refine ⟨lost ++ a.leak s.next, ?_, ?_⟩
    · rwa [List.append_assoc]
    · simp only [List.append_eq_nil_iff, hlost, leak_eq_nil_iff, List.forall_mem_cons]
      exact and_comm

/-- Between operations, what is still to be destroyed is what live objects own. -/
theorem pending_iff_owned (hidle : s.heap.Idle) (v : VerbsObject) :
    0 < s.pendingDestroys v ↔ s.Owned v := by
  unfold Process.pendingDestroys
  rw [pending_pos_iff]
  constructor
  · rintro (⟨ts, hts, hm⟩ | ⟨b, hb, hu, hm⟩)
    · rw [hidle ts hts] at hm
      cases hm
    · exact ⟨b, hb, hu, destroy_mem_body.mp (run_mem_teardown.mp hm)⟩
  · rintro ⟨b, hb, hu, hm⟩
    exact .inr ⟨b, hb, hu, run_mem_teardown.mpr (destroy_mem_body.mpr hm)⟩

theorem ProcInv.open_iff (hi : ProcInv leaked s) (hidle : s.heap.Idle) (v : VerbsObject) :
    IsOpen s.log v ↔ s.Owned v ∨ v ∈ leaked := by
  have hb := hi.balance v
  rw [← pending_iff_owned hidle, ← List.count_pos_iff]
  unfold IsOpen
  omega

/-- A leaked handle has no owner. -/
theorem ProcInv.not_owned (hi : ProcInv leaked s) (hidle : s.heap.Idle) {v : VerbsObject}
    (hv : v ∈ leaked) : ¬ s.Owned v := by
  have hb := hi.balance v
  have ho := hi.once v
  have hpos := List.count_pos_iff.mpr hv
  rw [← pending_iff_owned hidle]
  omega

/-- **Between operations the open verbs objects are those owned by live wrappers, in exactly the
    runs in which no `device` constructor throws after `ibv_open_device`.** -/
theorem open_eq_owned_iff (strerror : Int → String) (as : List Action) {s : Process}
    (h : (machine strerror).run Process.start as = some s) (hidle : s.heap.Idle) :
    (∀ v, IsOpen s.log v ↔ s.Owned v) ↔ ∀ a ∈ as, ¬ a.Leaks := by
  obtain ⟨lost, hi, hlost⟩ := procInv_start.run h
  rw [List.append_nil] at hi
  rw [← hlost]
  constructor
  · intro hall
    refine List.eq_nil_iff_forall_not_mem.mpr fun v hv => ?_
    exact hi.not_owned hidle hv ((hall v).mp ((hi.open_iff hidle v).mpr (.inr hv)))
  · rintro rfl v
    simp [hi.open_iff hidle v]

/-- The second device fails to open. -/
def retryRun : List Action :=
  [.newDevice .target ⟨.devices ["mlx5_0"], ⟨true, 0⟩, 0, 0, 0⟩,
    .newDevice (.deviceName "mlx5_1") ⟨.devices ["mlx5_0", "mlx5_1"], ⟨false, 2⟩, 0, 0, 0⟩]

theorem open_eq_owned_iff_retry : ∃ s, (machine fun _ => "").run Process.start retryRun = some s ∧
    ∀ v, IsOpen s.log v ↔ s.Owned v := by
  refine ⟨_, rfl, (open_eq_owned_iff (fun _ => "") retryRun rfl fun _ hts => ?_).mpr ?_⟩
  · exact absurd hts List.not_mem_nil
  · simp [retryRun, Action.Leaks, DeviceEnv.queriesSucceed]

/-- `ibv_query_port` fails: the constructor throws, the context is open and nobody's. -/
theorem query_failure_leaks_context : ∃ s,
    (machine fun _ => "").run Process.start
      [.newDevice .target ⟨.devices ["mlx5_0"], ⟨true, 0⟩, 22, 0, 0⟩] = some s ∧
    s.heap.Idle ∧ IsOpen s.log (.context ⟨0⟩) ∧ ¬ s.Owned (.context ⟨0⟩) := by
  refine ⟨_, rfl, fun _ hts => absurd hts List.not_mem_nil, ?_, ?_⟩
  · show 0 < 1
    decide
  · rintro ⟨b, hb, hu, -⟩
    cases List.mem_singleton.mp hb
    exact absurd hu (by decide)

end Objects
end Rdmapp
