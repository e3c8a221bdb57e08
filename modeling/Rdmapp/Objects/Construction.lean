/-
  File:      Rdmapp/Objects/Construction.lean
  Subject:   WHAT A CONSTRUCTOR LEAVES: the verbs objects open after it, object or exception.

  `Builds` accounts for the calls of one constructor: what was created was destroyed again, or is
  in the list of what is left open. `Ran` says what that list is: the handles of the object, or,
  after an exception, a leak. `device_ran` finds the one leak there is: `open_device` throwing
  after `ibv_open_device`, since an exception in a constructor does not run the destructor.
-/
import Rdmapp.Objects

namespace Rdmapp
namespace Objects

open Lib

/-! ## 1. The books of a constructor -/

/-- The verbs objects a wrapper owns. -/
def Wrapper.handles : Wrapper → List VerbsObject
  | .device ctx l => .context ctx :: (l.map VerbsObject.deviceList).toList
  | .pd p _ => [.pd p]
  | .cq c _ => [.cq c]
  | .srq s _ => [.srq s]
  | .localMr mr _ => (mr.map VerbsObject.mr).toList
  | .qp q _ _ _ _ => [.qp q]
  | .poller _ _ => []

/-- A wrapper's destructor destroys what it owns, once each. -/
theorem count_body (o : Wrapper) (v : VerbsObject) :
    (layout.body o).count (.destroy v) = o.handles.count v := by
  cases o with
  | device ctx l => cases l <;> simp [layout, Wrapper.handles, List.count_cons]
  | localMr mr pd => cases mr <;> simp [layout, Wrapper.handles, List.count_cons]
  | qp q => simp [layout, Wrapper.handles, List.count_cons]
  | _ => simp [layout, Wrapper.handles, List.count_cons]

theorem destroy_mem_body {o : Wrapper} {v : VerbsObject} :
    .destroy v ∈ layout.body o ↔ v ∈ o.handles := by
  rw [← List.count_pos_iff, ← List.count_pos_iff, count_body]

/-- The events `new` of a constructor, which makes only what is in `Q`, leave the verbs objects
    `left` open. -/
structure Builds (Q : VerbsObject → Prop) (left : List VerbsObject) (new : List Event) : Prop where
  balance : ∀ v, new.count (.created v) = new.count (.destroyed v) + left.count v
  once : ∀ v, new.count (.created v) ≤ 1
  made : ∀ v, .created v ∈ new → Q v
  quiet : ∀ c, .polled c ∉ new

variable {Q : VerbsObject → Prop} {left : List VerbsObject} {new log : List Event}
  {v : VerbsObject}

theorem builds_nil : Builds Q [] [] where
  balance v := by simp
  once v := by simp
  made v hv := by simp at hv
  quiet c := by simp

theorem Builds.created (h : Builds Q left new) (hQ : Q v) (hv : .created v ∉ new) :
    Builds Q (v :: left) (.created v :: new) where
  balance u := by
    have := h.balance u
    simp only [List.count_cons, beq_iff_eq, reduceCtorEq, if_false, Event.created.injEq]
    omega
  once u := by
    have := h.once u
    have h0 := List.count_eq_zero.mpr hv
    by_cases hu : v = u
    · subst hu
      simp [h0]
    · simp [hu, this]
  made u hu := by
    rcases List.mem_cons.mp hu with hu | hu
    · cases hu
      exact hQ
    · exact h.made u hu
  quiet c hc := by
    rcases List.mem_cons.mp hc with hc | hc
    · cases hc
    · exact h.quiet c hc

theorem Builds.destroyed (h : Builds Q left new) (hv : v ∈ left) :
    Builds Q (left.erase v) (.destroyed v :: new) where
  balance u := by
    have := h.balance u
    by_cases hu : v = u
    · subst hu
      have hpos := List.count_pos_iff.mpr hv
      simp only [List.count_cons, beq_iff_eq, reduceCtorEq, if_false, if_true,
        List.count_erase_self]
      omega
    · simp [hu, List.count_erase_of_ne (Ne.symm hu), this]
  once u := by simpa using h.once u
  made u hu := h.made u (by simpa using hu)
  quiet c hc := h.quiet c (by simpa using hc)

/-- A verbs object made and destroyed again. -/
theorem builds_closed (hQ : Q v) : Builds Q [] [.destroyed v, .created v] := by
  simpa using (builds_nil.created hQ List.not_mem_nil).destroyed List.mem_cons_self

/-- **What is left after a constructor**: nothing but the object's handles if it returned, the
    leak if it threw. It makes verbs objects in `Q`, and returns an object in `R`. -/
inductive Ran (Q : VerbsObject → Prop) (R : Wrapper → Prop) (leak : List VerbsObject)
    (log : List Event) : Except Failure Wrapper × List Event → Prop
  | returned (o : Wrapper) (new : List Event) (builds : Builds Q o.handles new) (hR : R o)
      (clean : leak = []) : Ran Q R leak log (.ok o, new ++ log)
  | threw (f : Failure) (new : List Event) (builds : Builds Q leak new) (hf : f ≠ .crash) :
      Ran Q R leak log (.error f, new ++ log)
  | crashed (log' : List Event) : Ran Q R leak log (.error .crash, log')

/-! ## 2. The constructors -/

section Calls

variable (strerror : Int → String)

theorem make_made (v : VerbsObject) (errno : Int) (message : String) (log : List Event) :
    make strerror v ⟨true, errno⟩ message log = (.ok (), .created v :: log) := rfl

theorem make_failed (v : VerbsObject) (errno : Int) (message : String) (log : List Event) :
    ∃ e, make strerror v ⟨false, errno⟩ message log = (.error (.exception e), log) :=
  ⟨_, rfl⟩

theorem check_zero (message : String) (log : List Event) :
    check strerror 0 message log = (.ok (), log) := rfl

theorem check_ne {rc : Int} (h : rc ≠ 0) (message : String) (log : List Event) :
    ∃ e, check strerror rc message log = (.error (.exception e), log) := by
  obtain ⟨text, ht⟩ := checkRc_of_ne strerror h message
  exact ⟨.runtimeError text, by simp only [check, ht]⟩

/-- A constructor that makes one verbs object and keeps it. -/
theorem make_ran {o : Wrapper} (ho : o.handles = [v]) (r : MakeResult)
    (message : String) (log : List Event) :
    Ran (· = v) (· = o) [] log ((do make strerror v r message; pure o : VerbsM Wrapper) log) := by
  obtain ⟨made, errno⟩ := r
  cases made with
  | true =>
    refine .returned o [.created v] ?_ rfl rfl
    rw [ho]
    exact builds_nil.created rfl List.not_mem_nil
  | false => exact .threw _ [] builds_nil Failure.noConfusion

/-- The names `ibv_get_device_list` finds. -/
def DeviceEnv.names (env : DeviceEnv) : List String :=
  match env.getDeviceList with
  | .devices names => names
  | .failed _ _ => []

def DeviceEnv.queriesSucceed (env : DeviceEnv) : Bool :=
  env.queryPort == 0 && env.queryDeviceEx == 0 && env.queryGid == 0

/-- The constructor gets as far as `open_device`. -/
def DeviceCtor.opens (env : DeviceEnv) : DeviceCtor → Bool
  | .target => true
  | .deviceName name => name ∈ env.names
  | .deviceNum num => num.toNat < env.names.length

/-- What the constructor leaves open when it throws: the context, if a query after
    `ibv_open_device` fails. -/
def DeviceCtor.leak (env : DeviceEnv) (id : Nat) (ctor : DeviceCtor) : List VerbsObject :=
  if ctor.opens env && env.openDevice.made && !env.queriesSucceed then [.context ⟨id⟩] else []

/-- `open_device` fails before it holds a context, returns it, or drops it. -/
theorem openDevice_cases (env : DeviceEnv) (id : Nat) (log : List Event) :
    (env.openDevice.made = false ∧
      ∃ e, openDevice strerror env id log = (.error (.exception e), log)) ∨
    (env.openDevice.made = true ∧ env.queriesSucceed = true ∧
      openDevice strerror env id log = (.ok ⟨id⟩, .created (.context ⟨id⟩) :: log)) ∨
    (env.openDevice.made = true ∧ env.queriesSucceed = false ∧
      ∃ e, openDevice strerror env id log =
        (.error (.exception e), .created (.context ⟨id⟩) :: log)) := by
  obtain ⟨getDeviceList, ⟨made, errno⟩, queryPort, queryDeviceEx, queryGid⟩ := env
  cases made with
  | false => exact .inl ⟨rfl, _, rfl⟩
  | true =>
    refine .inr ?_
    unfold openDevice
    rw [bind_ok (make_made strerror _ errno _ log)]
    dsimp only
    by_cases h1 : queryPort = 0
    · by_cases h2 : queryDeviceEx = 0
      · by_cases h3 : queryGid = 0
        · subst h1 h2 h3
          exact .inl ⟨rfl, rfl, rfl⟩
        · subst h1 h2
          obtain ⟨e, he⟩ := check_ne strerror h3 "failed to query gid"
            (.created (.context ⟨id⟩) :: log)
          refine .inr ⟨rfl, by simp [DeviceEnv.queriesSucceed, h3], e, ?_⟩
          rw [bind_ok (check_zero strerror _ _), bind_ok (check_zero strerror _ _),
            bind_error he]
      · subst h1
        obtain ⟨e, he⟩ := check_ne strerror h2 "failed to query extended attributes"
          (.created (.context ⟨id⟩) :: log)
        refine .inr ⟨rfl, by simp [DeviceEnv.queriesSucceed, h2], e, ?_⟩
        rw [bind_ok (check_zero strerror _ _), bind_error he]
    · obtain ⟨e, he⟩ := check_ne strerror h1 "failed to query port"
        (.created (.context ⟨id⟩) :: log)
      refine .inr ⟨rfl, by simp [DeviceEnv.queriesSucceed, h1], e, ?_⟩
      rw [bind_error he]

/-- What a constructor of the device `id` makes: it has no parents. -/
def Root (id : Nat) (v : VerbsObject) : Prop := v.id = id ∧ v.parents = []

/-- What it returns. -/
def IsDevice (id : Nat) (o : Wrapper) : Prop := ∃ l, o = .device ⟨id⟩ l

/-- `device_list::device_list` holds a list with devices in it, or throws holding none. -/
theorem deviceList_cases (env : DeviceEnv) (id : Nat) (log : List Event) :
    (env.names ≠ [] ∧ deviceList strerror env id log =
      (.ok (⟨id⟩, env.names), .created (.deviceList ⟨id⟩) :: log)) ∨
    (env.names = [] ∧ ∃ f new, deviceList strerror env id log = (.error f, new ++ log) ∧
      Builds (Root id) [] new) := by
  obtain ⟨getDeviceList, openDevice, queryPort, queryDeviceEx, queryGid⟩ := env
  cases getDeviceList with
  | devices names =>
    cases names with
    | nil =>
      refine .inr ⟨rfl, .exception (.runtimeError "no Infiniband devices found"),
        [.destroyed (.deviceList ⟨id⟩), .created (.deviceList ⟨id⟩)], rfl, ?_⟩
      exact builds_closed ⟨rfl, rfl⟩
    | cons name names => exact .inl ⟨List.cons_ne_nil _ _, rfl⟩
  | failed nrDevices errno =>
    by_cases h0 : nrDevices = 0
    · subst h0
      exact .inr ⟨rfl, .crash, [], rfl, builds_nil⟩
    · refine .inr ⟨rfl, ?_⟩
      obtain ⟨e, he⟩ := make_failed strerror (.deviceList ⟨id⟩) errno
        "failed to get Infiniband devices" log
      refine ⟨.exception e, [], ?_, builds_nil⟩
      simp only [deviceList, h0, if_false]
      exact bind_error he _

theorem leak_of_not_opens {env : DeviceEnv} {ctor : DeviceCtor} (h : ctor.opens env = false)
    (id : Nat) : ctor.leak env id = [] := by
  simp [DeviceCtor.leak, h]

theorem leak_of_made_false {env : DeviceEnv} (h : env.openDevice.made = false) (id : Nat)
    (ctor : DeviceCtor) : ctor.leak env id = [] := by
  simp [DeviceCtor.leak, h]

theorem leak_of_succeed {env : DeviceEnv} (h : env.queriesSucceed = true) (id : Nat)
    (ctor : DeviceCtor) : ctor.leak env id = [] := by
  simp [DeviceCtor.leak, h]

theorem leak_of_fail {env : DeviceEnv} {ctor : DeviceCtor} (ho : ctor.opens env = true)
    (hm : env.openDevice.made = true) (hq : env.queriesSucceed = false) (id : Nat) :
    ctor.leak env id = [.context ⟨id⟩] := by
  simp [DeviceCtor.leak, ho, hm, hq]

theorem Ran.failed {R : Wrapper → Prop} {f : Failure} (hb : Builds Q [] new) :
    Ran Q R [] log (.error f, new ++ log) := by
  by_cases hf : f = .crash
  · subst hf
    exact .crashed _
  · exact .threw f new hb hf

section Opening

variable {env : DeviceEnv} {id : Nat} {log : List Event}

/-! The context alone; with the list; the list gone again, without the context and with it. -/

theorem builds_context : Builds (Root id) [.context ⟨id⟩] [.created (.context ⟨id⟩)] :=
  builds_nil.created ⟨rfl, rfl⟩ List.not_mem_nil

theorem builds_both : Builds (Root id) [.context ⟨id⟩, .deviceList ⟨id⟩]
    [.created (.context ⟨id⟩), .created (.deviceList ⟨id⟩)] := by
  have hlist : Builds (Root id) [.deviceList ⟨id⟩] [.created (.deviceList ⟨id⟩)] :=
    builds_nil.created ⟨rfl, rfl⟩ List.not_mem_nil
  exact hlist.created ⟨rfl, rfl⟩ (by simp)

theorem builds_gone :
    Builds (Root id) [] [.destroyed (.deviceList ⟨id⟩), .created (.deviceList ⟨id⟩)] :=
  builds_closed ⟨rfl, rfl⟩

theorem builds_freed : Builds (Root id) [.context ⟨id⟩] [.destroyed (.deviceList ⟨id⟩),
    .created (.context ⟨id⟩), .created (.deviceList ⟨id⟩)] := by
  have hmem : VerbsObject.deviceList ⟨id⟩ ∈ [VerbsObject.context ⟨id⟩, .deviceList ⟨id⟩] := by simp
  simpa using builds_both.destroyed hmem

/-- `open_device` while a local list is in scope. -/
theorem closing_open_ran {ctor : DeviceCtor} (ho : ctor.opens env = true) :
    Ran (Root id) (IsDevice id) (ctor.leak env id) log
      (closing (.destroyed (.deviceList ⟨id⟩))
        (do let ctx ← openDevice strerror env id; pure (.device ctx none))
        (.created (.deviceList ⟨id⟩) :: log)) := by
  unfold closing
  rcases openDevice_cases strerror env id (.created (.deviceList ⟨id⟩) :: log) with
    ⟨hm, e, he⟩ | ⟨hm, hq, he⟩ | ⟨hm, hq, e, he⟩
  · rw [leak_of_made_false hm, bind_error he]
    exact .threw (.exception e) _ builds_gone Failure.noConfusion
  · rw [bind_ok he]
    exact .returned (.device ⟨id⟩ none) _ builds_freed ⟨_, rfl⟩ (leak_of_succeed hq id ctor)
  · rw [leak_of_fail ho hm hq, bind_error he]
    exact .threw (.exception e) _ builds_freed Failure.noConfusion

/-- `open_device` while the list is a member. -/
theorem unwinding_open_ran {ctor : DeviceCtor} (ho : ctor.opens env = true) :
    Ran (Root id) (IsDevice id) (ctor.leak env id) log
      (unwinding (.destroyed (.deviceList ⟨id⟩))
        (do let ctx ← openDevice strerror env id; pure (.device ctx (some ⟨id⟩)))
        (.created (.deviceList ⟨id⟩) :: log)) := by
  unfold unwinding
  rcases openDevice_cases strerror env id (.created (.deviceList ⟨id⟩) :: log) with
    ⟨hm, e, he⟩ | ⟨hm, hq, he⟩ | ⟨hm, hq, e, he⟩
  · rw [leak_of_made_false hm, bind_error he]
    exact .threw (.exception e) _ builds_gone Failure.noConfusion
  · rw [bind_ok he]
    exact .returned (.device ⟨id⟩ (some ⟨id⟩)) _ builds_both ⟨_, rfl⟩ (leak_of_succeed hq id ctor)
  · rw [leak_of_fail ho hm hq, bind_error he]
    exact .threw (.exception e) _ builds_freed Failure.noConfusion

end Opening

/-- **A constructor of `device` leaves its own handles open, or its leak.** -/
theorem device_ran (env : DeviceEnv) (id : Nat) (ctor : DeviceCtor) (log : List Event) :
    Ran (Root id) (IsDevice id) (ctor.leak env id) log (device strerror env id ctor log) := by
  cases ctor with
  | target =>
    rcases openDevice_cases strerror env id log with ⟨hm, e, he⟩ | ⟨hm, hq, he⟩ | ⟨hm, hq, e, he⟩
    · rw [leak_of_made_false hm, device, bind_error he]
      exact .threw (.exception e) [] builds_nil Failure.noConfusion
    · rw [device, bind_ok he]
      exact .returned (.device ⟨id⟩ none) _ builds_context ⟨_, rfl⟩ (leak_of_succeed hq id .target)
    · rw [leak_of_fail rfl hm hq, device, bind_error he]
      exact .threw (.exception e) _ builds_context Failure.noConfusion
  | deviceName name =>
    rcases deviceList_cases strerror env id log with ⟨-, hl⟩ | ⟨hn, f, new, hl, hb⟩
    · rw [device, bind_ok hl]
      by_cases hname : name ∈ env.names
      · simp only [hname, if_true]
        exact closing_open_ran strerror (by simp [DeviceCtor.opens, hname])
      · rw [leak_of_not_opens (by simp [DeviceCtor.opens, hname])]
        simp only [hname, if_false]
        exact .threw (.exception _) _ builds_gone Failure.noConfusion
    · rw [leak_of_not_opens (by simp [DeviceCtor.opens, hn]), device, bind_error hl]
      exact Ran.failed hb
  | deviceNum num =>
    rcases deviceList_cases strerror env id log with ⟨-, hl⟩ | ⟨hn, f, new, hl, hb⟩
    · rw [device, bind_ok hl]
      by_cases hnum : num.toNat < env.names.length
      · simp only [Nat.not_le_of_lt hnum, if_false]
        exact unwinding_open_ran strerror (by simp [DeviceCtor.opens, hnum])
      · rw [leak_of_not_opens (by simp [DeviceCtor.opens, hnum])]
        simp only [Nat.le_of_not_lt hnum, if_true]
        exact .threw (.invalidArgument _) _ builds_gone Failure.noConfusion
    · rw [leak_of_not_opens (by simp [DeviceCtor.opens, hn]), device, bind_error hl]
      exact Ran.failed hb

end Calls

end Objects
end Rdmapp
