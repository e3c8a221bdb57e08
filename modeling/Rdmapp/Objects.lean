/-
  File:      Rdmapp/Objects.lean
  Subject:   THE WRAPPERS AND WHAT THEY OWN: `device`, `pd`, `cq`, `srq`, `basic_qp`, `local_mr`,
             `basic_cq_poller`, from constructor to destructor.

  A constructor is a program over the log of verbs calls; each call's result is the
  environment's. When it returns, the new object joins the heap of shared objects; when it throws,
  what was already complete in it is destroyed and nothing else. `layout` is how each class ends:
  the calls of its destructor, then its owning members, last declared first.

  The machine interleaves constructions, copies and drops of the pointers, moves of `local_mr`,
  destructors (one task at a time, any number side by side) and the pollers' threads. A crash in
  a constructor has no next state. A QP here is one whose constructor returned; `Rdmapp/Qp.lean`
  has the others.
-/
import Rdmapp.Error
import Rdmapp.Lib.Ownership
import Rdmapp.Lib.Transition

namespace Rdmapp
namespace Objects

open Lib

/-! ## 1. Verbs objects -/

/-- The array `ibv_get_device_list` returns. -/
structure IbvDeviceList where
  id : Nat
  deriving DecidableEq, Repr

/-- `struct ibv_context`. -/
structure IbvContext where
  id : Nat
  deriving DecidableEq, Repr

/-- `struct ibv_pd`. -/
structure IbvPd where
  id : Nat
  context : IbvContext
  deriving DecidableEq, Repr

/-- `struct ibv_cq`. -/
structure IbvCq where
  id : Nat
  context : IbvContext
  deriving DecidableEq, Repr

/-- `struct ibv_srq`. -/
structure IbvSrq where
  id : Nat
  pd : IbvPd
  deriving DecidableEq, Repr

/-- A registered `struct ibv_mr`. -/
structure IbvRegion where
  id : Nat
  pd : IbvPd
  deriving DecidableEq, Repr

/-- `struct ibv_qp`. -/
structure IbvQp where
  id : Nat
  pd : IbvPd
  recvCq : IbvCq
  sendCq : IbvCq
  srq : Option IbvSrq
  deriving DecidableEq, Repr

inductive VerbsObject where
  | deviceList (l : IbvDeviceList)
  | context (c : IbvContext)
  | pd (p : IbvPd)
  | cq (c : IbvCq)
  | srq (s : IbvSrq)
  | mr (m : IbvRegion)
  | qp (q : IbvQp)
  deriving DecidableEq, Repr

namespace VerbsObject

def id : VerbsObject → Nat
  | deviceList l => l.id
  | context c => c.id
  | pd p => p.id
  | cq c => c.id
  | srq s => s.id
  | mr m => m.id
  | qp q => q.id

/-- What the object was made on, and must go before. -/
def parents : VerbsObject → List VerbsObject
  | deviceList _ => []
  | context _ => []
  | pd p => [context p.context]
  | cq c => [context c.context]
  | srq s => [pd s.pd]
  | mr m => [pd m.pd]
  | qp q => [pd q.pd, cq q.sendCq, cq q.recvCq] ++ (q.srq.map srq).toList

end VerbsObject

/-- What happens to verbs objects. -/
inductive Event where
  | created (v : VerbsObject)
  | destroyed (v : VerbsObject)
  /-- `ibv_modify_qp` to the error state. -/
  | erred (q : IbvQp)
  | polled (c : IbvCq)
  deriving DecidableEq, Repr

/-! ## 2. Constructors -/

/-- How a constructor ends early. -/
inductive Failure where
  | exception (e : Exc)
  /-- `std::invalid_argument`. -/
  | invalidArgument (what : String)
  /-- A verbs call on the null pointer. -/
  | crash
  deriving DecidableEq, Repr

/-- Programs over the log, the newest event first. -/
abbrev VerbsM (α : Type) := ExceptT Failure (StateM (List Event)) α

/-- The result of a verbs call that makes an object: whether it did, else `errno`. -/
structure MakeResult where
  made : Bool
  errno : Int
  deriving DecidableEq, Repr

/-- What `ibv_get_device_list` finds, or what it leaves in `nr_devices` and `errno`. -/
inductive DeviceListResult where
  | devices (names : List String)
  | failed (nrDevices : Int) (errno : Int)
  deriving DecidableEq, Repr

/-- The results of the verbs calls a `device` constructor makes. -/
structure DeviceEnv where
  getDeviceList : DeviceListResult
  openDevice : MakeResult
  queryPort : Int
  queryDeviceEx : Int
  queryGid : Int
  deriving DecidableEq, Repr

/-- The constructors of `device`: by device pointer, by name, by index. -/
inductive DeviceCtor where
  | target
  | deviceName (name : String)
  | deviceNum (num : UInt16)
  deriving DecidableEq, Repr

/-- The classes, with their handles and owning members. -/
inductive Wrapper where
  | device (ctx_ : IbvContext) (deviceList_ : Option IbvDeviceList)
  | pd (pd_ : IbvPd) (device_ : Nat)
  | cq (cq_ : IbvCq) (device_ : Nat)
  | srq (srq_ : IbvSrq) (pd_ : Nat)
  | localMr (mr_ : Option IbvRegion) (pd_ : Option Nat)
  | qp (qp_ : IbvQp) (pd_ recvCq_ sendCq_ : Nat) (srq_ : Option Nat)
  | poller (this cq_ : Nat)
  deriving DecidableEq, Repr

def event (e : Event) : VerbsM Unit := fun log => (.ok (), e :: log)

section Constructors

variable (strerror : Int → String)

/-- A verbs call that makes an object, and the `check_ptr` after it. -/
def make (v : VerbsObject) (r : MakeResult) (message : String) : VerbsM Unit := fun log =>
  match checkPtr strerror (if r.made then some v else none) r.errno message with
  | .ok v => (.ok (), .created v :: log)
  | .error e => (.error (.exception e), log)

/-- `check_rc`, throwing. -/
def check (rc : Int) (message : String) : VerbsM Unit := fun log =>
  match checkRc strerror rc message with
  | .ok () => (.ok (), log)
  | .error e => (.error (.exception e), log)

/-- A local with a destructor: it is destroyed however the rest ends. -/
def closing {α : Type} (close : Event) (body : VerbsM α) : VerbsM α := fun log =>
  match body log with
  | (.error .crash, log) => (.error .crash, log)
  | (r, log) => (r, close :: log)

/-- A member already complete: it is destroyed if the rest of the constructor throws. -/
def unwinding {α : Type} (close : Event) (body : VerbsM α) : VerbsM α := fun log =>
  match body log with
  | (.ok r, log) => (.ok r, log)
  | (.error .crash, log) => (.error .crash, log)
  | (.error e, log) => (.error e, close :: log)

variable (env : DeviceEnv) (id : Nat)

/-- `device_list::device_list`: the list, and the names of its devices. -/
def deviceList : VerbsM (IbvDeviceList × List String) :=
  match env.getDeviceList with
  | .devices names => do
    event (.created (.deviceList ⟨id⟩))
    if names.length = 0 then
      event (.destroyed (.deviceList ⟨id⟩))
      throw (.exception (.runtimeError "no Infiniband devices found"))
    pure (⟨id⟩, names)
  | .failed nrDevices errno => do
    -- `ibv_free_device_list` of the null pointer
    if nrDevices = 0 then throw .crash
    make strerror (.deviceList ⟨id⟩) ⟨false, errno⟩ "failed to get Infiniband devices"
    pure (⟨id⟩, [])

/-- `device::open_device`. -/
def openDevice : VerbsM IbvContext := do
  make strerror (.context ⟨id⟩) env.openDevice "failed to open device"
  check strerror env.queryPort "failed to query port"
  check strerror env.queryDeviceEx "failed to query extended attributes"
  check strerror env.queryGid "failed to query gid"
  pure ⟨id⟩

/-- The constructors of `device`. An exception does not run `~device`. -/
def device : DeviceCtor → VerbsM Wrapper
  | .target => do
    let ctx ← openDevice strerror env id
    pure (.device ctx none)
  | .deviceName name => do
    let (l, names) ← deviceList strerror env id
    closing (.destroyed (.deviceList l)) do
      if name ∈ names then
        let ctx ← openDevice strerror env id
        pure (.device ctx none)
      else throw (.exception (.runtimeError (snprintf ("no device named " ++ name ++ " found"))))
  | .deviceNum num => do
    let (l, names) ← deviceList strerror env id
    unwinding (.destroyed (.deviceList l)) do
      if num.toNat ≥ names.length then
        throw (.invalidArgument (snprintf ("requested device number " ++ toString num.toNat ++
          " out of range, " ++ toString names.length ++ " devices available")))
      let ctx ← openDevice strerror env id
      pure (.device ctx (some l))

/-- `pd::pd`. -/
def pd (device : Nat) (ctx : IbvContext) (r : MakeResult) : VerbsM Wrapper := do
  make strerror (.pd ⟨id, ctx⟩) r "failed to alloc pd"
  pure (.pd ⟨id, ctx⟩ device)

/-- `cq::cq`. -/
def cq (device : Nat) (ctx : IbvContext) (r : MakeResult) : VerbsM Wrapper := do
  make strerror (.cq ⟨id, ctx⟩) r "failed to create cq"
  pure (.cq ⟨id, ctx⟩ device)

/-- `srq::srq`. -/
def srq (pd : Nat) (p : IbvPd) (r : MakeResult) : VerbsM Wrapper := do
  make strerror (.srq ⟨id, p⟩) r "failed to create srq"
  pure (.srq ⟨id, p⟩ pd)

/-- `pd::reg_mr`. -/
def regMr (pd : Nat) (p : IbvPd) (r : MakeResult) : VerbsM Wrapper := do
  make strerror (.mr ⟨id, p⟩) r "failed to reg mr"
  pure (.localMr (some ⟨id, p⟩) (some pd))

end Constructors

/-- `basic_qp::basic_qp`, returning: the owned members and the handle `create` gets. -/
def qp (id pd recvCq sendCq : Nat) (srq : Option Nat) (p : IbvPd) (rc sc : IbvCq)
    (s : Option IbvSrq) : VerbsM Wrapper := do
  event (.created (.qp ⟨id, p, rc, sc, s⟩))
  pure (.qp ⟨id, p, rc, sc, s⟩ pd recvCq sendCq srq)

/-! ## 3. Destructors -/

/-- What a destructor does besides letting go of members. -/
inductive Effect where
  | destroy (v : VerbsObject)
  /-- `basic_qp::err`. -/
  | err (q : IbvQp)
  /-- `~jthread` of the poller at an address: a stop request, then the join. -/
  | join (poller cq : Nat)
  deriving DecidableEq, Repr

/-- How each class ends. Members go in the reverse order of their declaration; the list of a
    device and the thread of a poller are members too, owned by nobody else. -/
def layout : Layout Wrapper Effect where
  body
    | .device ctx l => .destroy (.context ctx) :: (l.map fun l => .destroy (.deviceList l)).toList
    | .pd p _ => [.destroy (.pd p)]
    | .cq c _ => [.destroy (.cq c)]
    | .srq s _ => [.destroy (.srq s)]
    | .localMr mr _ => (mr.map fun m => .destroy (.mr m)).toList
    | .qp q _ _ _ _ => [.err q, .destroy (.qp q)]
    | .poller this cq => [.join this cq]
  members
    | .device _ _ => []
    | .pd _ device => [device]
    | .cq _ device => [device]
    | .srq _ pd => [pd]
    | .localMr _ pd => pd.toList
    | .qp _ pd recvCq sendCq srq => srq.toList ++ [sendCq, recvCq, pd]
    | .poller _ cq => [cq]

/-- A `local_mr` that was moved from. -/
def Wrapper.movedFrom : Wrapper := .localMr none none

/-! ## 4. The machine -/

/-- The objects, the verbs calls so far, the pollers asked to stop and those that left their
    loop. -/
structure Process where
  heap : Heap Wrapper Effect
  log : List Event
  stopping : List Nat
  exited : List Nat
  deriving Repr

def Process.start : Process := ⟨.empty, [], [], []⟩

inductive Action where
  | newDevice (ctor : DeviceCtor) (env : DeviceEnv)
  | newPd (device : Nat) (r : MakeResult)
  | newCq (device : Nat) (r : MakeResult)
  | newSrq (pd : Nat) (r : MakeResult)
  | regMr (pd : Nat) (r : MakeResult)
  | newQp (pd recvCq sendCq : Nat) (srq : Option Nat)
  | newPoller (cq : Nat)
  | copy (a : Nat)
  /-- A pointer read out of an object: `device_ptr`, `pd_ptr`. -/
  | copyMember (owner a : Nat)
  | drop (a : Nat)
  /-- `local_mr(local_mr &&)`. -/
  | moveMr (a : Nat)
  /-- The `i`-th destructor under way does its next task. -/
  | work (i : Nat)
  /-- The poller's thread polls once. -/
  | poll (poller : Nat)
  /-- The poller's thread leaves its loop: on a stop request, or on an exception. -/
  | exit (poller : Nat) (caught : Bool)
  deriving Repr

namespace Process

/-- The objects the program can name. -/
def object (s : Process) (a : Nat) : Option Wrapper :=
  if a ∈ s.heap.refs then s.heap.objAt a else none

/-- Runs a constructor. A new object copies the pointers it keeps. -/
def construct (s : Process) (ctor : VerbsM Wrapper) : Option Process :=
  match ctor s.log with
  | (.ok o, log) =>
    some { s with heap := (s.heap.copyAll (layout.members o)).adopt layout o, log := log }
  | (.error .crash, _) => none
  | (.error _, log) => some { s with heap := s.heap.abandon .movedFrom, log := log }

/-- The address of the next object. -/
def next (s : Process) : Nat := s.heap.blocks.length

/-- A destructor's effect, with what is left to do if it is complete. -/
def perform (s : Process) (i : Nat) (rest : List (Lib.Task Effect)) : Effect → Option Process
  | .destroy v => some { s with heap := s.heap.finish i rest, log := .destroyed v :: s.log }
  | .err q => some { s with heap := s.heap.finish i rest, log := .erred q :: s.log }
  | .join p _ =>
    if p ∉ s.stopping then some { s with stopping := p :: s.stopping }
    else if p ∈ s.exited then some { s with heap := s.heap.finish i rest }
    else none

/-- The CQ a poller's thread reads, while it runs. -/
def polledCq (s : Process) (p : Nat) : Option IbvCq :=
  match s.heap.objAt p with
  | some (.poller _ cq) =>
    match s.heap.objAt cq with
    | some (.cq c _) => if p ∈ s.exited then none else some c
    | _ => none
  | _ => none

end Process

section Steps

variable (strerror : Int → String)

def step (s : Process) : Action → Option Process
  | .newDevice ctor env => s.construct (device strerror env s.next ctor)
  | .newPd d r =>
    match s.object d with
    | some (.device ctx _) => s.construct (pd strerror s.next d ctx r)
    | _ => none
  | .newCq d r =>
    match s.object d with
    | some (.device ctx _) => s.construct (cq strerror s.next d ctx r)
    | _ => none
  | .newSrq a r =>
    match s.object a with
    | some (.pd p _) => s.construct (srq strerror s.next a p r)
    | _ => none
  | .regMr a r =>
    match s.object a with
    | some (.pd p _) => s.construct (regMr strerror s.next a p r)
    | _ => none
  | .newQp a rcq scq none =>
    match s.object a, s.object rcq, s.object scq with
    | some (.pd p _), some (.cq rc _), some (.cq sc _) =>
      s.construct (qp s.next a rcq scq none p rc sc none)
    | _, _, _ => none
  | .newQp a rcq scq (some q) =>
    match s.object a, s.object rcq, s.object scq, s.object q with
    | some (.pd p _), some (.cq rc _), some (.cq sc _), some (.srq r _) =>
      s.construct (qp s.next a rcq scq (some q) p rc sc (some r))
    | _, _, _, _ => none
  | .newPoller c =>
    match s.object c with
    | some (.cq _ _) => s.construct (pure (.poller s.next c))
    | _ => none
  | .copy a => if a ∈ s.heap.refs then some { s with heap := s.heap.copy a } else none
  | .copyMember owner a =>
    match s.object owner with
    | some o => if a ∈ layout.members o then some { s with heap := s.heap.copy a } else none
    | none => none
  | .drop a => if a ∈ s.heap.refs then some { s with heap := s.heap.drop a } else none
  | .moveMr a =>
    match s.heap.blocks[a]? with
    | some ⟨uses, .localMr mr pd⟩ =>
      if a ∈ s.heap.refs then
        some { s with heap := s.heap.moveOut a ⟨uses, .localMr mr pd⟩ .movedFrom }
      else none
    | _ => none
  | .work i =>
    match s.heap.tasks[i]? with
    | some (.run e :: rest) => s.perform i rest e
    | some (.release a :: rest) =>
      s.heap.blocks[a]?.map fun b => { s with heap := s.heap.release layout i a b rest }
    | _ => none
  | .poll p => (s.polledCq p).map fun c => { s with log := .polled c :: s.log }
  | .exit p caught =>
    match s.heap.objAt p with
    | some (.poller _ _) =>
      if p ∉ s.exited ∧ (caught = true ∨ p ∈ s.stopping) then
        some { s with exited := p :: s.exited }
      else none
    | _ => none

def machine : Machine Process Action where
  step := step strerror

end Steps

end Objects
end Rdmapp
