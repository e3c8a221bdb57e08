/-
  File:      Rdmapp/Qp.lean
  Subject:   THE QUEUE PAIR OBJECT: `basic_qp` from its constructors to its destructor.

  `create`, `init`, `rtr`, `rts`, `err` and `destroy` as `qp.cc` has them, in a monad that keeps
  the object and the verbs calls made on it. The result of each verbs call is the environment's
  choice; a verbs call on the null handle ends the process.

  `lifetime` is a run of one object: a constructor, public calls whose exceptions the caller
  catches, the destructor. `handleSafe_iff` says when the verbs handle is destroyed: a failing
  transition nulls `qp_` before it calls `destroy`, which then has nothing to destroy.
-/
import Rdmapp.Error

namespace Rdmapp

/-! ## 1. Attributes -/

/-- `enum ibv_qp_state`, the states the library asks for. -/
inductive IbvQpState where
  | init
  | rtr
  | rts
  | err
  deriving DecidableEq, Repr

/-- `enum ibv_qp_attr_mask`, the bits the library sets. -/
inductive IbvQpAttrMask where
  | state
  | port
  | accessFlags
  | pkeyIndex
  | av
  | pathMtu
  | destQpn
  | rqPsn
  | minRnrTimer
  | maxDestRdAtomic
  | timeout
  | retryCnt
  | rnrRetry
  | sqPsn
  | maxQpRdAtomic
  deriving DecidableEq, Repr

/-- `enum ibv_access_flags`, the bits the library sets. -/
inductive IbvAccessFlag where
  | remoteWrite
  | remoteRead
  | localWrite
  | remoteAtomic
  deriving DecidableEq, Repr

/-- `struct ibv_ah_attr` with its `grh`. -/
structure IbvAhAttr where
  isGlobal : UInt8
  dgid : IbvGid
  sgidIndex : UInt8
  hopLimit : UInt8
  dlid : UInt16
  sl : UInt8
  srcPathBits : UInt8
  portNum : UInt8
  deriving DecidableEq, Repr

/-- `struct ibv_qp_attr`; `bzero` leaves zeros, and no address vector. -/
structure IbvQpAttr where
  qpState : IbvQpState
  pkeyIndex : UInt16 := 0
  portNum : UInt8 := 0
  qpAccessFlags : List IbvAccessFlag := []
  /-- `IBV_MTU_4096` is 5. -/
  pathMtu : UInt32 := 0
  destQpNum : UInt32 := 0
  rqPsn : UInt32 := 0
  sqPsn : UInt32 := 0
  maxDestRdAtomic : UInt8 := 0
  minRnrTimer : UInt8 := 0
  ahAttr : Option IbvAhAttr := none
  timeout : UInt8 := 0
  retryCnt : UInt8 := 0
  rnrRetry : UInt8 := 0
  maxRdAtomic : UInt8 := 0
  deriving DecidableEq, Repr

/-- What a QP reads of its `device`. -/
structure Device where
  lid : UInt16
  gid : IbvGid
  portNum : UInt16
  gidIndex : Nat
  deriving DecidableEq, Repr

/-- The peer, as `rtr` takes it. -/
structure RemoteQp where
  lid : UInt16
  qpn : UInt32
  psn : UInt32
  gid : IbvGid
  deriving DecidableEq, Repr

/-- `qp_config`. -/
structure QpConfig where
  maxSendWr : UInt32
  maxRecvWr : UInt32
  deriving DecidableEq, Repr

/-- `struct ibv_qp_init_attr` of an RC queue pair on CQs `κ`, with an SRQ of `ρ` or none. -/
structure IbvQpInitAttr (κ ρ : Type*) where
  recvCq : κ
  sendCq : κ
  srq : Option ρ
  maxRecvSge : UInt32
  maxSendSge : UInt32
  maxRecvWr : UInt32
  maxSendWr : UInt32
  sqSigAll : Bool
  deriving DecidableEq

/-- The attributes `create` asks for. -/
def qpInitAttr {κ ρ : Type*} (recvCq sendCq : κ) (srq : Option ρ) (config : QpConfig) :
    IbvQpInitAttr κ ρ where
  recvCq := recvCq
  sendCq := sendCq
  srq := srq
  maxRecvSge := 1
  maxSendSge := 1
  maxRecvWr := config.maxRecvWr
  maxSendWr := config.maxSendWr
  sqSigAll := false

/-- The attributes of `init`. -/
def initAttr (device : Device) : IbvQpAttr where
  qpState := .init
  pkeyIndex := 0
  portNum := device.portNum.toUInt8
  qpAccessFlags := [.remoteWrite, .remoteRead, .localWrite, .remoteAtomic]

def initMask : List IbvQpAttrMask := [.state, .port, .accessFlags, .pkeyIndex]

/-- The attributes of `rtr`. -/
def rtrAttr (device : Device) (remote : RemoteQp) : IbvQpAttr where
  qpState := .rtr
  pathMtu := 5
  destQpNum := remote.qpn
  rqPsn := remote.psn
  maxDestRdAtomic := 16
  minRnrTimer := 12
  ahAttr := some
    { isGlobal := 1
      dgid := remote.gid
      sgidIndex := UInt8.ofNat device.gidIndex
      hopLimit := 16
      dlid := remote.lid
      sl := 0
      srcPathBits := 0
      portNum := device.portNum.toUInt8 }

def rtrMask : List IbvQpAttrMask :=
  [.state, .av, .pathMtu, .destQpn, .rqPsn, .minRnrTimer, .maxDestRdAtomic]

/-- The attributes of `rts`. -/
def rtsAttr (sqPsn : UInt32) : IbvQpAttr where
  qpState := .rts
  timeout := 14
  retryCnt := 7
  rnrRetry := 7
  maxRdAtomic := 16
  sqPsn := sqPsn

def rtsMask : List IbvQpAttrMask :=
  [.state, .timeout, .retryCnt, .rnrRetry, .sqPsn, .maxQpRdAtomic]

/-- The attributes of `err`. -/
def errAttr : IbvQpAttr where
  qpState := .err

/-! ## 2. The object and the verbs calls -/

/-- A pointer to a `struct ibv_qp`. -/
abbrev QpHandle := Nat

/-- A verbs call made by the object. -/
inductive VerbsCall where
  | createQp (result : Option QpHandle)
  | modifyQp (qp : QpHandle) (attr : IbvQpAttr) (mask : List IbvQpAttrMask)
  | destroyQp (qp : QpHandle)
  deriving DecidableEq, Repr

/-- The call is made on the handle. -/
def VerbsCall.uses (h : QpHandle) : VerbsCall → Bool
  | .createQp _ => false
  | .modifyQp qp _ _ => qp == h
  | .destroyQp qp => qp == h

/-- What the environment decides: the handle `ibv_create_qp` returns, `errno` if it returns
    none, and what the `n`-th verbs call of the run returns. -/
structure VerbsEnv where
  created : Option QpHandle
  errno : Int
  rc : Nat → Int
  /-- `next_sq_psn` when the object draws from it. -/
  nextSqPsn : UInt32

/-- The object, and the calls made so far. -/
structure QpObject where
  /-- `qp_`. -/
  qp : Option QpHandle
  sqPsn : UInt32
  calls : List VerbsCall
  deriving DecidableEq, Repr

/-- How a function ends early: by an exception, or with the process. -/
inductive Stop where
  | exception (e : Exc)
  /-- A verbs call on the null handle. -/
  | crash
  deriving DecidableEq, Repr

/-- Functions of the object. -/
abbrev QpM (α : Type) := ExceptT Stop (StateM QpObject) α

/-- `try body catch (std::exception const &e) handler`. -/
def catching {α : Type} (body : QpM α) (handler : Exc → QpM α) : QpM α := fun o =>
  match body o with
  | (.error (.exception e), o) => handler e o
  | r => r

section Object

variable (strerror : Int → String) (env : VerbsEnv)

/-- `check_rc`, throwing. -/
def checkRcM (rc : Int) (message : String) : QpM Unit := fun o =>
  match checkRc strerror rc message with
  | .ok () => (.ok (), o)
  | .error e => (.error (.exception e), o)

/-- `ibv_modify_qp(qp_, attr, mask)`. -/
def ibvModifyQp (attr : IbvQpAttr) (mask : List IbvQpAttrMask) : QpM Int := fun o =>
  match o.qp with
  | none => (.error .crash, o)
  | some h =>
    (.ok (env.rc o.calls.length), { o with calls := o.calls ++ [.modifyQp h attr mask] })

/-- `ibv_destroy_qp(qp_)`. -/
def ibvDestroyQp : QpM Int := fun o =>
  match o.qp with
  | none => (.error .crash, o)
  | some h => (.ok (env.rc o.calls.length), { o with calls := o.calls ++ [.destroyQp h] })

/-- `err`: a failure is logged. -/
def err : QpM Unit := do
  let _ ← ibvModifyQp env errAttr [.state]

/-- `destroy`: a failure is logged. -/
def destroy : QpM Unit := fun o =>
  match o.qp with
  | none => (.ok (), o)
  | some _ => (do
      err env
      let _ ← ibvDestroyQp env) o

/-- `qp_ = nullptr`. -/
def nullQp : QpM Unit := fun o => (.ok (), { o with qp := none })

/-- A transition: the common shape of `init`, `rtr` and `rts`. -/
def transition (attr : IbvQpAttr) (mask : List IbvQpAttrMask) (message : String) : QpM Unit :=
  catching
    (do
      let rc ← ibvModifyQp env attr mask
      checkRcM strerror rc message)
    (fun e => do
      nullQp
      destroy env
      throw (.exception e))

/-- `init`. -/
def init (device : Device) : QpM Unit :=
  transition strerror env (initAttr device) initMask "failed to transition qp to init state"

/-- `rtr`. -/
def rtr (device : Device) (remote : RemoteQp) : QpM Unit :=
  transition strerror env (rtrAttr device remote) rtrMask "failed to transition qp to rtr state"

/-- `rts`. -/
def rts : QpM Unit := fun o =>
  transition strerror env (rtsAttr o.sqPsn) rtsMask "failed to transition qp to rts state" o

/-- `create`. -/
def create : QpM Unit := fun o =>
  let o := { o with qp := env.created, calls := o.calls ++ [.createQp env.created] }
  match checkPtr strerror env.created env.errno "failed to create qp" with
  | .error e => (.error (.exception e), o)
  | .ok _ => (.ok (), { o with sqPsn := env.nextSqPsn })

/-! ## 3. Constructors, public calls, destructor -/

/-- `~basic_qp`. -/
def destructor : QpM Unit := destroy env

/-- The constructor that does not delegate. When it throws there is no object to destroy. -/
def constructCqs (device : Device) : QpM Unit := do
  create strerror env
  init strerror env device

/-- The body of a delegating constructor: the object exists, so an exception destroys it. -/
def constructing (body : QpM Unit) : QpM Unit :=
  catching body fun e => do
    destructor env
    throw (.exception e)

/-- The four constructors: with a remote QP or without, on one CQ or two. The CQs do not matter
    for the handle. -/
inductive Ctor where
  | remoteCq (remote : RemoteQp)
  | remoteCqs (remote : RemoteQp)
  | cq
  | cqs
  deriving DecidableEq, Repr

/-- The constructors, by delegation. -/
def construct (device : Device) (ctor : Ctor) : QpM Unit :=
  let remoteCqs (remote : RemoteQp) : QpM Unit := do
    constructCqs strerror env device
    constructing env do
      rtr strerror env device remote
      rts strerror env
  match ctor with
  | .remoteCq remote => remoteCqs remote
  | .remoteCqs remote => remoteCqs remote
  | .cq => constructCqs strerror env device
  | .cqs => constructCqs strerror env device

/-- The public calls. -/
inductive PublicCall where
  | rtr (remote : RemoteQp)
  | rts
  | err
  deriving DecidableEq, Repr

def PublicCall.body (device : Device) : PublicCall → QpM Unit
  | .rtr remote => Rdmapp.rtr strerror env device remote
  | .rts => Rdmapp.rts strerror env
  | .err => Rdmapp.err env

/-- The caller makes the calls one after the other and catches what they throw. -/
def publicCalls (device : Device) : List PublicCall → QpM Unit
  | [] => pure ()
  | c :: cs => do
    catching (c.body strerror env device) fun _ => pure ()
    publicCalls device cs

/-- The object's life. -/
def lifetime (device : Device) (ctor : Ctor) (calls : List PublicCall) : QpM Unit := do
  construct strerror env device ctor
  publicCalls strerror env device calls
  destructor env

/-- The object before its constructor runs. -/
def QpObject.blank : QpObject := ⟨none, 0, []⟩

/-- The verbs calls of a whole life. -/
def callsOf (device : Device) (ctor : Ctor) (calls : List PublicCall) : List VerbsCall :=
  (lifetime strerror env device ctor calls QpObject.blank).2.calls

end Object

/-! ## 4. What each function does -/

section Functions

variable {strerror : Int → String} {env : VerbsEnv} {o o' : QpObject} {h : QpHandle}

theorem catching_ok {α : Type} {body : QpM α} {a : α} (hb : body o = (.ok a, o'))
    (handler : Exc → QpM α) : catching body handler o = (.ok a, o') := by
  unfold catching
  rw [hb]

theorem catching_exception {α : Type} {body : QpM α} {e : Exc}
    (hb : body o = (.error (.exception e), o')) (handler : Exc → QpM α) :
    catching body handler o = handler e o' := by
  unfold catching
  rw [hb]

theorem catching_crash {α : Type} {body : QpM α} (hb : body o = (.error .crash, o'))
    (handler : Exc → QpM α) : catching body handler o = (.error .crash, o') := by
  unfold catching
  rw [hb]

theorem ibvModifyQp_some (hq : o.qp = some h) (attr : IbvQpAttr) (mask : List IbvQpAttrMask) :
    ibvModifyQp env attr mask o =
      (.ok (env.rc o.calls.length), { o with calls := o.calls ++ [.modifyQp h attr mask] }) := by
  unfold ibvModifyQp
  rw [hq]

theorem ibvModifyQp_none (hq : o.qp = none) (attr : IbvQpAttr) (mask : List IbvQpAttrMask) :
    ibvModifyQp env attr mask o = (.error .crash, o) := by
  unfold ibvModifyQp
  rw [hq]

/-- A transition that verbs grants. -/
theorem transition_ok (hq : o.qp = some h) (hr : env.rc o.calls.length = 0) (attr : IbvQpAttr)
    (mask : List IbvQpAttrMask) (message : String) :
    transition strerror env attr mask message o =
      (.ok (), { o with calls := o.calls ++ [.modifyQp h attr mask] }) := by
  refine catching_ok ?_ _
  rw [bind_ok (ibvModifyQp_some hq attr mask), hr]
  rfl

variable (strerror) in
/-- A transition that verbs refuses: the handle is forgotten, not destroyed. -/
theorem transition_refused (hq : o.qp = some h) (hr : env.rc o.calls.length ≠ 0)
    (attr : IbvQpAttr) (mask : List IbvQpAttrMask) (message : String) :
    ∃ e, transition strerror env attr mask message o =
      (.error (.exception e),
        { o with qp := none, calls := o.calls ++ [.modifyQp h attr mask] }) := by
  obtain ⟨text, ht⟩ := checkRc_of_ne strerror hr message
  refine ⟨.runtimeError text, ?_⟩
  have hbody : (do
      let rc ← ibvModifyQp env attr mask
      checkRcM strerror rc message) o =
        (.error (.exception (.runtimeError text)),
          { o with calls := o.calls ++ [.modifyQp h attr mask] }) := by
    rw [bind_ok (ibvModifyQp_some hq attr mask)]
    unfold checkRcM
    rw [ht]
  unfold transition
  rw [catching_exception hbody]
  rfl

/-- A transition of a forgotten handle. -/
theorem transition_null (hq : o.qp = none) (attr : IbvQpAttr) (mask : List IbvQpAttrMask)
    (message : String) : transition strerror env attr mask message o = (.error .crash, o) :=
  catching_crash (bind_error (ibvModifyQp_none hq attr mask) _) _

theorem err_some (hq : o.qp = some h) :
    err env o = (.ok (), { o with calls := o.calls ++ [.modifyQp h errAttr [.state]] }) := by
  unfold err
  rw [bind_ok (ibvModifyQp_some hq errAttr [.state])]
  rfl

theorem err_null (hq : o.qp = none) : err env o = (.error .crash, o) :=
  bind_error (ibvModifyQp_none hq errAttr [.state]) _

theorem ibvDestroyQp_some (hq : o.qp = some h) :
    ibvDestroyQp env o =
      (.ok (env.rc o.calls.length), { o with calls := o.calls ++ [.destroyQp h] }) := by
  unfold ibvDestroyQp
  rw [hq]

/-- `destroy` of a live handle: to the error state, then gone, whatever verbs says. -/
theorem destroy_some (hq : o.qp = some h) :
    destroy env o =
      (.ok (), { o with calls := o.calls ++ [.modifyQp h errAttr [.state]] ++ [.destroyQp h] }) := by
  let o₁ : QpObject := { o with calls := o.calls ++ [.modifyQp h errAttr [.state]] }
  have hq₁ : o₁.qp = some h := hq
  unfold destroy
  rw [hq]
  dsimp only
  rw [bind_ok (err_some hq), bind_ok (ibvDestroyQp_some hq₁)]
  rw [← hq]
  rfl

theorem destroy_null (hq : o.qp = none) : destroy env o = (.ok (), o) := by
  unfold destroy
  rw [hq]

end Functions

/-! ## 5. The handle over a whole life -/

/-- Every handle `ibv_create_qp` returned is destroyed exactly once, and not used afterwards. -/
def HandleSafe (calls : List VerbsCall) : Prop :=
  ∀ h, .createQp (some h) ∈ calls → calls.count (.destroyQp h) = 1 ∧
    ∀ before after, calls = before ++ .destroyQp h :: after → ∀ c ∈ after, c.uses h = false

/-- How many transitions a constructor makes. -/
def Ctor.transitions : Ctor → Nat
  | .remoteCq _ => 3
  | .remoteCqs _ => 3
  | .cq => 1
  | .cqs => 1

def PublicCall.isTransition : PublicCall → Bool
  | .err => false
  | _ => true

/-- The verbs calls of constructor and public calls when none fails, by whether they are
    transitions (`init`, `rtr`, `rts`). -/
def plan (ctor : Ctor) (calls : List PublicCall) : List Bool :=
  false :: (List.replicate ctor.transitions true ++ calls.map PublicCall.isTransition)

/-- Of the verbs calls from the `n`-th on, those marked `true` return 0. -/
def Granted (env : VerbsEnv) (n : Nat) (marks : List Bool) : Prop :=
  ∀ i : Nat, marks[i]? = some true → env.rc (n + i) = 0

/-- No transition fails. -/
def TransitionsSucceed (env : VerbsEnv) (ctor : Ctor) (calls : List PublicCall) : Prop :=
  Granted env 0 (plan ctor calls)

section Life

variable {strerror : Int → String} {env : VerbsEnv} {device : Device} {h : QpHandle}

theorem granted_nil (n : Nat) : Granted env n [] := by
  intro i hi
  cases hi

theorem granted_cons (n : Nat) (mark : Bool) (marks : List Bool) :
    Granted env n (mark :: marks) ↔
      (mark = true → env.rc n = 0) ∧ Granted env (n + 1) marks := by
  constructor
  · intro hg
    refine ⟨fun hm => hg 0 (congrArg some hm), ?_⟩
    intro i hi
    have hr := hg (i + 1) hi
    rwa [Nat.add_comm i 1, ← Nat.add_assoc] at hr
  · rintro ⟨h0, hs⟩ i hi
    cases i with
    | zero => exact h0 (Option.some.inj hi)
    | succ i =>
      have hr := hs i hi
      rwa [Nat.add_assoc, Nat.add_comm 1 i] at hr

theorem granted_append (n : Nat) (marks₁ marks₂ : List Bool) :
    Granted env n (marks₁ ++ marks₂) ↔
      Granted env n marks₁ ∧ Granted env (n + marks₁.length) marks₂ := by
  induction marks₁ generalizing n with
  | nil => exact ⟨fun hg => ⟨granted_nil n, hg⟩, fun hg => hg.2⟩
  | cons mark marks₁ ih =>
    rw [List.cons_append, granted_cons, granted_cons, ih, List.length_cons, and_assoc,
      Nat.add_assoc, Nat.add_comm 1]

/-- The object owns the handle: `n` calls were made, none of them a destruction. -/
structure Owns (h : QpHandle) (n : Nat) (o : QpObject) : Prop where
  qp : o.qp = some h
  created : ∀ k, .createQp (some k) ∈ o.calls ↔ k = h
  notDestroyed : .destroyQp h ∉ o.calls
  length : o.calls.length = n

/-- The handle exists and nobody knows it any more. -/
structure Leaked (h : QpHandle) (o : QpObject) : Prop where
  qp : o.qp = none
  created : .createQp (some h) ∈ o.calls
  notDestroyed : .destroyQp h ∉ o.calls

/-- A leaked handle is never destroyed. -/
theorem Leaked.not_safe {o : QpObject} (hl : Leaked h o) : ¬ HandleSafe o.calls := by
  intro hs
  have hc := (hs h hl.created).1
  rw [List.count_eq_zero_of_not_mem hl.notDestroyed] at hc
  cases hc

/-- One more call on an owned handle. -/
theorem Owns.modify {n : Nat} {o : QpObject} (ho : Owns h n o) (attr : IbvQpAttr)
    (mask : List IbvQpAttrMask) :
    Owns h (n + 1) { o with calls := o.calls ++ [.modifyQp h attr mask] } := by
  refine ⟨ho.qp, ?_, ?_, ?_⟩
  · intro k
    rw [← ho.created k, List.mem_append, List.mem_singleton]
    exact or_iff_left (fun hc => VerbsCall.noConfusion hc)
  · intro hm
    rcases List.mem_append.mp hm with hm | hm
    · exact ho.notDestroyed hm
    · cases List.mem_singleton.mp hm
  · rw [List.length_append, ho.length]
    rfl

theorem Owns.leak {n : Nat} {o : QpObject} (ho : Owns h n o) : Leaked h { o with qp := none } :=
  ⟨rfl, (ho.created h).mpr rfl, ho.notDestroyed⟩

/-- On an owned handle the function makes the marked calls, one after the other: it returns and
    the handle is still owned, or a marked call fails, the function throws and the handle is
    leaked. -/
def Keeps (env : VerbsEnv) (h : QpHandle) (body : QpM Unit) (marks : List Bool) : Prop :=
  ∀ n o, Owns h n o →
    (Granted env n marks ∧ ∃ o', body o = (.ok (), o') ∧ Owns h (n + marks.length) o') ∨
    (¬ Granted env n marks ∧ ∃ e o', body o = (.error (.exception e), o') ∧ Leaked h o')

/-- A transition. -/
theorem keeps_transition (attr : IbvQpAttr) (mask : List IbvQpAttrMask) (message : String) :
    Keeps env h (transition strerror env attr mask message) [true] := by
  intro n o ho
  rw [granted_cons]
  by_cases hr : env.rc n = 0
  · refine Or.inl ⟨⟨fun _ => hr, granted_nil _⟩, _, transition_ok ho.qp ?_ attr mask message,
      ho.modify attr mask⟩
    rw [ho.length]
    exact hr
  · have hr' : env.rc o.calls.length ≠ 0 := by rwa [ho.length]
    obtain ⟨e, he⟩ := transition_refused strerror ho.qp hr' attr mask message
    exact Or.inr ⟨fun hg => hr (hg.1 rfl), e, _, he, (ho.modify attr mask).leak⟩

theorem keeps_rts : Keeps env h (rts strerror env) [true] :=
  fun n o ho => keeps_transition (rtsAttr o.sqPsn) rtsMask _ n o ho

/-- `err` ignores its failure. -/
theorem keeps_err : Keeps env h (err env) [false] := by
  intro n o ho
  rw [granted_cons]
  exact Or.inl ⟨⟨fun hc => Bool.noConfusion hc, granted_nil _⟩, _, err_some ho.qp,
    ho.modify errAttr [.state]⟩

/-- One function after the other: an exception of the first skips the second. -/
theorem Keeps.bind {body₁ body₂ : QpM Unit} {marks₁ marks₂ : List Bool}
    (h₁ : Keeps env h body₁ marks₁) (h₂ : Keeps env h body₂ marks₂) :
    Keeps env h (body₁ >>= fun _ => body₂) (marks₁ ++ marks₂) := by
  intro n o ho
  rw [granted_append, List.length_append, ← Nat.add_assoc]
  rcases h₁ n o ho with ⟨hg₁, o₁, hb₁, ho₁⟩ | ⟨hg₁, e, o₁, hb₁, hl⟩
  · rw [bind_ok hb₁]
    rcases h₂ _ o₁ ho₁ with ⟨hg₂, hres⟩ | ⟨hg₂, hres⟩
    · exact Or.inl ⟨⟨hg₁, hg₂⟩, hres⟩
    · exact Or.inr ⟨fun hg => hg₂ hg.2, hres⟩
  · exact Or.inr ⟨fun hg => hg₁ hg.1, e, o₁, bind_error hb₁ _, hl⟩

/-- The destructor after a throwing delegating body finds no handle. -/
theorem Keeps.constructing {body : QpM Unit} {marks : List Bool} (hb : Keeps env h body marks) :
    Keeps env h (Rdmapp.constructing env body) marks := by
  intro n o ho
  rcases hb n o ho with ⟨hg, o', hr, ho'⟩ | ⟨hg, e, o', hr, hl⟩
  · exact Or.inl ⟨hg, o', catching_ok hr _, ho'⟩
  · refine Or.inr ⟨hg, e, o', ?_, hl⟩
    unfold Rdmapp.constructing
    rw [catching_exception hr]
    exact bind_ok (destroy_null hl.qp) _

variable (strerror device) in
theorem PublicCall.keeps (c : PublicCall) :
    Keeps env h (c.body strerror env device) [c.isTransition] := by
  cases c with
  | rtr remote => exact keeps_transition _ _ _
  | rts => exact keeps_rts
  | err => exact keeps_err

/-- A public call after the leak ends the process. -/
theorem Leaked.call {o : QpObject} (hl : Leaked h o) (c : PublicCall) :
    c.body strerror env device o = (.error .crash, o) := by
  cases c with
  | rtr remote => exact transition_null hl.qp _ _ _
  | rts => exact transition_null hl.qp _ _ _
  | err => exact err_null hl.qp

variable (strerror env device) in
theorem Leaked.publicCalls {o : QpObject} (hl : Leaked h o) (cs : List PublicCall) :
    ∃ r, Rdmapp.publicCalls strerror env device cs o = (r, o) := by
  cases cs with
  | nil => exact ⟨_, rfl⟩
  | cons c cs => exact ⟨_, bind_error (catching_crash (hl.call c) _) _⟩

variable (strerror device) in
/-- The public calls, their exceptions caught: the handle stays owned as long as no transition
    fails. -/
theorem Owns.publicCalls {n : Nat} {o : QpObject} (ho : Owns h n o) (cs : List PublicCall) :
    (Granted env n (cs.map PublicCall.isTransition) ∧
      ∃ n' o', Rdmapp.publicCalls strerror env device cs o = (.ok (), o') ∧ Owns h n' o') ∨
    (¬ Granted env n (cs.map PublicCall.isTransition) ∧
      ∃ r o', Rdmapp.publicCalls strerror env device cs o = (r, o') ∧ Leaked h o') := by
  induction cs generalizing n o with
  | nil => exact Or.inl ⟨granted_nil n, n, o, rfl, ho⟩
  | cons c cs ih =>
    have hg : Granted env n ((c :: cs).map PublicCall.isTransition) ↔
        Granted env n [c.isTransition] ∧ Granted env (n + 1) (cs.map PublicCall.isTransition) :=
      granted_append n [c.isTransition] _
    unfold Rdmapp.publicCalls
    rw [hg]
    rcases c.keeps strerror device n o ho with
      ⟨hr, o₁, hc, ho₁⟩ | ⟨hr, e, o₁, hc, hl⟩
    · rw [bind_ok (catching_ok hc _)]
      rcases ih ho₁ with ⟨hs, hres⟩ | ⟨hs, hres⟩
      · exact Or.inl ⟨⟨hr, hs⟩, hres⟩
      · exact Or.inr ⟨fun hgs => hs hgs.2, hres⟩
    · have hcaught : catching (c.body strerror env device) (fun _ => pure ()) o = (.ok (), o₁) := by
        rw [catching_exception hc]
        rfl
      rw [bind_ok hcaught]
      obtain ⟨r, hp⟩ := hl.publicCalls strerror env device cs
      exact Or.inr ⟨fun hgs => hr hgs.1, r, o₁, hp, hl⟩

variable (strerror) in
/-- `create` takes the handle. -/
theorem create_some (hk : env.created = some h) :
    create strerror env QpObject.blank =
      (.ok (), ⟨some h, env.nextSqPsn, [.createQp (some h)]⟩) := by
  unfold create
  rw [hk]
  rfl

theorem owns_created (psn : UInt32) : Owns h 1 ⟨some h, psn, [.createQp (some h)]⟩ := by
  refine ⟨rfl, ?_, ?_, rfl⟩
  · intro k
    rw [List.mem_singleton, VerbsCall.createQp.injEq, Option.some.injEq]
  · intro hm
    cases List.mem_singleton.mp hm

variable (strerror) in
/-- `create` throws with nothing made. -/
theorem create_none (hk : env.created = none) :
    ∃ e, create strerror env QpObject.blank =
      (.error (.exception e), { QpObject.blank with calls := [.createQp none] }) := by
  unfold create
  rw [hk]
  exact ⟨_, rfl⟩

/-- What a constructor does after `create`. -/
def afterCreate (strerror : Int → String) (env : VerbsEnv) (device : Device) : Ctor → QpM Unit
  | .remoteCq remote | .remoteCqs remote => do
    init strerror env device
    constructing env do
      rtr strerror env device remote
      rts strerror env
  | .cq | .cqs => init strerror env device

theorem construct_eq (device : Device) (ctor : Ctor) :
    construct strerror env device ctor =
      (create strerror env >>= fun _ => afterCreate strerror env device ctor) := by
  cases ctor with
  | remoteCq remote => exact bind_assoc (create strerror env) _ _
  | remoteCqs remote => exact bind_assoc (create strerror env) _ _
  | cq => rfl
  | cqs => rfl

variable (strerror) in
theorem keeps_afterCreate (device : Device) (ctor : Ctor) :
    Keeps env h (afterCreate strerror env device ctor)
      (List.replicate ctor.transitions true) := by
  have remote : ∀ remote : RemoteQp, Keeps env h
      (do
        init strerror env device
        constructing env do
          rtr strerror env device remote
          rts strerror env) [true, true, true] :=
    fun remote => (keeps_transition _ _ _).bind
      (Keeps.constructing ((keeps_transition _ _ _).bind keeps_rts))
  cases ctor with
  | remoteCq r => exact remote r
  | remoteCqs r => exact remote r
  | cq => exact keeps_transition _ _ _
  | cqs => exact keeps_transition _ _ _

/-- The destructor of an owned handle: destroyed once, last. -/
theorem Owns.destructor_safe {n : Nat} {o : QpObject} (ho : Owns h n o) :
    HandleSafe (destructor env o).2.calls := by
  have hd : (destructor env o).2.calls =
      o.calls ++ [.modifyQp h errAttr [.state]] ++ [.destroyQp h] :=
    congrArg (fun r => r.2.calls) (destroy_some ho.qp)
  have ho' := ho.modify errAttr [.state]
  rw [hd]
  intro k hk
  have hk' : k = h := by
    rw [List.mem_append, List.mem_singleton] at hk
    exact (ho'.created k).mp (hk.resolve_right (fun hc => VerbsCall.noConfusion hc))
  subst hk'
  refine ⟨?_, ?_⟩
  · rw [List.count_append, List.count_eq_zero_of_not_mem ho'.notDestroyed,
      List.count_singleton_self]
  · intro before after heq
    have hnil : after = [] := by
      rcases List.append_eq_append_iff.mp heq with ⟨l, -, hl⟩ | ⟨l, hl, hal⟩
      · cases l with
        | nil => exact (List.cons.inj hl).2.symm
        | cons c l =>
          exact absurd (List.cons.inj hl).2.symm
            (List.append_ne_nil_of_right_ne_nil l (List.cons_ne_nil _ _))
      · cases l with
        | nil => exact (List.cons.inj hal).2
        | cons c l =>
          -- the destruction would stand among the earlier calls
          refine absurd ?_ ho'.notDestroyed
          rw [hl, ← (List.cons.inj hal).1]
          exact List.mem_append_right _ List.mem_cons_self
    rw [hnil]
    intro c hc
    cases hc

/-- When no handle was made there is none to destroy. -/
theorem handleSafe_of_created_none (hk : env.created = none) (ctor : Ctor)
    (calls : List PublicCall) : HandleSafe (callsOf strerror env device ctor calls) := by
  obtain ⟨e, he⟩ := create_none strerror hk
  have hc : callsOf strerror env device ctor calls = [.createQp none] := by
    unfold callsOf lifetime
    rw [construct_eq, bind_error (bind_error he _)]
  rw [hc]
  intro h hm
  cases List.mem_singleton.mp hm

/-- **When the handle is destroyed.** Over every life of the object, each handle
    `ibv_create_qp` returned is destroyed exactly once and not used afterwards if and only if
    there is none or no `init`, `rtr` or `rts` fails. -/
theorem handleSafe_iff (strerror : Int → String) (env : VerbsEnv) (device : Device) (ctor : Ctor)
    (calls : List PublicCall) :
    HandleSafe (callsOf strerror env device ctor calls) ↔
      env.created = none ∨ TransitionsSucceed env ctor calls := by
  cases hk : env.created with
  | none => exact iff_of_true (handleSafe_of_created_none hk ctor calls) (Or.inl rfl)
  | some h =>
    have hsucc : TransitionsSucceed env ctor calls ↔
        Granted env 1 (List.replicate ctor.transitions true) ∧
          Granted env (1 + ctor.transitions) (calls.map PublicCall.isTransition) := by
      unfold TransitionsSucceed plan
      rw [granted_cons, granted_append, List.length_replicate]
      exact and_iff_right (fun hc => Bool.noConfusion hc)
    rw [hsucc]
    have hc := create_some strerror hk
    unfold callsOf lifetime
    rw [construct_eq]
    rcases keeps_afterCreate strerror device ctor 1 _ (owns_created env.nextSqPsn) with
      ⟨hg₁, o₂, ha, ho₂⟩ | ⟨hg₁, e, o₂, ha, hl⟩
    · rw [List.length_replicate] at ho₂
      rw [← bind_ok hc (fun _ => afterCreate strerror env device ctor)] at ha
      rw [bind_ok ha]
      rcases ho₂.publicCalls strerror device calls with
        ⟨hg₂, n, o₃, hp, ho₃⟩ | ⟨hg₂, r, o₃, hp, hl⟩
      · rw [bind_ok hp]
        exact iff_of_true ho₃.destructor_safe (Or.inr ⟨hg₁, hg₂⟩)
      · refine iff_of_false ?_ (fun hc => ?_)
        · -- the destructor finds no handle
          have hlast : ((publicCalls strerror env device calls >>= fun _ =>
              destructor env) o₂).2 = o₃ := by
            cases r with
            | ok u => rw [bind_ok hp]; exact congrArg Prod.snd (destroy_null hl.qp)
            | error x => rw [bind_error hp]
          rw [hlast]
          exact hl.not_safe
        · rcases hc with hc | hc
          · cases hc
          · exact hg₂ hc.2
    · rw [← bind_ok hc (fun _ => afterCreate strerror env device ctor)] at ha
      rw [bind_error ha]
      refine iff_of_false hl.not_safe (fun hc => ?_)
      rcases hc with hc | hc
      · cases hc
      · exact hg₁ hc.1

/-- `init` refused on a fresh handle: the constructor throws, and nothing destroys the handle. -/
theorem refused_init_leaks : ¬ HandleSafe
    (callsOf (fun _ => "Invalid argument") ⟨some 7, 0, fun _ => 22, 0⟩
      ⟨1, ⟨List.replicate 16 0, rfl⟩, 1, 0⟩ .cq []) := by
  intro hs
  have hc := (hs 7 (by decide)).1
  exact absurd hc (by decide)

end Life

end Rdmapp
