/-
  File:      Rdmapp/Awaitable.lean
  Subject:   THE AWAITABLES of `qp.h`: `operation_state`, `send_awaitable`, `recv_awaitable`, and
             the operations of `basic_qp` that construct them.

  `suspend` builds the work request and posts it, `setFromWc` stores a completion entry,
  `resume` reads the result out of the stored entry. The assertions of the source are compiled
  out of a release build and are not modelled. An already registered buffer is a `LocalMr`; the
  registration itself is not part of an awaitable's life.
-/
import Rdmapp.Mr

namespace Rdmapp

/-! ## 1. `operation_state` -/

/-- `basic_qp::operation_state`; a recv has no opcode. -/
structure OperationState where
  wrOpcode : Option IbvWrOpcode
  coroHandle : Option Nat := none
  wcStatus : IbvWcStatus := .success
  wcFlags : UInt32 := 0
  immData : UInt32 := 0
  byteLen : UInt32 := 0
  deriving DecidableEq, Repr

/-- `operation_state::set_from_wc`. -/
def OperationState.setFromWc (s : OperationState) (wc : IbvWc) : OperationState :=
  let s := { s with wcStatus := wc.status, wcFlags := wc.wcFlags }
  match s.wrOpcode with
  | none => { s with byteLen := wc.byteLen, immData := wc.immData }
  | some .rdmaWriteWithImm => s
  | some .rdmaWrite => s
  | some .send => s
  | some _ => { s with byteLen := wc.byteLen }

/-- It takes the entry's status and keeps opcode and handle. -/
theorem OperationState.setFromWc_frame (s : OperationState) (wc : IbvWc) :
    (s.setFromWc wc).wrOpcode = s.wrOpcode ∧ (s.setFromWc wc).wcStatus = wc.status ∧
      (s.setFromWc wc).coroHandle = s.coroHandle := by
  cases s with
  | mk o h st f i b => cases o with
    | none => exact ⟨rfl, rfl, rfl⟩
    | some o => cases o <;> exact ⟨rfl, rfl, rfl⟩

@[simp] theorem OperationState.setFromWc_wrOpcode (s : OperationState) (wc : IbvWc) :
    (s.setFromWc wc).wrOpcode = s.wrOpcode := (s.setFromWc_frame wc).1

@[simp] theorem OperationState.setFromWc_wcStatus (s : OperationState) (wc : IbvWc) :
    (s.setFromWc wc).wcStatus = wc.status := (s.setFromWc_frame wc).2.1

/-- A recv takes length and immediate data from the entry. -/
theorem OperationState.setFromWc_of_recv (s : OperationState) (wc : IbvWc) (h : s.wrOpcode = none) :
    s.setFromWc wc = { s with wcStatus := wc.status, wcFlags := wc.wcFlags
                              byteLen := wc.byteLen, immData := wc.immData } := by
  cases s with
  | mk o =>
    cases o with
    | none => rfl
    | some o => cases h

/-! ## 2. The awaitables -/

/-- The union of `compare_add_`/`swap_` and `imm_`, by the member the constructor set. -/
inductive SendOperands where
  | none
  | imm (imm : UInt32)
  | add (compareAdd : UInt64)
  | compareSwap (compareAdd swap : UInt64)
  deriving DecidableEq, Repr

/-- Reading `imm_`. A member that was not set has no defined value; it reads as zero here, and
    no operation of `basic_qp` reads one. -/
def SendOperands.immValue : SendOperands → UInt32
  | .imm v => v
  | _ => 0

def SendOperands.compareAdd : SendOperands → UInt64
  | .add a => a
  | .compareSwap a _ => a
  | _ => 0

def SendOperands.swap : SendOperands → UInt64
  | .compareSwap _ b => b
  | _ => 0

/-- `basic_qp::send_awaitable`. `localMr` is the temporary region of the span overloads. -/
structure SendAwaitable where
  localMr : Option LocalMr
  localMrView : MrView
  remoteMrView : MrView
  exception : Option Exc
  operands : SendOperands
  state : OperationState
  /-- Every constructor sets the opcode. -/
  hasOpcode : state.wrOpcode.isSome
  deriving DecidableEq, Repr

/-- `basic_qp::recv_awaitable`. -/
structure RecvAwaitable where
  localMr : Option LocalMr
  localMrView : MrView
  exception : Option Exc
  state : OperationState
  /-- No constructor sets the opcode. -/
  noOpcode : state.wrOpcode = none
  deriving DecidableEq, Repr

/-- The value of `co_await`: `send_result` or `recv_result`. -/
inductive OpResult where
  | send (byteLen : UInt32)
  | recv (byteLen : UInt32) (imm : Option UInt32)
  deriving DecidableEq, Repr

/-! ## 3. Posting -/

/-- `basic_qp::post_recv_fn`: the own receive queue or the shared one. -/
inductive PostRecvFn where
  | postRecvRq
  | postRecvSrq
  deriving DecidableEq, Repr

/-- What a post meets. -/
structure PostEnv where
  /-- `qp_.lock()`: the QP's `post_recv_fn`, or nothing when the QP has expired. -/
  qp : Option PostRecvFn
  /-- What `ibv_post_send`, `ibv_post_recv` or `ibv_post_srq_recv` returns. -/
  rc : Int
  deriving DecidableEq, Repr

/-- The post is accepted. -/
def PostEnv.accepts (env : PostEnv) : Bool := env.qp.isSome && env.rc == 0

/-- What `suspend` leaves: its return value, the awaitable, and the request now outstanding. -/
structure Suspended (α ω : Type) where
  ret : Bool
  self : α
  posted : Option ω

/-- `fill_local_sge`: the length is narrowed to 32 bits. -/
def fillLocalSge (mr : MrView) : IbvSge := ⟨mr.addr, mr.length.toUInt32, mr.lkey⟩

section Suspend

variable (strerror : Int → String)

/-- `basic_qp::post_send`, with the result of `ibv_post_send`. -/
def postSend (rc : Int) : Except Exc Unit := checkRc strerror rc "failed to post send"

/-- `basic_qp::post_recv`: through `post_recv_fn`. -/
def postRecv (fn : PostRecvFn) (rc : Int) : Except Exc Unit :=
  match fn with
  | .postRecvRq => checkRc strerror rc "failed to post recv"
  | .postRecvSrq => checkRc strerror rc "failed to post srq recv"

namespace SendAwaitable

/-- `is_rdma`. -/
def isRdma (a : SendAwaitable) : Bool :=
  a.state.wrOpcode == some .rdmaRead || a.state.wrOpcode == some .rdmaWrite ||
    a.state.wrOpcode == some .rdmaWriteWithImm

/-- `is_atomic`. -/
def isAtomic (a : SendAwaitable) : Bool :=
  a.state.wrOpcode == some .atomicCmpAndSwp || a.state.wrOpcode == some .atomicFetchAndAdd

/-- The work request `suspend` fills. -/
def sendWr (a : SendAwaitable) (wrId : UInt64) : IbvSendWr :=
  let wr : IbvSendWr :=
    { opcode := a.state.wrOpcode.get a.hasOpcode
      numSge := 1
      wrId := wrId
      signaled := true
      sgList := some (fillLocalSge a.localMrView)
      wr := .none
      immData := 0 }
  if a.isRdma then
    let wr := { wr with wr := .rdma a.remoteMrView.addr a.remoteMrView.rkey }
    if a.state.wrOpcode = some .rdmaWriteWithImm then
      { wr with immData := a.operands.immValue }
    else wr
  else if a.isAtomic then
    let swap := if a.state.wrOpcode = some .atomicCmpAndSwp then a.operands.swap else 0
    { wr with wr := .atomic a.remoteMrView.addr a.remoteMrView.rkey a.operands.compareAdd swap }
  else wr

/-- For the RDMA group `suspend` stores the length it will report. -/
def presetByteLen (a : SendAwaitable) : SendAwaitable :=
  if a.isRdma then
    { a with state := { a.state with byteLen := a.localMrView.length.toUInt32 } }
  else a

/-- `send_awaitable::suspend`. -/
def suspend (env : PostEnv) (wrId : UInt64) (a : SendAwaitable) :
    Suspended SendAwaitable IbvSendWr :=
  let sendWr := a.sendWr wrId
  let a := a.presetByteLen
  match env.qp with
  | none =>
    ⟨false, { a with exception := some (.runtimeError "post_send: qp expired, use_count=0") }, none⟩
  | some _ =>
    match postSend strerror env.rc with
    | .error e => ⟨false, { a with exception := some e }, none⟩
    | .ok () => ⟨true, a, some sendWr⟩

/-- `send_awaitable::resume`. -/
def resume (a : SendAwaitable) : Except Exc UInt32 := do
  checkWcStatus a.state.wcStatus "failed to send"
  return a.state.byteLen

end SendAwaitable

namespace RecvAwaitable

/-- The work request `suspend` fills: no scatter/gather entry for a view without buffer. -/
def recvWr (a : RecvAwaitable) (wrId : UInt64) : IbvRecvWr :=
  if a.localMrView.toBool then ⟨wrId, 1, some (fillLocalSge a.localMrView)⟩
  else ⟨wrId, 0, none⟩

/-- `recv_awaitable::suspend`. -/
def suspend (env : PostEnv) (wrId : UInt64) (a : RecvAwaitable) :
    Suspended RecvAwaitable IbvRecvWr :=
  let recvWr := a.recvWr wrId
  match env.qp with
  | none =>
    ⟨false, { a with exception := some (.runtimeError "post_recv: qp expired, use_count=0") }, none⟩
  | some fn =>
    match postRecv strerror fn env.rc with
    | .error e => ⟨false, { a with exception := some e }, none⟩
    | .ok () => ⟨true, a, some recvWr⟩

/-- `recv_awaitable::resume`. -/
def resume (a : RecvAwaitable) : Except Exc (UInt32 × Option UInt32) := do
  checkWcStatus a.state.wcStatus "failed to recv"
  if a.state.wcFlags &&& ibvWcWithImm ≠ 0 then
    return (a.state.byteLen, some a.state.immData)
  return (a.state.byteLen, none)

end RecvAwaitable

/-! ## 4. Both kinds at once -/

/-- A send-side operation or a recv. -/
inductive Awaitable where
  | send (a : SendAwaitable)
  | recv (a : RecvAwaitable)
  deriving DecidableEq, Repr

/-- A posted work request of either queue. -/
inductive WorkRequest where
  | send (wr : IbvSendWr)
  | recv (wr : IbvRecvWr)
  deriving DecidableEq, Repr

namespace Awaitable

/-- `suspend`. -/
def suspend (env : PostEnv) (wrId : UInt64) : Awaitable → Suspended Awaitable WorkRequest
  | .send a => let r := a.suspend strerror env wrId
    ⟨r.ret, .send r.self, r.posted.map .send⟩
  | .recv a => let r := a.suspend strerror env wrId
    ⟨r.ret, .recv r.self, r.posted.map .recv⟩

/-- `state_.set_from_wc`. -/
def setFromWc (wc : IbvWc) : Awaitable → Awaitable
  | .send a => .send
      { a with state := a.state.setFromWc wc
               hasOpcode := by rw [OperationState.setFromWc_wrOpcode]; exact a.hasOpcode }
  | .recv a => .recv
      { a with state := a.state.setFromWc wc
               noOpcode := by rw [OperationState.setFromWc_wrOpcode]; exact a.noOpcode }

/-- `resume`. -/
def resume : Awaitable → Except Exc OpResult
  | .send a => OpResult.send <$> a.resume
  | .recv a => (fun r => OpResult.recv r.1 r.2) <$> a.resume

/-- `unhandled_exception`. -/
def unhandledException : Awaitable → Option Exc
  | .send a => a.exception
  | .recv a => a.exception

/-- Storing the coroutine's handle. -/
def setCoroHandle (h : Nat) : Awaitable → Awaitable
  | .send a => .send { a with state := { a.state with coroHandle := some h } }
  | .recv a => .recv { a with state := { a.state with coroHandle := some h } }

/-- `await_suspend`: the handle is stored, then the request is posted. -/
def awaitSuspend (env : PostEnv) (h : Nat) (wrId : UInt64) (a : Awaitable) :
    Suspended Awaitable WorkRequest :=
  (a.setCoroHandle h).suspend strerror env wrId

/-- `await_resume`: a stored exception first, then the completion entry. -/
def awaitResume (a : Awaitable) : Except Exc OpResult :=
  match a.unhandledException with
  | some e => .error e
  | none => a.resume

def isRecv : Awaitable → Bool
  | .send _ => false
  | .recv _ => true

end Awaitable

end Suspend

/-! ## 5. The operations of `basic_qp` -/

/-- The local side of an operation: a span with its temporary region, or a view. -/
inductive LocalBuffer where
  | span (registered : LocalMr)
  | view (v : MrView)
  deriving DecidableEq, Repr

def LocalBuffer.localMr : LocalBuffer → Option LocalMr
  | .span m => some m
  | .view _ => none

/-- `local_mr_view_`: a view of the whole temporary region, or the view given. -/
def LocalBuffer.localMrView : LocalBuffer → MrView
  | .span m => MrView.ofLocal m 0 (-1)
  | .view v => v

/-- The operations that `co_await` can be applied to. -/
inductive QpOperation where
  | send
  | write (remoteMr : MrView)
  | writeWithImm (remoteMr : MrView) (imm : UInt32)
  | read (remoteMr : MrView)
  | fetchAndAdd (remoteMr : MrView) (add : UInt64)
  | compareAndSwap (remoteMr : MrView) (compare swap : UInt64)
  | recv
  deriving DecidableEq, Repr

/-- The constructors of `send_awaitable`. -/
def sendAwaitable (buf : LocalBuffer) (opcode : IbvWrOpcode) (remoteMr : MrView)
    (operands : SendOperands) : SendAwaitable where
  localMr := buf.localMr
  localMrView := buf.localMrView
  remoteMrView := remoteMr
  exception := none
  operands := operands
  state := { wrOpcode := some opcode }
  hasOpcode := rfl

/-- The constructors of `recv_awaitable`. -/
def recvAwaitable (buf : LocalBuffer) : RecvAwaitable where
  localMr := buf.localMr
  localMrView := buf.localMrView
  exception := none
  state := { wrOpcode := none }
  noOpcode := rfl

/-- `basic_qp::send`, `write`, …: the awaitable an operation constructs. -/
def QpOperation.awaitable (op : QpOperation) (buf : LocalBuffer) : Awaitable :=
  match op with
  | .send => .send (sendAwaitable buf .send MrView.null .none)
  | .write r => .send (sendAwaitable buf .rdmaWrite r .none)
  | .writeWithImm r imm => .send (sendAwaitable buf .rdmaWriteWithImm r (.imm imm))
  | .read r => .send (sendAwaitable buf .rdmaRead r .none)
  | .fetchAndAdd r add => .send (sendAwaitable buf .atomicFetchAndAdd r (.add add))
  | .compareAndSwap r c s => .send (sendAwaitable buf .atomicCmpAndSwp r (.compareSwap c s))
  | .recv => .recv (recvAwaitable buf)

/-! ## 6. What the awaitables' functions do -/

namespace Awaitable

/-- The work request `suspend` posts. -/
def workRequest (wrId : UInt64) : Awaitable → WorkRequest
  | .send a => .send (a.sendWr wrId)
  | .recv a => .recv (a.recvWr wrId)

/-- What `suspend` stores before it posts. -/
def presetByteLen : Awaitable → Awaitable
  | .send a => .send a.presetByteLen
  | .recv a => .recv a

/-- Storing an exception. -/
def setException (e : Exc) : Awaitable → Awaitable
  | .send a => .send { a with exception := some e }
  | .recv a => .recv { a with exception := some e }

end Awaitable

section Lemmas

variable {strerror : Int → String}

theorem PostEnv.accepts_iff (env : PostEnv) :
    env.accepts = true ↔ (∃ fn, env.qp = some fn) ∧ env.rc = 0 := by
  unfold PostEnv.accepts
  rw [Bool.and_eq_true, beq_iff_eq, Option.isSome_iff_exists]

theorem PostEnv.refuses_iff (env : PostEnv) :
    env.accepts = false ↔ env.qp = none ∨ env.rc ≠ 0 := by
  unfold PostEnv.accepts
  cases env.qp with
  | none => simp
  | some fn => simp

theorem postRecv_zero (fn : PostRecvFn) : postRecv strerror fn 0 = .ok () := by
  cases fn <;> rfl

theorem postRecv_of_ne (strerror : Int → String) {rc : Int} (h : rc ≠ 0) (fn : PostRecvFn) :
    ∃ text, postRecv strerror fn rc = .error (.runtimeError text) := by
  cases fn with
  | postRecvRq => exact checkRc_of_ne strerror h _
  | postRecvSrq => exact checkRc_of_ne strerror h _

namespace Awaitable

/-- **A live QP and an accepted post**: `suspend` returns true with the request posted. -/
theorem suspend_of_accepts {env : PostEnv} (h : env.accepts = true) (wrId : UInt64)
    (a : Awaitable) :
    a.suspend strerror env wrId = ⟨true, a.presetByteLen, some (a.workRequest wrId)⟩ := by
  obtain ⟨⟨fn, hfn⟩, hrc⟩ := env.accepts_iff.mp h
  cases a with
  | send a =>
    have hp : postSend strerror env.rc = .ok () := by rw [hrc]; rfl
    show (⟨(a.suspend strerror env wrId).ret, _, _⟩ : Suspended Awaitable WorkRequest) = _
    unfold SendAwaitable.suspend
    simp only [hfn, hp]
    rfl
  | recv a =>
    have hp : postRecv strerror fn env.rc = .ok () := by rw [hrc]; exact postRecv_zero fn
    show (⟨(a.suspend strerror env wrId).ret, _, _⟩ : Suspended Awaitable WorkRequest) = _
    unfold RecvAwaitable.suspend
    simp only [hfn, hp]
    rfl

/-- **An expired QP or a rejected post**: `suspend` returns false, an exception is stored and
    nothing is posted. -/
theorem suspend_of_refuses (strerror : Int → String) {env : PostEnv} (h : env.accepts = false)
    (wrId : UInt64) (a : Awaitable) :
    ∃ text, a.suspend strerror env wrId =
      ⟨false, a.presetByteLen.setException (.runtimeError text), none⟩ := by
  cases hq : env.qp with
  | none =>
    cases a with
    | send a =>
      refine ⟨"post_send: qp expired, use_count=0", ?_⟩
      show (⟨(a.suspend strerror env wrId).ret, _, _⟩ : Suspended Awaitable WorkRequest) = _
      unfold SendAwaitable.suspend
      simp only [hq]
      rfl
    | recv a =>
      refine ⟨"post_recv: qp expired, use_count=0", ?_⟩
      show (⟨(a.suspend strerror env wrId).ret, _, _⟩ : Suspended Awaitable WorkRequest) = _
      unfold RecvAwaitable.suspend
      simp only [hq]
      rfl
  | some fn =>
    have hrc : env.rc ≠ 0 := by
      rcases env.refuses_iff.mp h with h' | h'
      · rw [hq] at h'
        cases h'
      · exact h'
    cases a with
    | send a =>
      obtain ⟨text, ht⟩ := checkRc_of_ne strerror hrc "failed to post send"
      have hp : postSend strerror env.rc = .error (.runtimeError text) := ht
      refine ⟨text, ?_⟩
      show (⟨(a.suspend strerror env wrId).ret, _, _⟩ : Suspended Awaitable WorkRequest) = _
      unfold SendAwaitable.suspend
      simp only [hq, hp]
      rfl
    | recv a =>
      obtain ⟨text, hp⟩ := postRecv_of_ne strerror hrc fn
      refine ⟨text, ?_⟩
      show (⟨(a.suspend strerror env wrId).ret, _, _⟩ : Suspended Awaitable WorkRequest) = _
      unfold RecvAwaitable.suspend
      simp only [hq, hp]
      rfl

/-- `suspend` returns true exactly when the post is accepted. -/
theorem suspend_ret (env : PostEnv) (wrId : UInt64) (a : Awaitable) :
    (a.suspend strerror env wrId).ret = env.accepts := by
  cases h : env.accepts with
  | true => rw [suspend_of_accepts h]
  | false =>
    obtain ⟨text, ht⟩ := suspend_of_refuses strerror h wrId a
    rw [ht]

@[simp] theorem unhandledException_presetByteLen (a : Awaitable) :
    a.presetByteLen.unhandledException = a.unhandledException := by
  cases a with
  | send a =>
    show a.presetByteLen.exception = a.exception
    unfold SendAwaitable.presetByteLen
    split <;> rfl
  | recv a => rfl

@[simp] theorem unhandledException_setException (e : Exc) (a : Awaitable) :
    (a.setException e).unhandledException = some e := by
  cases a <;> rfl

@[simp] theorem unhandledException_setFromWc (wc : IbvWc) (a : Awaitable) :
    (a.setFromWc wc).unhandledException = a.unhandledException := by
  cases a <;> rfl

@[simp] theorem unhandledException_setCoroHandle (h : Nat) (a : Awaitable) :
    (a.setCoroHandle h).unhandledException = a.unhandledException := by
  cases a <;> rfl

@[simp] theorem isRecv_presetByteLen (a : Awaitable) : a.presetByteLen.isRecv = a.isRecv := by
  cases a <;> rfl

@[simp] theorem isRecv_setException (e : Exc) (a : Awaitable) :
    (a.setException e).isRecv = a.isRecv := by
  cases a <;> rfl

@[simp] theorem isRecv_setFromWc (wc : IbvWc) (a : Awaitable) :
    (a.setFromWc wc).isRecv = a.isRecv := by
  cases a <;> rfl

/-- An entry's `wr_id` does not reach the result. -/
theorem setFromWc_wrId (wc : IbvWc) (wrId : UInt64) (a : Awaitable) :
    a.setFromWc { wc with wrId := wrId } = a.setFromWc wc := by
  cases a with
  | send a => rfl
  | recv a => rfl

/-- The stored handle. -/
def coroHandle : Awaitable → Option Nat
  | .send a => a.state.coroHandle
  | .recv a => a.state.coroHandle

/-- **A successful completion entry has a result, any other an exception.** -/
theorem resume_setFromWc_of_success {wc : IbvWc} (h : wc.status = .success) (a : Awaitable) :
    ∃ r, (a.setFromWc wc).resume = .ok r := by
  cases a with
  | send a =>
    refine ⟨.send (a.state.setFromWc wc).byteLen, ?_⟩
    show OpResult.send <$> (do
      checkWcStatus (a.state.setFromWc wc).wcStatus "failed to send"
      return (a.state.setFromWc wc).byteLen) = _
    rw [OperationState.setFromWc_wcStatus, h]
    rfl
  | recv a =>
    show ∃ r, ((fun r => OpResult.recv r.1 r.2) <$> (do
      checkWcStatus (a.state.setFromWc wc).wcStatus "failed to recv"
      if (a.state.setFromWc wc).wcFlags &&& ibvWcWithImm ≠ 0 then
        return ((a.state.setFromWc wc).byteLen, some (a.state.setFromWc wc).immData)
      return ((a.state.setFromWc wc).byteLen, none))) = Except.ok r
    rw [OperationState.setFromWc_wcStatus, h]
    by_cases hf : (a.state.setFromWc wc).wcFlags &&& ibvWcWithImm ≠ 0
    · exact ⟨.recv (a.state.setFromWc wc).byteLen (some (a.state.setFromWc wc).immData), by
        rw [if_pos hf]; rfl⟩
    · exact ⟨.recv (a.state.setFromWc wc).byteLen none, by rw [if_neg hf]; rfl⟩

theorem resume_setFromWc_of_error {wc : IbvWc} (h : wc.status ≠ .success) (a : Awaitable) :
    ∃ e, (a.setFromWc wc).resume = .error e := by
  cases a with
  | send a =>
    obtain ⟨text, ht⟩ := checkWcStatus_of_ne h "failed to send"
    refine ⟨.runtimeError text, ?_⟩
    show OpResult.send <$> (do
      checkWcStatus (a.state.setFromWc wc).wcStatus "failed to send"
      return (a.state.setFromWc wc).byteLen) = _
    rw [OperationState.setFromWc_wcStatus, ht]
    rfl
  | recv a =>
    obtain ⟨text, ht⟩ := checkWcStatus_of_ne h "failed to recv"
    refine ⟨.runtimeError text, ?_⟩
    show (fun r => OpResult.recv r.1 r.2) <$> (do
      checkWcStatus (a.state.setFromWc wc).wcStatus "failed to recv"
      if (a.state.setFromWc wc).wcFlags &&& ibvWcWithImm ≠ 0 then
        return ((a.state.setFromWc wc).byteLen, some (a.state.setFromWc wc).immData)
      return ((a.state.setFromWc wc).byteLen, none)) = _
    rw [OperationState.setFromWc_wcStatus, ht]
    rfl

/-- A recv returns the length of its entry, and the immediate data where its flags say so. -/
theorem resume_setFromWc_recv {wc : IbvWc} (h : wc.status = .success) (a : RecvAwaitable) :
    ((Awaitable.recv a).setFromWc wc).resume = .ok (.recv wc.byteLen
      (if wc.wcFlags &&& ibvWcWithImm ≠ 0 then some wc.immData else none)) := by
  have hs := a.state.setFromWc_of_recv wc a.noOpcode
  show (fun r => OpResult.recv r.1 r.2) <$> (do
      checkWcStatus (a.state.setFromWc wc).wcStatus "failed to recv"
      if (a.state.setFromWc wc).wcFlags &&& ibvWcWithImm ≠ 0 then
        return ((a.state.setFromWc wc).byteLen, some (a.state.setFromWc wc).immData)
      return ((a.state.setFromWc wc).byteLen, none)) = _
  rw [hs]
  dsimp only
  rw [h]
  by_cases hf : wc.wcFlags &&& ibvWcWithImm ≠ 0
  · rw [if_pos hf, if_pos hf]
    rfl
  · rw [if_neg hf, if_neg hf]
    rfl

/-- The stored handle changes nothing about the result. -/
theorem resume_setFromWc_setCoroHandle (wc : IbvWc) (h : Nat) (a : Awaitable) :
    (((a.setCoroHandle h).presetByteLen).setFromWc wc).resume =
      (a.presetByteLen.setFromWc wc).resume := by
  cases a with
  | send a =>
    cases a with
    | mk m v r e o st hop =>
      cases st with
      | mk wo ch ws wf im bl =>
        cases wo with
        | none => cases hop
        | some wo => cases wo <;> rfl
  | recv a =>
    cases a with
    | mk m v e st hop =>
      cases st with
      | mk wo ch ws wf im bl =>
        cases wo with
        | none => rfl
        | some wo => cases hop

end Awaitable

/-- An operation is constructed with no exception. -/
theorem QpOperation.unhandledException_awaitable (op : QpOperation) (buf : LocalBuffer) :
    (op.awaitable buf).unhandledException = none := by
  cases op <;> rfl

end Lemmas

end Rdmapp
