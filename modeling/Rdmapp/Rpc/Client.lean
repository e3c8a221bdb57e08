/-
  File:      Rdmapp/Rpc/Client.lean
  Subject:   THE RPC CLIENT: `RpcClient` of `coro_rpc.hpp`, step by step.

  Any number of `call()`s and the `max_inflight_` receive workers, each at its place in its
  function; a step is one statement of one of them, in any order. What the queue pair does (posts
  that fail, completions, the bytes received) is the action's own and arbitrary here.

  The slots, the queue of the free ones and the buffer pools are shared. A received packet names a
  slot by the low half of its id; the worker compares the id, copies into the caller's buffer,
  waits until the slot has a waiter and resumes it.
-/
import Rdmapp.Lib.ByteOrder
import Rdmapp.Lib.Memory
import Rdmapp.Lib.Transition

namespace Rdmapp
namespace Rpc

open Lib

/-! ## 1. Packets -/

def kSendMsgSize : Nat := 256
def kRecvMsgSize : Nat := 4096

/-- `sizeof(RpcHeader)`. -/
def headerSize : Nat := 16

def kSendBufferSize : Nat := kSendMsgSize + headerSize
def kRecvBufferSize : Nat := kRecvMsgSize + headerSize

/-- `RpcHeader`; its `padding` is never written nor read. -/
structure RpcHeader where
  reqId : UInt64
  payloadLen : UInt32
  deriving DecidableEq, Repr

/-- `reinterpret_cast<RpcHeader *>`, read: numbers in the host's own order. -/
def RpcHeader.load (o : ByteOrder) (pool : Mem) (a : Nat) : RpcHeader where
  reqId := UInt64.ofNat (memVal o (pool.read a 8))
  payloadLen := UInt32.ofNat (memVal o (pool.read (a + 8) 4))

/-- The header's fields, written. -/
def RpcHeader.store (o : ByteOrder) (header : RpcHeader) (pool : Mem) (a : Nat) : Mem :=
  (pool.write a (memBytes o 8 header.reqId.toNat)).write (a + 8)
    (memBytes o 4 header.payloadLen.toNat)

/-- `(seq << 32) | slot_idx`. -/
def encodeReqId (seq : UInt64) (slotIdx : Nat) : UInt64 := (seq <<< 32) ||| UInt64.ofNat slotIdx

/-- `recv_id & 0xFFFFFFFF`. -/
def slotOf (recvId : UInt64) : Nat := (recvId &&& 0xFFFFFFFF).toUInt32.toNat

/-! ## 2. The client's state -/

/-- `RpcSlot`. A waiter is a call's coroutine, a buffer the one a call was given. -/
structure RpcSlot where
  waiter : Option Nat
  userRespBuffer : Option Nat
  actualLen : Nat
  expectedReqId : UInt64
  deriving DecidableEq, Repr

/-- The next statement of a `call()`. -/
inductive CallPc where
  | idle
  /-- `try_dequeue`, in its loop. -/
  | dequeue
  | fetchAdd
  | storeWaiter
  | storeBuffer
  | storeId
  /-- The header and the `memcpy`. -/
  | fill
  /-- The post of the send. -/
  | post
  /-- Suspended on the send. -/
  | sending
  /-- `RpcResponseAwaitable::await_suspend`. -/
  | suspend
  /-- Suspended on the response. -/
  | waiting
  /-- `await_resume`. -/
  | resume
  | enqueue
  | returned
  deriving DecidableEq, Repr

/-- A `call()`: its arguments, its place and its locals. -/
structure Call where
  reqData : List UInt8
  respBuffer : List UInt8
  pc : CallPc
  slotIdx : Nat
  seq : UInt64
  reqId : UInt64
  nbytes : Nat
  /-- How often a worker resumed the coroutine. -/
  resumed : Nat
  deriving DecidableEq, Repr

/-- The next statement of a `recv_worker`. -/
inductive WorkerPc where
  | post
  /-- Suspended on the receive. -/
  | receiving
  /-- A packet is there, to be checked. -/
  | received
  /-- The id is the slot's: the copy. -/
  | matched (slotIdx : Nat)
  /-- `slot.waiter.load()`, in its loop, and the resumption. -/
  | waking (slotIdx : Nat)
  | exited
  deriving DecidableEq, Repr

structure Worker where
  pc : WorkerPc
  nbytes : Nat
  deriving DecidableEq, Repr

/-- What ends the client: `std::terminate`, or a resumption of a coroutine that does not wait. -/
inductive Fault where
  | terminate
  | staleResume
  deriving DecidableEq, Repr

structure Client where
  slots : Nat → RpcSlot
  freeSlots : List Nat
  globalSeq : UInt64
  calls : Nat → Call
  workers : Nat → Worker
  sendBufferPool : Mem
  recvBufferPool : Mem
  fault : Option Fault

def RpcSlot.blank : RpcSlot := ⟨none, none, 0, 0⟩

def Call.blank : Call := ⟨[], [], .idle, 0, 0, 0, 0, 0⟩

/-- The client as its constructor leaves it, with `m` slots. -/
def Client.start (m : Nat) : Client where
  slots _ := RpcSlot.blank
  freeSlots := List.range m
  globalSeq := 0
  calls _ := Call.blank
  workers w := ⟨if w < m then .post else .exited, 0⟩
  sendBufferPool _ := 0
  recvBufferPool _ := 0
  fault := none

def Client.setCall (s : Client) (c : Nat) (x : Call) : Client :=
  { s with calls := Function.update s.calls c x }

def Client.setSlot (s : Client) (i : Nat) (y : RpcSlot) : Client :=
  { s with slots := Function.update s.slots i y }

def Client.setWorker (s : Client) (w : Nat) (z : Worker) : Client :=
  { s with workers := Function.update s.workers w z }

@[simp] theorem setCall_self (s : Client) (c : Nat) (x : Call) : (s.setCall c x).calls c = x := by
  show Function.update s.calls c x c = x
  rw [Function.update_self]

theorem setCall_of_ne (s : Client) {c d : Nat} (h : d ≠ c) (x : Call) :
    (s.setCall c x).calls d = s.calls d := by
  show Function.update s.calls c x d = s.calls d
  rw [Function.update_of_ne h]

@[simp] theorem setWorker_self (s : Client) (w : Nat) (z : Worker) :
    (s.setWorker w z).workers w = z := by
  show Function.update s.workers w z w = z
  rw [Function.update_self]

theorem setWorker_of_ne (s : Client) {v w : Nat} (h : v ≠ w) (z : Worker) :
    (s.setWorker w z).workers v = s.workers v := by
  show Function.update s.workers w z v = s.workers v
  rw [Function.update_of_ne h]

/-! ## 3. Steps -/

/-- The statements. A post and a completion carry their result; `try_dequeue` the index it gives,
    since the queue keeps no order between producers. -/
inductive Action where
  | call (c : Nat) (reqData respBuffer : List UInt8)
  | dequeue (c slotIdx : Nat)
  | fetchAdd (c : Nat)
  | storeWaiter (c : Nat)
  | storeBuffer (c : Nat)
  | storeId (c : Nat)
  | fill (c : Nat)
  | post (c : Nat) (ok : Bool)
  | sendDone (c : Nat) (ok : Bool)
  | suspend (c : Nat)
  | resume (c : Nat)
  | enqueue (c : Nat)
  | postRecv (w : Nat) (ok : Bool)
  | recvDone (w : Nat) (packet : Option (List UInt8))
  | check (w : Nat)
  | copy (w slotIdx : Nat)
  | wake (w slotIdx h : Nat)
  deriving DecidableEq, Repr

/-- The statement is the next one of its coroutine, and can be made. -/
def Enabled (s : Client) : Action → Prop
  | .call c _ _ => (s.calls c).pc = .idle
  | .dequeue c i => (s.calls c).pc = .dequeue ∧ i ∈ s.freeSlots
  | .fetchAdd c => (s.calls c).pc = .fetchAdd
  | .storeWaiter c => (s.calls c).pc = .storeWaiter
  | .storeBuffer c => (s.calls c).pc = .storeBuffer
  | .storeId c => (s.calls c).pc = .storeId
  | .fill c => (s.calls c).pc = .fill
  | .post c _ => (s.calls c).pc = .post
  | .sendDone c _ => (s.calls c).pc = .sending
  | .suspend c => (s.calls c).pc = .suspend
  | .resume c => (s.calls c).pc = .resume
  | .enqueue c => (s.calls c).pc = .enqueue
  | .postRecv w _ => (s.workers w).pc = .post
  | .recvDone w packet => (s.workers w).pc = .receiving ∧
      ∀ bytes ∈ packet, bytes.length ≤ kRecvBufferSize
  | .check w => (s.workers w).pc = .received
  | .copy w i => (s.workers w).pc = .matched i
  | .wake w i h => (s.workers w).pc = .waking i ∧ (s.slots i).waiter = some h

instance (s : Client) (a : Action) : Decidable (Enabled s a) :=
  match a with
  | .call .. | .fetchAdd .. | .storeWaiter .. | .storeBuffer .. | .storeId .. | .fill ..
  | .post .. | .sendDone .. | .suspend .. | .resume .. | .enqueue .. =>
    inferInstanceAs (Decidable (_ = _))
  | .postRecv .. | .check .. | .copy .. => inferInstanceAs (Decidable (_ = _))
  | .dequeue .. | .recvDone .. | .wake .. => inferInstanceAs (Decidable (_ ∧ _))

/-- The first bytes of a buffer, replaced. -/
def overwrite (buffer bytes : List UInt8) : List UInt8 := bytes ++ buffer.drop bytes.length

section Step

variable (o : ByteOrder) (m : Nat)

/-- The header of the packet worker `w` received. -/
def Client.header (s : Client) (w : Nat) : RpcHeader :=
  .load o s.recvBufferPool (w * kRecvBufferSize)

/-- `recv_id`. -/
def Client.recvId (s : Client) (w : Nat) : UInt64 := (s.header o w).reqId

/-- `slot.user_resp_buffer.size()`. -/
def Client.respSize (s : Client) (i : Nat) : Nat :=
  match (s.slots i).userRespBuffer with
  | none => 0
  | some c => (s.calls c).respBuffer.length

/-- `copy_len`, of the packet of worker `w` for slot `i`. -/
def Client.copyLen (s : Client) (w i : Nat) : Nat :=
  min (s.header o w).payloadLen.toNat (s.respSize i)

/-- The `memcpy` into the caller's buffer. -/
def Client.copied (s : Client) (w i : Nat) : Client :=
  match (s.slots i).userRespBuffer with
  | none => s
  | some c => s.setCall c { s.calls c with
      respBuffer := overwrite (s.calls c).respBuffer
        (s.recvBufferPool.read (w * kRecvBufferSize + headerSize) (s.copyLen o w i)) }

/-- What follows the receive, up to the comparison of the ids: where the worker goes, or the end
    of the process. -/
def Client.verdict (s : Client) (w : Nat) : Except Fault WorkerPc :=
  if (s.workers w).nbytes < headerSize then .ok .post
  else if m ≤ slotOf (s.recvId o w) then .ok .post
  else if (s.slots (slotOf (s.recvId o w))).expectedReqId ≠ s.recvId o w then .error .terminate
  else .ok (.matched (slotOf (s.recvId o w)))

def Client.checked (s : Client) (w : Nat) : Client :=
  match s.verdict o m w with
  | .ok pc => s.setWorker w { s.workers w with pc := pc }
  | .error fault => { s with fault := some fault }

/-- `h.resume()`. -/
def Client.resumed (s : Client) (h : Nat) : Client :=
  if (s.calls h).pc = .waiting then
    s.setCall h { s.calls h with pc := .resume, resumed := (s.calls h).resumed + 1 }
  else
    { s.setCall h { s.calls h with resumed := (s.calls h).resumed + 1 } with
      fault := some .staleResume }

/-- What the statement does. -/
def next (s : Client) : Action → Client
  | .call c reqData respBuffer =>
    s.setCall c { Call.blank with reqData := reqData, respBuffer := respBuffer, pc := .dequeue }
  | .dequeue c i =>
    { s.setCall c { s.calls c with pc := .fetchAdd, slotIdx := i } with
      freeSlots := s.freeSlots.erase i }
  | .fetchAdd c =>
    { s.setCall c { s.calls c with
        pc := .storeWaiter
        seq := s.globalSeq
        reqId := encodeReqId s.globalSeq (s.calls c).slotIdx } with
      globalSeq := s.globalSeq + 1 }
  | .storeWaiter c =>
    let i := (s.calls c).slotIdx
    (s.setSlot i { s.slots i with waiter := none }).setCall c
      { s.calls c with pc := .storeBuffer }
  | .storeBuffer c =>
    let i := (s.calls c).slotIdx
    (s.setSlot i { s.slots i with userRespBuffer := some c }).setCall c
      { s.calls c with pc := .storeId }
  | .storeId c =>
    let i := (s.calls c).slotIdx
    (s.setSlot i { s.slots i with expectedReqId := (s.calls c).reqId }).setCall c
      { s.calls c with pc := .fill }
  | .fill c =>
    let sendOffset := (s.calls c).slotIdx * kSendBufferSize
    let header : RpcHeader := ⟨(s.calls c).reqId, UInt32.ofNat (s.calls c).reqData.length⟩
    { s.setCall c { s.calls c with pc := .post } with
      sendBufferPool :=
        (header.store o s.sendBufferPool sendOffset).write (sendOffset + headerSize)
          (s.calls c).reqData }
  | .post c ok =>
    s.setCall c { s.calls c with pc := if ok then .sending else .enqueue }
  | .sendDone c ok =>
    s.setCall c { s.calls c with pc := if ok then .suspend else .enqueue }
  | .suspend c =>
    let i := (s.calls c).slotIdx
    (s.setSlot i { s.slots i with waiter := some c }).setCall c { s.calls c with pc := .waiting }
  | .resume c =>
    s.setCall c { s.calls c with
      pc := .enqueue
      nbytes := (s.slots (s.calls c).slotIdx).actualLen }
  | .enqueue c =>
    { s.setCall c { s.calls c with pc := .returned } with
      freeSlots := s.freeSlots ++ [(s.calls c).slotIdx] }
  | .postRecv w ok =>
    s.setWorker w { s.workers w with pc := if ok then .receiving else .exited }
  | .recvDone w none =>
    s.setWorker w { s.workers w with pc := .exited }
  | .recvDone w (some bytes) =>
    { s.setWorker w ⟨.received, bytes.length⟩ with
      recvBufferPool := s.recvBufferPool.write (w * kRecvBufferSize) bytes }
  | .check w => s.checked o m w
  | .copy w i =>
    ((s.copied o w i).setSlot i { s.slots i with actualLen := s.copyLen o w i }).setWorker w
      { s.workers w with pc := .waking i }
  | .wake w _ h => (s.resumed h).setWorker w { s.workers w with pc := .post }

/-- The client against any queue pair and any peer. -/
def machine : Machine Client Action :=
  .guarded (fun s a => s.fault = none ∧ Enabled s a) (next o m)

end Step

end Rpc
end Rdmapp
