/-
  File:      Rdmapp/Rpc/Server.lean
  Subject:   THE RPC SERVER, and client and server on a queue pair that does not fail.

  A `server_worker` receives a request into its buffer, runs the handler on a thread pool, puts the
  request's id into its response and sends it; only then it receives again. The workers run side by
  side and finish in any order. The handler is arbitrary: it may keep a state, write over its
  payload and write more than it returns.

  The queue pair delivers each request to a posted receive of the server and each response to one of
  the client, once; it reads a send buffer at any time between the post and the completion. Their
  order is not used.
-/
import Rdmapp.Rpc.Link
import Rdmapp.Rpc.Messages

namespace Rdmapp
namespace Rpc

open Lib

/-! ## 1. The server -/

/-- The next statement of a `server_worker`. -/
inductive ServerPc where
  | post
  /-- Suspended on the receive. -/
  | receiving
  /-- On its way to the thread pool. -/
  | schedule
  /-- The handler. -/
  | handle
  /-- The header of the response. -/
  | stamp
  /-- The post of the send. -/
  | send
  /-- Suspended on the send. -/
  | sending
  /-- There is no such worker. -/
  | absent
  deriving DecidableEq, Repr

structure ServerWorker where
  pc : ServerPc
  nbytes : Nat
  respPayloadLen : Nat
  deriving DecidableEq, Repr

structure Server where
  workers : Nat → ServerWorker
  recvBufferPool : Mem
  sendBufferPool : Mem

/-- The server as its constructor and `run` leave it, with `k` workers. -/
def Server.start (k : Nat) : Server where
  workers v := ⟨if v < k then .post else .absent, 0, 0⟩
  recvBufferPool _ := 0
  sendBufferPool _ := 0

def Server.setWorker (s : Server) (v : Nat) (z : ServerWorker) : Server :=
  { s with workers := Function.update s.workers v z }

/-- The statements. The handler leaves `payload` in its payload, writes `resp` and returns `n`. -/
inductive ServerAction where
  | postRecv (v : Nat)
  | recvDone (v : Nat) (bytes : List UInt8)
  | schedule (v : Nat)
  | handle (v : Nat) (payload resp : List UInt8) (n : Nat)
  | stamp (v : Nat)
  | send (v : Nat)
  | sendDone (v : Nat)
  deriving DecidableEq, Repr

/-- The handler's payload. -/
def Server.payload (s : Server) (v : Nat) : List UInt8 :=
  s.recvBufferPool.read (v * kSendBufferSize + headerSize) ((s.workers v).nbytes - headerSize)

def ServerEnabled (s : Server) : ServerAction → Prop
  | .postRecv v => (s.workers v).pc = .post
  | .recvDone v _ => (s.workers v).pc = .receiving
  | .schedule v => (s.workers v).pc = .schedule
  | .handle v payload resp n => (s.workers v).pc = .handle ∧
      payload.length = (s.payload v).length ∧ resp.length ≤ kRecvMsgSize ∧ n ≤ resp.length
  | .stamp v => (s.workers v).pc = .stamp
  | .send v => (s.workers v).pc = .send
  | .sendDone v => (s.workers v).pc = .sending

instance (s : Server) (a : ServerAction) : Decidable (ServerEnabled s a) :=
  match a with
  | .postRecv _ | .recvDone .. | .schedule _ | .stamp _ | .send _ | .sendDone _ =>
    inferInstanceAs (Decidable (_ = _))
  | .handle .. => inferInstanceAs (Decidable (_ ∧ _ ∧ _ ∧ _))

/-- What the statement does. -/
def serverNext (o : ByteOrder) (s : Server) : ServerAction → Server
  | .postRecv v => s.setWorker v { s.workers v with pc := .receiving }
  | .recvDone v bytes =>
    { s.setWorker v { s.workers v with
        pc := if bytes.length < headerSize then .post else .schedule
        nbytes := bytes.length } with
      recvBufferPool := s.recvBufferPool.write (v * kSendBufferSize) bytes }
  | .schedule v => s.setWorker v { s.workers v with pc := .handle }
  | .handle v payload resp n =>
    { s.setWorker v { s.workers v with pc := .stamp, respPayloadLen := n } with
      recvBufferPool := s.recvBufferPool.write (v * kSendBufferSize + headerSize) payload
      sendBufferPool := s.sendBufferPool.write (v * kRecvBufferSize + headerSize) resp }
  | .stamp v =>
    let header : RpcHeader := ⟨(RpcHeader.load o s.recvBufferPool (v * kSendBufferSize)).reqId,
      UInt32.ofNat (s.workers v).respPayloadLen⟩
    { s.setWorker v { s.workers v with pc := .send } with
      sendBufferPool := header.store o s.sendBufferPool (v * kRecvBufferSize) }
  | .send v => s.setWorker v { s.workers v with pc := .sending }
  | .sendDone v => s.setWorker v { s.workers v with pc := .post }

/-! ## 2. Client and server -/

structure System where
  link : Link
  server : Server
  /-- The receive of a server worker, with the call whose request it has. -/
  requests : Nat → RecvWr
  /-- The send of a server worker. -/
  replies : Nat → SendWr
  /-- The response buffer a call was given. -/
  given : Nat → List UInt8
  /-- The handler's runs on the request of a call: the payload and the response. -/
  handled : Nat → List (List UInt8 × List UInt8)

def System.start (m k : Nat) : System where
  link := Link.start m
  server := Server.start k
  requests _ := .idle
  replies _ := .idle
  given _ := []
  handled _ := []

inductive SystemAction where
  | client (a : Action)
  | server (a : ServerAction)
  /-- The request of call `c` reaches server worker `v`. -/
  | deliver (c v : Nat)
  | completeSend (c : Nat)
  /-- The response of server worker `v`, to call `c`, reaches client worker `w`. -/
  | answer (c v w : Nat)
  deriving DecidableEq, Repr

/-- Requests of at most `kSendMsgSize` bytes, and no post fails. -/
def Action.sound : Action → Bool
  | .call _ reqData _ => reqData.length ≤ kSendMsgSize
  | .post _ ok | .postRecv _ ok => ok
  | _ => true

/-- The queue pair allows the server's statement. -/
def System.Permits (s : System) : ServerAction → Prop
  | .recvDone v bytes => (s.requests v).completion = some (some bytes)
  | .sendDone v => s.replies v = .done true
  | _ => True

instance System.decidablePermits (s : System) (a : ServerAction) : Decidable (s.Permits a) :=
  match a with
  | .recvDone .. | .sendDone _ => inferInstanceAs (Decidable (_ = _))
  | .postRecv _ | .schedule _ | .handle .. | .stamp _ | .send _ => inferInstanceAs (Decidable True)

/-- What lies in the send buffer of call `c`. -/
def System.request (s : System) (c : Nat) : List UInt8 :=
  s.link.client.sendBufferPool.read ((s.link.client.calls c).slotIdx * kSendBufferSize)
    (headerSize + (s.link.client.calls c).reqData.length)

/-- What lies in the send buffer of server worker `v`. -/
def System.response (s : System) (v : Nat) : List UInt8 :=
  s.server.sendBufferPool.read (v * kRecvBufferSize)
    (headerSize + (s.server.workers v).respPayloadLen)

def SystemEnabled (s : System) : SystemAction → Prop
  | .client a => a.sound = true ∧ (s.link.client.fault = none ∧ Enabled s.link.client a) ∧
      s.link.Permits a
  | .server a => ServerEnabled s.server a ∧ s.Permits a
  | .deliver c v => s.link.sends c = .posted ∧ s.link.delivered c = false ∧ s.requests v = .posted
  | .completeSend c => s.link.sends c = .posted ∧ s.link.delivered c = true
  | .answer c v w => s.replies v = .posted ∧ s.requests v = .handled c ∧ s.link.recvs w = .posted

instance (s : System) (a : SystemAction) : Decidable (SystemEnabled s a) :=
  match a with
  | .client _ | .server _ | .deliver .. | .completeSend _ | .answer .. =>
    inferInstanceAs (Decidable (_ ∧ _))

/-- What a server statement tells the queue pair, and the handler's run. -/
def System.tell (s : System) : ServerAction → System
  | .postRecv v => { s with requests := Function.update s.requests v .posted }
  | .recvDone v _ => { s with requests := Function.update s.requests v (s.requests v).dispatched }
  | .handle v _ resp n =>
    match s.requests v with
    | .handled c =>
      let run := (s.server.payload v, resp.take n)
      { s with handled := Function.update s.handled c (s.handled c ++ [run]) }
    | _ => s
  | .send v => { s with replies := Function.update s.replies v .posted }
  | .sendDone v => { s with replies := Function.update s.replies v (.dispatched true) }
  | _ => s

/-- A call is given a buffer. -/
def System.gives (s : System) : Action → Nat → List UInt8
  | .call c _ respBuffer => Function.update s.given c respBuffer
  | _ => s.given

section Step

variable (o : ByteOrder) (m : Nat)

def systemNext (s : System) : SystemAction → System
  | .client a => { s with link := linkNext o m s.link (.client a), given := s.gives a }
  | .server a => { s.tell a with server := serverNext o s.server a }
  | .deliver c v =>
    { s with
      link := linkNext o m s.link (.deliver c)
      requests := Function.update s.requests v (.packet c (s.request c)) }
  | .completeSend c => { s with link := linkNext o m s.link (.completeSend c true) }
  | .answer c v w =>
    { s with
      link := linkNext o m s.link (.answer c w (s.response v))
      replies := Function.update s.replies v (.done true) }

/-- Client, server and a queue pair that does not fail. -/
def systemMachine : Machine System SystemAction := .guarded SystemEnabled (systemNext o m)

end Step

end Rpc
end Rdmapp
