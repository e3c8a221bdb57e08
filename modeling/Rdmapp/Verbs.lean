/-
  File:      Rdmapp/Verbs.lean
  Subject:   The data of ibverbs the library reads and writes: opcodes, completion statuses,
             scatter/gather entries, work requests, completion entries, memory regions.

  Only the fields some modelled function uses are here. The union `wr` of a send work request
  is an inductive type with one constructor per member the library fills.
-/
import Rdmapp.Lib.Codec

namespace Rdmapp

/-- `enum ibv_wr_opcode`: the opcodes the operations of `basic_qp` post. -/
inductive IbvWrOpcode where
  | rdmaWrite
  | rdmaWriteWithImm
  | send
  | rdmaRead
  | atomicCmpAndSwp
  | atomicFetchAndAdd
  deriving DecidableEq, Repr

/-- `enum ibv_wc_status`: the statuses `check_wc_status` names, in the order of their codes, and
    the codes past them that a newer device may report. -/
inductive IbvWcStatus where
  | success
  | locLenErr
  | locQpOpErr
  | locEecOpErr
  | locProtErr
  | wrFlushErr
  | mwBindErr
  | badRespErr
  | locAccessErr
  | remInvReqErr
  | remAccessErr
  | remOpErr
  | retryExcErr
  | rnrRetryExcErr
  | locRddViolErr
  | remInvRdReqErr
  | remAbortErr
  | invEecnErr
  | invEecStateErr
  | fatalErr
  | respTimeoutErr
  | generalErr
  | tmErr
  | tmRndvIncomplete
  | unlisted (code : Nat) (past : 24 ≤ code)
  deriving DecidableEq, Repr

/-- The number the status is printed as. -/
def IbvWcStatus.code : IbvWcStatus → Nat
  | .success => 0
  | .locLenErr => 1
  | .locQpOpErr => 2
  | .locEecOpErr => 3
  | .locProtErr => 4
  | .wrFlushErr => 5
  | .mwBindErr => 6
  | .badRespErr => 7
  | .locAccessErr => 8
  | .remInvReqErr => 9
  | .remAccessErr => 10
  | .remOpErr => 11
  | .retryExcErr => 12
  | .rnrRetryExcErr => 13
  | .locRddViolErr => 14
  | .remInvRdReqErr => 15
  | .remAbortErr => 16
  | .invEecnErr => 17
  | .invEecStateErr => 18
  | .fatalErr => 19
  | .respTimeoutErr => 20
  | .generalErr => 21
  | .tmErr => 22
  | .tmRndvIncomplete => 23
  | .unlisted code _ => code

/-- `IBV_WC_WITH_IMM` of `enum ibv_wc_flags`. -/
def ibvWcWithImm : UInt32 := 2

/-- `struct ibv_sge`. -/
structure IbvSge where
  addr : UInt64
  length : UInt32
  lkey : UInt32
  deriving DecidableEq, Repr

/-- The union `wr` of `struct ibv_send_wr`; `none` is its zero initialisation. -/
inductive IbvSendWrUnion where
  | none
  | rdma (remoteAddr : UInt64) (rkey : UInt32)
  | atomic (remoteAddr : UInt64) (rkey : UInt32) (compareAdd swap : UInt64)
  deriving DecidableEq, Repr

/-- `struct ibv_send_wr`. -/
structure IbvSendWr where
  opcode : IbvWrOpcode
  numSge : Nat
  wrId : UInt64
  /-- `send_flags = IBV_SEND_SIGNALED`: the request generates a completion entry. -/
  signaled : Bool
  sgList : Option IbvSge
  wr : IbvSendWrUnion
  immData : UInt32
  deriving DecidableEq, Repr

/-- `struct ibv_recv_wr`. -/
structure IbvRecvWr where
  wrId : UInt64
  numSge : Nat
  sgList : Option IbvSge
  deriving DecidableEq, Repr

/-- `struct ibv_wc`. -/
structure IbvWc where
  wrId : UInt64
  status : IbvWcStatus
  wcFlags : UInt32
  byteLen : UInt32
  immData : UInt32
  deriving DecidableEq, Repr

/-- `struct ibv_mr`: a registered memory region. -/
structure IbvMr where
  addr : UInt64
  length : UInt64
  lkey : UInt32
  rkey : UInt32
  deriving DecidableEq, Repr

/-- `union ibv_gid`: sixteen bytes. -/
structure IbvGid where
  raw : List UInt8
  rawLength : raw.length = 16
  deriving DecidableEq, Repr

end Rdmapp
