/-
  File:      Rdmapp/Error.lean
  Subject:   The checks of `error.h`: which results of ibverbs become exceptions, and with
             which text.

  A text goes through `snprintf` into a buffer of `kErrorStringBufferSize` characters, so what
  an exception carries is cut there. `strerror` is the C library's; it stays a parameter.
-/
import Rdmapp.Verbs

namespace Rdmapp

/-- The exceptions the library throws. -/
inductive Exc where
  /-- `std::runtime_error`. -/
  | runtimeError (what : String)
  /-- `asio::system_error(asio::error::operation_aborted)`. -/
  | operationAborted
  deriving DecidableEq, Repr

section Throwing

variable {ε σ α β : Type} {m : ExceptT ε (StateM σ) α} {s t : σ}

/-- A function that returns is followed by the rest. -/
theorem bind_ok {a : α} (h : m s = (.ok a, t)) (f : α → ExceptT ε (StateM σ) β) :
    (m >>= f) s = f a t := by
  show (ExceptT.bindCont f (m s).1) (m s).2 = _
  rw [h]
  rfl

/-- A function that throws is followed by nothing. -/
theorem bind_error {e : ε} (h : m s = (.error e, t)) (f : α → ExceptT ε (StateM σ) β) :
    (m >>= f) s = (.error e, t) := by
  show (ExceptT.bindCont f (m s).1) (m s).2 = _
  rw [h]
  rfl

end Throwing

def kErrorStringBufferSize : Nat := 1024

/-- What `snprintf` leaves in the buffer: one character is the terminating zero. -/
def snprintf (text : String) : String :=
  String.ofList (text.toList.take (kErrorStringBufferSize - 1))

section Checks

variable (strerror : Int → String)

/-- `check_rc`. -/
def checkRc (rc : Int) (message : String) : Except Exc Unit :=
  if rc ≠ 0 then
    .error (.runtimeError
      (snprintf (message ++ ": " ++ strerror rc ++ " (rc=" ++ toString rc ++ ")")))
  else .ok ()

/-- `check_ptr`, with the `errno` the failed call left. -/
def checkPtr {α : Type} (ptr : Option α) (errno : Int) (message : String) : Except Exc α :=
  match ptr with
  | none => .error (.runtimeError
      (snprintf (message ++ ": " ++ strerror errno ++ " (errno=" ++ toString errno ++ ")")))
  | some p => .ok p

@[simp] theorem checkRc_zero (message : String) : checkRc strerror 0 message = .ok () := rfl

theorem checkRc_of_ne {rc : Int} (h : rc ≠ 0) (message : String) :
    ∃ text, checkRc strerror rc message = .error (.runtimeError text) := by
  unfold checkRc
  rw [if_pos h]
  exact ⟨_, rfl⟩

end Checks

/-- The text `check_wc_status` prints for a status. -/
def IbvWcStatus.errorstr : IbvWcStatus → String
  | .success => "IBV_WC_SUCCESS"
  | .locLenErr => "IBV_WC_LOC_LEN_ERR"
  | .locQpOpErr => "IBV_WC_LOC_QP_OP_ERR"
  | .locEecOpErr => "IBV_WC_LOC_EEC_OP_ERR"
  | .locProtErr => "IBV_WC_LOC_PROT_ERR"
  | .wrFlushErr => "IBV_WC_WR_FLUSH_ERR"
  | .mwBindErr => "IBV_WC_MW_BIND_ERR"
  | .badRespErr => "IBV_WC_BAD_RESP_ERR"
  | .locAccessErr => "IBV_WC_LOC_ACCESS_ERR"
  | .remInvReqErr => "IBV_WC_REM_INV_REQ_ERR"
  | .remAccessErr => "IBV_WC_REM_ACCESS_ERR"
  | .remOpErr => "IBV_WC_REM_OP_ERR"
  | .retryExcErr => "IBV_WC_RETRY_EXC_ERR"
  | .rnrRetryExcErr => "IBV_WC_RNR_RETRY_EXC_ERR"
  | .locRddViolErr => "IBV_WC_LOC_RDD_VIOL_ERR"
  | .remInvRdReqErr => "IBV_WC_REM_INV_RD_REQ_ERR"
  | .remAbortErr => "IBV_WC_REM_ABORT_ERR"
  | .invEecnErr => "IBV_WC_INV_EECN_ERR"
  | .invEecStateErr => "IBV_WC_INV_EEC_STATE_ERR"
  | .fatalErr => "IBV_WC_FATAL_ERR"
  | .respTimeoutErr => "IBV_WC_RESP_TIMEOUT_ERR"
  | .generalErr => "IBV_WC_GENERAL_ERR"
  | .tmErr => "IBV_WC_TM_ERR"
  | .tmRndvIncomplete => "IBV_WC_TM_RNDV_INCOMPLETE"
  | .unlisted _ _ => "UNKNOWN_ERROR"

/-- `check_wc_status`. -/
def checkWcStatus (status : IbvWcStatus) (message : String) : Except Exc Unit :=
  if status ≠ .success then
    .error (.runtimeError
      (snprintf (message ++ ": " ++ status.errorstr ++ " (status=" ++ toString status.code ++ ")")))
  else .ok ()

@[simp] theorem checkWcStatus_success (message : String) :
    checkWcStatus .success message = .ok () := rfl

theorem checkWcStatus_of_ne {status : IbvWcStatus} (h : status ≠ .success) (message : String) :
    ∃ text, checkWcStatus status message = .error (.runtimeError text) := by
  unfold checkWcStatus
  rw [if_pos h]
  exact ⟨_, rfl⟩

end Rdmapp
