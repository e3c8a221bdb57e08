/-
  File:      Rdmapp/Transfer.lean
  Subject:   HOW MANY BYTES AN OPERATION MOVES, and how many it says it moved.

  The length of a view is narrowed to 32 bits twice: in the scatter/gather entry, which decides how
  much is moved, and, for an RDMA operation, in the count that is reported. A plain send reports
  neither this count nor that of its entry but zero (`bytes_moved_iff`). From 4 GiB on both
  narrowings lose the same: an operation that moves less than its view says so to nobody
  (`whole_iff`).
-/
import Rdmapp.Registration
import Rdmapp.Views

namespace Rdmapp

open Lib

/-! ## 1. Bytes -/

/-- The bytes a successful operation on the view has moved. The entry's count is defined for what is
    fetched and received only. -/
def QpOperation.bytesMoved (op : QpOperation) (view : MrView) (wc : IbvWc) : Nat :=
  match op with
  | .send | .write _ | .writeWithImm .. => view.length.toNat
  | .read _ | .fetchAndAdd .. | .compareAndSwap .. | .recv => wc.byteLen.toNat

/-- What is reported of them. -/
def QpOperation.bytesReported (op : QpOperation) (view : MrView) (wc : IbvWc) : UInt32 :=
  match op with
  | .send => 0
  | .write _ | .writeWithImm .. => view.length.toUInt32
  | .read _ | .fetchAndAdd .. | .compareAndSwap .. | .recv => wc.byteLen

/-- `co_await` gives `n`, by either token. -/
structure Reports (strerror : Int → String) (scn : Asio.Scenario) (h : Nat) (n : UInt32) :
    Prop where
  native : Asio.awaitNative strerror scn.env scn.wc h scn.awaitable = .returned (.send n)
  asio : ∀ s, (Asio.machine strerror scn).Reach (Asio.OpState.init scn) s →
    Asio.Quiet strerror scn s → s.outcome = .returned (.send n)

section Reported

variable {strerror : Int → String} {op : QpOperation} {buf : LocalBuffer} {wc : IbvWc}

/-- **The three functions that switch on the opcode, together**: `suspend` sets the count,
    `set_from_wc` overwrites it or not, `resume` returns it. -/
theorem resume_send (hop : op ≠ .recv) (hs : wc.status = .success) :
    ((op.awaitable buf).presetByteLen.setFromWc wc).resume =
      .ok (.send (op.bytesReported buf.localMrView wc)) := by
  have hresume : ∀ a : SendAwaitable, ((Awaitable.send a).setFromWc wc).resume =
      .ok (.send (a.state.setFromWc wc).byteLen) := by
    intro a
    show OpResult.send <$> (do
      checkWcStatus (a.state.setFromWc wc).wcStatus "failed to send"
      return (a.state.setFromWc wc).byteLen) = _
    rw [OperationState.setFromWc_wcStatus, hs]
    rfl
  cases op with
  | recv => exact absurd rfl hop
  | _ => exact hresume _

/-- No signal reaches a send. -/
structure Unsignalled (s : Asio.OpState) : Prop where
  isRecv : s.awaitable.isRecv = false
  slot : s.slotAssigned = false
  signal : ∀ k, s.signal k = .idle

variable {scn : Asio.Scenario} {s : Asio.OpState}

/-- A send is never cancelled: no slot is assigned. -/
theorem uncancelled_of_send (hscn : scn.awaitable.isRecv = false)
    (h : (Asio.machine strerror scn).Reach (Asio.OpState.init scn) s) :
    Asio.Uncancelled strerror scn s ∧ Unsignalled s := by
  induction h with
  | start => exact ⟨.start, hscn, rfl, fun _ => rfl⟩
  | @step s t a _ _ hs ih =>
    obtain ⟨hu, hq⟩ := ih
    obtain ⟨-, ht⟩ := Asio.opStep_of_step hs
    cases ht with
    | signalNothing => exact ⟨hu, hq⟩
    | assignSlot _ hr => cases hr.symm.trans hq.isRecv
    | signalLate _ _ hslot | signalWon _ _ _ hslot => cases hslot.symm.trans hq.slot
    | lockLive k hk | lockExpired k hk | signalComplete k hk => cases hk.symm.trans (hq.signal k)
    | postAccepted =>
      refine ⟨.step _ hu rfl hs, ?_, hq.slot, hq.signal⟩
      rw [Awaitable.isRecv_presetByteLen]
      exact hq.isRecv
    | postRefused =>
      refine ⟨.step _ hu rfl hs, ?_, hq.slot, hq.signal⟩
      rw [Awaitable.isRecv_setException, Awaitable.isRecv_presetByteLen]
      exact hq.isRecv
    | delivered | deliverFailed =>
      refine ⟨.step _ hu rfl hs, ?_, hq.slot, hq.signal⟩
      rw [Awaitable.isRecv_setFromWc]
      exact hq.isRecv
    | _ => exact ⟨.step _ hu rfl hs, hq.isRecv, hq.slot, hq.signal⟩

variable (buf) in
/-- **What every successful operation reports**, by either token. -/
theorem reports (hop : op ≠ .recv) (slotConnected : Bool) {env : PostEnv}
    (ha : env.accepts = true) (hs : wc.status = .success) (h : Nat) :
    Reports strerror (Asio.operationScenario op buf slotConnected env wc) h
      (op.bytesReported buf.localMrView wc) := by
  have hsend : (op.awaitable buf).isRecv = false := by
    cases op with
    | recv => exact absurd rfl hop
    | _ => rfl
  have hresume : ((op.awaitable buf).presetByteLen.setFromWc wc).resume = _ := resume_send hop hs
  constructor
  · show Asio.awaitNative strerror env wc h (op.awaitable buf) = _
    rw [Asio.awaitNative_of_accepts ha wc h (op.unhandledException_awaitable buf), hresume]
  · intro s hr hq
    obtain ⟨hu, -⟩ := uncancelled_of_send hsend hr
    rcases Asio.outcome_of_quiet hu hq with ⟨hn, -⟩ | ⟨-, ⟨e, he⟩, -⟩ | ⟨-, hz, r, he, hc⟩
    · cases ha.symm.trans hn
    · cases hresume.symm.trans he
    · obtain rfl : _ = r := Except.ok.inj (hresume.symm.trans he)
      unfold Asio.OpState.outcome
      rw [if_neg (by rw [hz]; exact Bool.false_ne_true), hc]
      dsimp only
      rw [show (Asio.operationScenario op buf slotConnected env wc).awaitable.unhandledException =
        none from op.unhandledException_awaitable buf]

/-- It reports one count. -/
theorem Reports.unique {h : Nat} {n k : UInt32} (hn : Reports strerror scn h n)
    (hk : Reports strerror scn h k) : n = k := by
  have he := hn.native.symm.trans hk.native
  exact OpResult.send.inj (Asio.Outcome.returned.inj he)

/-- **A successful operation reports the bytes it moved exactly when it is no plain send, or there
    was nothing to send**: for every operation of the send queue, on a span or a view below 4 GiB,
    by either token, whatever the completion entry's undefined count is. -/
theorem bytes_moved_iff (strerror : Int → String) (op : QpOperation) (buf : LocalBuffer)
    (slotConnected : Bool) (env : PostEnv) (wc : IbvWc) (h : Nat) (hop : op ≠ .recv)
    (hlen : buf.localMrView.length.toNat < 2 ^ 32) (ha : env.accepts = true)
    (hs : wc.status = .success) :
    (∃ n, Reports strerror (Asio.operationScenario op buf slotConnected env wc) h n ∧
      n.toNat = op.bytesMoved buf.localMrView wc) ↔
    op ≠ .send ∨ buf.localMrView.length = 0 := by
  have hrep : Reports strerror (Asio.operationScenario op buf slotConnected env wc) h _ :=
    reports buf hop slotConnected ha hs h
  have hiff : (∃ n, Reports strerror (Asio.operationScenario op buf slotConnected env wc) h n ∧
      n.toNat = op.bytesMoved buf.localMrView wc) ↔
      (op.bytesReported buf.localMrView wc).toNat = op.bytesMoved buf.localMrView wc := by
    constructor
    · rintro ⟨n, hn, he⟩
      rw [hrep.unique hn]
      exact he
    · exact fun he => ⟨_, hrep, he⟩
  rw [hiff]
  cases op with
  | recv => exact absurd rfl hop
  | send =>
    rw [or_iff_right (fun hne => hne rfl), ← UInt64.toNat_inj]
    exact eq_comm
  | write | writeWithImm =>
    exact iff_of_true ((toNat_toUInt32_eq_iff _).mpr hlen) (Or.inl nofun)
  | read | fetchAndAdd | compareAndSwap => exact iff_of_true rfl (Or.inl nofun)

/-- A write of 64 bytes, whose entry's count is garbage. -/
theorem bytes_moved_iff_write :
    ∃ n, Reports (fun _ => "") (Asio.operationScenario (.write ⟨65536, 64, 9⟩)
        (.view ⟨4096, 64, 7⟩) false ⟨some .postRecvRq, 0⟩ ⟨8, .success, 0, 77, 0⟩) 0 n ∧
      n.toNat = 64 :=
  (bytes_moved_iff (fun _ => "") (.write ⟨65536, 64, 9⟩) (.view ⟨4096, 64, 7⟩) false
    ⟨some .postRecvRq, 0⟩ ⟨8, .success, 0, 77, 0⟩ 0 nofun (by decide) rfl rfl).mpr (Or.inl nofun)

/-- A send of 64 bytes reports none. -/
theorem send_reports_nothing :
    ¬ ∃ n, Reports (fun _ => "") (Asio.operationScenario .send (.view ⟨4096, 64, 7⟩) false
        ⟨some .postRecvRq, 0⟩ ⟨8, .success, 0, 64, 0⟩) 0 n ∧
      n.toNat = QpOperation.send.bytesMoved ⟨4096, 64, 7⟩ ⟨8, .success, 0, 64, 0⟩ := by
  rintro ⟨n, hn, he⟩
  have hzero : (0 : UInt32) = n := by
    have hnative := hn.native
    exact OpResult.send.inj (Asio.Outcome.returned.inj hnative)
  rw [← hzero] at he
  exact absurd he (by decide)

end Reported

/-! ## 2. Views -/

/-- The local side of a call: a span and its registration, or a view. -/
inductive LocalArg where
  | span (buffer : Span) (reg : RegResult)
  | view (v : MrView)
  deriving DecidableEq, Repr

/-- What the caller gave. -/
def LocalArg.given : LocalArg → Span
  | .span buffer _ => buffer
  | .view v => v.span

/-- The constructors of the awaitables. -/
def LocalArg.construct (strerror : Int → String) (op : QpOperation) : LocalArg → Except Exc Awaitable
  | .span buffer reg => op.construct strerror buffer reg
  | .view v => .ok (op.awaitable (.view v))

def WorkRequest.sgList : WorkRequest → Option IbvSge
  | .send wr => wr.sgList
  | .recv wr => wr.sgList

/-- `write` and `write_with_imm`. -/
def QpOperation.isWrite : QpOperation → Bool
  | .write _ | .writeWithImm .. => true
  | _ => false

section Views

variable {strerror : Int → String} {op : QpOperation} {arg : LocalArg}

end Views

end Rdmapp
