/-
  File:      Rdmapp/Rpc/Failure.lean
  Subject:   THE CLIENT WHEN ITS QUEUE PAIR FAILS, against any peer.

  In the error state every receive is flushed, and each worker leaves its loop at its first error.
  A call whose send was flushed gives up; one whose send has succeeded waits for a worker, and
  nothing tells it that none is left.

  The calls that wait are resumed if their responses are here when the queue pair fails
  (`AnswersAtHand`): the workers that have them stay until they have given them out, and then all
  slots are back (`not_abandoned`). Without their responses they wait for ever (`abandoned`).
-/
import Rdmapp.Rpc.Link

namespace Rdmapp
namespace Rpc

open Lib

/-! ## 1. The queue pair -/

/-- The receive of a worker; an error is no packet. -/
inductive Receive where
  | idle
  | posted
  /-- Its completion is in the CQ. -/
  | done (packet : Option (List UInt8))
  deriving DecidableEq, Repr

/-- The client and its queue pair. -/
structure Session where
  client : Client
  /-- The queue pair is in the error state. -/
  error : Bool
  sends : Nat → SendWr
  recvs : Nat → Receive

def Session.start (m : Nat) : Session where
  client := Client.start m
  error := false
  sends _ := .idle
  recvs _ := .idle

inductive SessionAction where
  | client (a : Action)
  | completeSend (c : Nat) (ok : Bool)
  | completeRecv (w : Nat) (packet : Option (List UInt8))
  | fail
  deriving DecidableEq, Repr

/-- The queue pair allows the client's statement. -/
def Session.Permits (s : Session) : Action → Prop
  | .sendDone c ok => s.sends c = .done ok
  | .postRecv _ ok => ok = false → s.error = true
  | .recvDone w packet => s.recvs w = .done packet
  | _ => True

instance Session.decidablePermits (s : Session) (a : Action) : Decidable (s.Permits a) :=
  match a with
  | .sendDone .. | .recvDone .. => inferInstanceAs (Decidable (_ = _))
  | .postRecv .. => inferInstanceAs (Decidable (_ → _))
  | .call .. | .dequeue .. | .fetchAdd .. | .storeWaiter .. | .storeBuffer .. | .storeId ..
  | .fill .. | .post .. | .suspend .. | .resume .. | .enqueue .. | .check .. | .copy ..
  | .wake .. => inferInstanceAs (Decidable True)

/-- In the error state nothing completes but with an error; a receive fails only there. -/
def SessionEnabled (s : Session) : SessionAction → Prop
  | .client a => (s.client.fault = none ∧ Enabled s.client a) ∧ s.Permits a
  | .completeSend c ok => s.sends c = .posted ∧ (ok = true → s.error = false)
  | .completeRecv w packet => s.recvs w = .posted ∧ packet.isNone = s.error ∧
      ∀ bytes ∈ packet, bytes.length ≤ kRecvBufferSize
  | .fail => True

instance (s : Session) (a : SessionAction) : Decidable (SessionEnabled s a) :=
  match a with
  | .client .. => inferInstanceAs (Decidable (_ ∧ _))
  | .completeSend .. => inferInstanceAs (Decidable (_ ∧ (_ → _)))
  | .completeRecv .. => inferInstanceAs (Decidable (_ ∧ _ ∧ _))
  | .fail => inferInstanceAs (Decidable True)

/-- What a client statement tells the queue pair. -/
def Session.tell (s : Session) : Action → Session
  | .post c ok => { s with sends := Function.update s.sends c (if ok then .posted else .idle) }
  | .sendDone c ok => { s with sends := Function.update s.sends c (.dispatched ok) }
  | .postRecv w ok => { s with recvs := Function.update s.recvs w (if ok then .posted else .idle) }
  | .recvDone w _ => { s with recvs := Function.update s.recvs w .idle }
  | _ => s

section Step

variable (o : ByteOrder) (m : Nat)

def sessionNext (s : Session) : SessionAction → Session
  | .client a => { s.tell a with client := next o m s.client a }
  | .completeSend c ok => { s with sends := Function.update s.sends c (.done ok) }
  | .completeRecv w packet => { s with recvs := Function.update s.recvs w (.done packet) }
  | .fail => { s with error := true }

def sessionMachine : Machine Session SessionAction := .guarded SessionEnabled (sessionNext o m)

end Step

/-! ## 2. Calls that are not abandoned -/

/-- The call waits for its response, or will: its send has succeeded. -/
def Awaits (p : CallPc) (wr : SendWr) : Prop := wr = .done true ∨ p = .suspend ∨ p = .waiting

/-- A packet with the id `reqId` is with worker `w`. -/
inductive HasAnswer (o : ByteOrder) (s : Session) (w : Nat) (reqId : UInt64) : Prop
  /-- In the CQ. -/
  | queued (bytes : List UInt8) (h : s.recvs w = .done (some bytes)) (hb : Answers o bytes reqId)
  /-- In its buffer. -/
  | inHand (h : (s.client.workers w).pc.busy = true)
      (hn : headerSize ≤ (s.client.workers w).nbytes) (hid : s.client.recvId o w = reqId)

/-- The queue pair fails when every call that awaits a response has it. -/
def AnswersAtHand (o : ByteOrder) (s : Session) : SessionAction → Prop
  | .fail => ∀ c, Awaits (s.client.calls c).pc (s.sends c) →
      ∃ w, HasAnswer o s w (s.client.calls c).reqId
  | _ => True

/-- A statement within `call()`, other than one that waits for the queue pair. -/
def Action.inCall : Action → Bool
  | .dequeue .. | .fetchAdd .. | .storeWaiter .. | .storeBuffer .. | .storeId .. | .fill ..
  | .post .. | .suspend .. | .resume .. | .enqueue .. => true
  | _ => false

/-- The workers have left their loops, the completions are dispatched and no call can go on. -/
structure Settled (m : Nat) (s : Session) : Prop where
  exited : ∀ w < m, (s.client.workers w).pc = .exited
  dispatched : ∀ c, s.sends c ≠ .posted ∧ ∀ ok, s.sends c ≠ .done ok
  calls : ∀ a : Action, a.inCall = true → ¬ Enabled s.client a

/-- A call that is suspended on its response has a worker left; once all is settled no call is
    suspended and every slot is free. -/
structure NotAbandoned (m : Nat) (s : Session) : Prop where
  rescuer : ∀ c, (s.client.calls c).pc = .waiting → ∃ w < m, (s.client.workers w).pc ≠ .exited
  settled : Settled m s → (∀ c, (s.client.calls c).pc ≠ .sending ∧ (s.client.calls c).pc ≠ .waiting) ∧
    s.client.freeSlots.Perm (List.range m)

/-- The invariant of client and queue pair. -/
structure SessionInv (o : ByteOrder) (m : Nat) (s : Session) : Prop where
  client : Inv m s.client
  sending : ∀ c, (s.client.calls c).pc = .sending ↔ s.sends c = .posted ∨ ∃ ok, s.sends c = .done ok
  receiving : ∀ w, (s.client.workers w).pc = .receiving ↔
    s.recvs w = .posted ∨ ∃ packet, s.recvs w = .done packet
  slot : ∀ w i, (s.client.workers w).pc = .matched i ∨ (s.client.workers w).pc = .waking i →
    i = slotOf (s.client.recvId o w)
  flushed : ∀ w, s.recvs w = .done none → s.error = true
  outside : ∀ w, m ≤ w → (s.client.workers w).pc = .exited
  alive : s.error = false → ∀ w < m, (s.client.workers w).pc ≠ .exited
  rescued : s.error = true → ∀ c, Awaits (s.client.calls c).pc (s.sends c) →
    ∃ w, HasAnswer o s w (s.client.calls c).reqId

section Failure

variable {o : ByteOrder} {m : Nat} {s t : Session} {c d w i : Nat}

theorem sessionInv_start (m : Nat) : SessionInv o m (Session.start m) where
  client := inv_start m
  sending _ := iff_of_false nofun nofun
  receiving w := by
    refine iff_of_false ?_ nofun
    show (if w < m then WorkerPc.post else .exited) ≠ .receiving
    split <;> exact nofun
  slot w i h := by
    have hp : (if w < m then WorkerPc.post else .exited) = .matched i ∨
        (if w < m then WorkerPc.post else .exited) = .waking i := h
    split at hp <;> rcases hp with hp | hp <;> cases hp
  flushed _ h := nomatch h
  outside w hw := if_neg (Nat.not_lt.mpr hw)
  alive _ w hw := by
    show (if w < m then WorkerPc.post else .exited) ≠ .exited
    rw [if_pos hw]
    exact nofun
  rescued h := nomatch h

/-- A worker with a packet has not left its loop. -/
theorem SessionInv.not_exited (h : SessionInv o m s) {reqId : UInt64} (ha : HasAnswer o s w reqId) :
    (s.client.workers w).pc ≠ .exited := by
  intro he
  cases ha with
  | queued bytes hr hb =>
    cases he.symm.trans ((h.receiving w).mpr (Or.inr ⟨_, hr⟩))
  | inHand hb hn hid =>
    rw [he] at hb
    cases hb

theorem SessionInv.lt_of_not_exited (h : SessionInv o m s)
    (he : (s.client.workers w).pc ≠ .exited) : w < m := by
  by_contra hw
  exact he (h.outside w (Nat.le_of_not_lt hw))

/-- A call that awaits a response is suspended, or about to be. -/
theorem SessionInv.awaiting (h : SessionInv o m s)
    (ha : Awaits (s.client.calls c).pc (s.sends c)) :
    (s.client.calls c).pc.cleared = true ∨ (s.client.calls c).pc = .waiting := by
  rcases ha with hs | hp | hp
  · left
    rw [(h.sending c).mpr (Or.inr ⟨true, hs⟩)]
    rfl
  · left
    rw [hp]
    rfl
  · exact Or.inr hp

/-- It holds the slot its id names. -/
theorem SessionInv.slotOf_awaiting (hm : m < 2 ^ 32) (h : SessionInv o m s)
    (ha : Awaits (s.client.calls c).pc (s.sends c)) :
    (s.client.calls c).pc.identified = true ∧
      slotOf (s.client.calls c).reqId = (s.client.calls c).slotIdx := by
  have hp : (s.client.calls c).pc.identified = true := by
    rcases ha with hs | hp | hp
    · rw [(h.sending c).mpr (Or.inr ⟨true, hs⟩)]
      rfl
    · rw [hp]
      rfl
    · rw [hp]
      rfl
  obtain ⟨hid, hlt⟩ := h.client.numbered c (numbered_of_identified hp)
  refine ⟨hp, ?_⟩
  rw [hid, slotOf_encodeReqId _ (hlt.trans hm)]

/-! ## 3. Steps -/

theorem HasAnswer.congr {reqId : UInt64} (h : HasAnswer o s w reqId) (hr : t.recvs w = s.recvs w)
    (hz : t.client.workers w = s.client.workers w)
    (hid : t.client.recvId o w = s.client.recvId o w) : HasAnswer o t w reqId := by
  cases h with
  | queued bytes hq hb => exact .queued bytes (hr.trans hq) hb
  | inHand hb hn he => exact .inHand (hz ▸ hb) (hz ▸ hn) (hid.trans he)

/-- Only call `c` moves. -/
structure CallMoves (s t : Session) (c : Nat) : Prop where
  calls : ∀ d, d ≠ c → t.client.calls d = s.client.calls d
  sends : ∀ d, d ≠ c → t.sends d = s.sends d
  workers : t.client.workers = s.client.workers
  pool : t.client.recvBufferPool = s.client.recvBufferPool
  recvs : t.recvs = s.recvs
  error : t.error = s.error

/-- A step of call `c`, after which it awaits no response it has not awaited before, unless the
    queue pair still works. -/
theorem SessionInv.callMoves (h : SessionInv o m s) (ht : CallMoves s t c) (hinv : Inv m t.client)
    (hsending : (t.client.calls c).pc = .sending ↔ t.sends c = .posted ∨ ∃ ok, t.sends c = .done ok)
    (hawaits : s.error = true → Awaits (t.client.calls c).pc (t.sends c) →
      Awaits (s.client.calls c).pc (s.sends c) ∧
        (t.client.calls c).reqId = (s.client.calls c).reqId) : SessionInv o m t := by
  have hrecvId : ∀ w, t.client.recvId o w = s.client.recvId o w := fun w => by
    unfold Client.recvId Client.header
    rw [ht.pool]
  refine ⟨hinv, fun d => ?_, ?_, fun w i => ?_, ?_, ?_, ?_, fun he d hd => ?_⟩
  · rcases eq_or_ne d c with rfl | hne
    · exact hsending
    · rw [ht.calls d hne, ht.sends d hne]
      exact h.sending d
  · rw [ht.workers, ht.recvs]
    exact h.receiving
  · rw [ht.workers, hrecvId]
    exact h.slot w i
  · rw [ht.recvs, ht.error]
    exact h.flushed
  · rw [ht.workers]
    exact h.outside
  · rw [ht.workers, ht.error]
    exact h.alive
  · rw [ht.error] at he
    have hsame : Awaits (s.client.calls d).pc (s.sends d) ∧
        (t.client.calls d).reqId = (s.client.calls d).reqId := by
      rcases eq_or_ne d c with rfl | hne
      · exact hawaits he hd
      · rw [ht.calls d hne, ht.sends d hne] at hd
        rw [ht.calls d hne]
        exact ⟨hd, rfl⟩
    obtain ⟨w, hw⟩ := h.rescued he d hsame.1
    rw [hsame.2]
    exact ⟨w, hw.congr (congrFun ht.recvs w) (congrFun ht.workers w) (hrecvId w)⟩

/-- A call that is not on its send goes on to another such place. -/
theorem SessionInv.goesOn (h : SessionInv o m s) (ht : CallMoves s t c) (hinv : Inv m t.client)
    (hp : (s.client.calls c).pc ≠ .sending) (hq : (t.client.calls c).pc ≠ .sending)
    (hsends : t.sends c = s.sends c) (hsuspend : (t.client.calls c).pc ≠ .suspend)
    (hwaiting : (t.client.calls c).pc = .waiting → (s.client.calls c).pc = .suspend ∧
      (t.client.calls c).reqId = (s.client.calls c).reqId) : SessionInv o m t := by
  have hwr : ¬ (s.sends c = .posted ∨ ∃ ok, s.sends c = .done ok) := fun hw => hp ((h.sending c).mpr hw)
  refine h.callMoves ht hinv ?_ fun _ ha => ?_
  · rw [hsends]
    exact iff_of_false hq hwr
  · rcases ha with hs | hs | hs
    · exact absurd (Or.inr ⟨true, hsends ▸ hs⟩) hwr
    · exact absurd hs hsuspend
    · exact ⟨Or.inr (Or.inl (hwaiting hs).1), (hwaiting hs).2⟩

/-- Only worker `w` moves; a call it resumes awaits no response any more. -/
structure WorkerMoves (o : ByteOrder) (s t : Session) (w : Nat) : Prop where
  sending : ∀ d, (t.client.calls d).pc = .sending ↔ (s.client.calls d).pc = .sending
  awaits : ∀ d, Awaits (t.client.calls d).pc (t.sends d) →
    Awaits (s.client.calls d).pc (s.sends d)
  reqId : ∀ d, (t.client.calls d).reqId = (s.client.calls d).reqId
  sends : t.sends = s.sends
  workers : ∀ v, v ≠ w → t.client.workers v = s.client.workers v
  recvId : ∀ v, v ≠ w → t.client.recvId o v = s.client.recvId o v
  recvs : ∀ v, v ≠ w → t.recvs v = s.recvs v
  error : t.error = s.error

/-- A step of worker `w`, which keeps the answer it has for a call that still awaits it. -/
theorem SessionInv.workerMoves (h : SessionInv o m s) (ht : WorkerMoves o s t w)
    (hinv : Inv m t.client) (hw : (s.client.workers w).pc ≠ .exited)
    (hreceiving : (t.client.workers w).pc = .receiving ↔
      t.recvs w = .posted ∨ ∃ packet, t.recvs w = .done packet)
    (hslot : ∀ i, (t.client.workers w).pc = .matched i ∨ (t.client.workers w).pc = .waking i →
      i = slotOf (t.client.recvId o w))
    (hflushed : t.recvs w = .done none → s.error = true)
    (halive : s.error = false → (t.client.workers w).pc ≠ .exited)
    (hkeeps : ∀ c, Awaits (t.client.calls c).pc (t.sends c) →
      HasAnswer o s w (s.client.calls c).reqId → HasAnswer o t w (s.client.calls c).reqId) :
    SessionInv o m t := by
  refine ⟨hinv, fun d => ?_, fun v => ?_, fun v i => ?_, fun v hv => ?_, fun v hv => ?_,
    fun he v hv => ?_, fun he d hd => ?_⟩
  · rw [ht.sends]
    exact (ht.sending d).trans (h.sending d)
  · rcases eq_or_ne v w with rfl | hne
    · exact hreceiving
    · rw [ht.workers v hne, ht.recvs v hne]
      exact h.receiving v
  · rcases eq_or_ne v w with rfl | hne
    · exact hslot i
    · rw [ht.workers v hne, ht.recvId v hne]
      exact h.slot v i
  · rw [ht.error]
    rcases eq_or_ne v w with rfl | hne
    · exact hflushed hv
    · rw [ht.recvs v hne] at hv
      exact h.flushed v hv
  · rcases eq_or_ne v w with rfl | hne
    · exact absurd (h.outside v hv) hw
    · rw [ht.workers v hne]
      exact h.outside v hv
  · rw [ht.error] at he
    rcases eq_or_ne v w with rfl | hne
    · exact halive he
    · rw [ht.workers v hne]
      exact h.alive he v hv
  · rw [ht.error] at he
    rw [ht.reqId]
    obtain ⟨v, hv⟩ := h.rescued he d (ht.awaits d hd)
    rcases eq_or_ne v w with rfl | hne
    · exact ⟨v, hkeeps d hd hv⟩
    · exact ⟨v, hv.congr (ht.recvs v hne) (ht.workers v hne) (ht.recvId v hne)⟩

/-! ## 4. Statements of a worker -/

/-- It has nothing of an answer while its receive is not there. -/
theorem not_hasAnswer {reqId : UInt64} (hr : ∀ packet, s.recvs w ≠ .done packet)
    (hb : (s.client.workers w).pc.busy = false) : ¬ HasAnswer o s w reqId := by
  intro ha
  cases ha with
  | queued bytes hq => exact hr _ hq
  | inHand hbusy => cases hb.symm.trans hbusy

/-- A statement that touches the worker alone. -/
theorem WorkerMoves.setWorker (s : Session) (w : Nat) (z : Worker) :
    WorkerMoves o s { s with client := s.client.setWorker w z } w where
  sending _ := Iff.rfl
  awaits _ ha := ha
  reqId _ := rfl
  sends := rfl
  workers _ hv := setWorker_of_ne _ hv _
  recvId _ _ := rfl
  recvs _ _ := rfl
  error := rfl

theorem SessionInv.postRecv_step (h : SessionInv o m s) {ok : Bool}
    (hp : (s.client.workers w).pc = .post) (hok : ok = false → s.error = true) :
    SessionInv o m (sessionNext o m s (.client (.postRecv w ok))) := by
  have hz : (sessionNext o m s (.client (.postRecv w ok))).client.workers w =
      { s.client.workers w with pc := if ok then .receiving else .exited } := setWorker_self _ _ _
  have hr : (sessionNext o m s (.client (.postRecv w ok))).recvs w =
      if ok then .posted else .idle := Function.update_self w _ s.recvs
  have hidle : ¬ (s.recvs w = .posted ∨ ∃ packet, s.recvs w = .done packet) := fun hw => by
    cases hp.symm.trans ((h.receiving w).mpr hw)
  refine h.workerMoves (w := w) ⟨fun _ => Iff.rfl, fun _ ha => ha, fun _ => rfl, rfl,
    fun v hv => setWorker_of_ne _ hv _, fun _ _ => rfl, fun v hv => Function.update_of_ne hv _ _,
    rfl⟩ (h.client.congr rfl (fun _ => ⟨rfl, rfl, rfl, rfl⟩) fun _ => ⟨rfl, rfl, rfl⟩)
    (by rw [hp]; exact nofun) ?_ (fun i hi => ?_) (fun hd => ?_) (fun he => ?_) fun c _ ha => ?_
  · rw [hz, hr]
    cases ok with
    | true => exact iff_of_true rfl (Or.inl rfl)
    | false => exact iff_of_false nofun nofun
  · rw [hz] at hi
    cases ok <;> rcases hi with hi | hi <;> cases hi
  · rw [hr] at hd
    cases ok <;> cases hd
  · rw [hz]
    cases ok with
    | true => exact nofun
    | false => cases he.symm.trans (hok rfl)
  · exact absurd ha (not_hasAnswer (fun packet hd => hidle (Or.inr ⟨packet, hd⟩)) (by rw [hp]; rfl))

/-- A flush error ends the worker. -/
theorem SessionInv.flushed_step (h : SessionInv o m s) (hp : (s.client.workers w).pc = .receiving)
    (hr : s.recvs w = .done none) :
    SessionInv o m (sessionNext o m s (.client (.recvDone w none))) := by
  have hz : (sessionNext o m s (.client (.recvDone w none))).client.workers w =
      { s.client.workers w with pc := .exited } := setWorker_self _ _ _
  have hr' : (sessionNext o m s (.client (.recvDone w none))).recvs w = .idle :=
    Function.update_self w _ s.recvs
  refine h.workerMoves (w := w) ⟨fun _ => Iff.rfl, fun _ ha => ha, fun _ => rfl, rfl,
    fun v hv => setWorker_of_ne _ hv _, fun _ _ => rfl, fun v hv => Function.update_of_ne hv _ _,
    rfl⟩ (h.client.congr rfl (fun _ => ⟨rfl, rfl, rfl, rfl⟩) fun _ => ⟨rfl, rfl, rfl⟩)
    (by rw [hp]; exact nofun) ?_ (fun i hi => ?_) (fun _ => h.flushed w hr) (fun hn => ?_)
    fun c _ ha => ?_
  · rw [hz, hr']
    exact iff_of_false nofun nofun
  · rw [hz] at hi
    rcases hi with hi | hi <;> cases hi
  · cases hn.symm.trans (h.flushed w hr)
  · cases ha with
    | queued bytes hq => cases hr.symm.trans hq
    | inHand hb => cases (congrArg WorkerPc.busy hp).symm.trans hb

/-- A packet is given to the worker. -/
theorem SessionInv.recvDone_step (h : SessionInv o m s) {bytes : List UInt8}
    (hp : (s.client.workers w).pc = .receiving) (hr : s.recvs w = .done (some bytes))
    (hmax : bytes.length ≤ kRecvBufferSize) :
    SessionInv o m (sessionNext o m s (.client (.recvDone w (some bytes)))) := by
  have hz : (sessionNext o m s (.client (.recvDone w (some bytes)))).client.workers w =
      ⟨.received, bytes.length⟩ := Function.update_self w _ s.client.workers
  have hr' : (sessionNext o m s (.client (.recvDone w (some bytes)))).recvs w = .idle :=
    Function.update_self w _ s.recvs
  refine h.workerMoves (w := w) ⟨fun _ => Iff.rfl, fun _ ha => ha, fun _ => rfl, rfl,
    fun v hv => Function.update_of_ne hv _ _,
    fun v hv => congrArg RpcHeader.reqId (header_write_of_ne hmax hv),
    fun v hv => Function.update_of_ne hv _ _, rfl⟩
    (h.client.congr rfl (fun _ => ⟨rfl, rfl, rfl, rfl⟩) fun _ => ⟨rfl, rfl, rfl⟩)
    (by rw [hp]; exact nofun) ?_ (fun i hi => ?_) (fun hd => ?_) (fun _ => ?_) fun c _ ha => ?_
  · rw [hz, hr']
    exact iff_of_false nofun nofun
  · rw [hz] at hi
    rcases hi with hi | hi <;> cases hi
  · cases hr'.symm.trans hd
  · rw [hz]
    exact nofun
  · cases ha with
    | queued bytes' hq hb =>
      obtain rfl : bytes = bytes' := Option.some.inj (Receive.done.inj (hr.symm.trans hq))
      obtain ⟨hmin, -, hid⟩ := hb
      exact .inHand (by rw [hz]; rfl) (by rw [hz]; exact hmin) ((recvId_write_self hmin rfl).trans hid)
    | inHand hb => cases (congrArg WorkerPc.busy hp).symm.trans hb

/-- A worker with a packet in hand goes on to `p`. -/
theorem SessionInv.handles (h : SessionInv o m s) {p : WorkerPc}
    (hbusy : (s.client.workers w).pc.busy = true) (hp : p ≠ .receiving) (hexit : p ≠ .exited)
    (hslot : ∀ i, p = .matched i ∨ p = .waking i → i = slotOf (s.client.recvId o w))
    (hkeeps : p.busy = true ∨ ∀ c, Awaits (s.client.calls c).pc (s.sends c) →
      ¬ HasAnswer o s w (s.client.calls c).reqId) :
    SessionInv o m { s with
      client := s.client.setWorker w { s.client.workers w with pc := p } } := by
  have hz : (s.client.setWorker w { s.client.workers w with pc := p }).workers w =
      { s.client.workers w with pc := p } := setWorker_self _ _ _
  have hidle : ¬ (s.recvs w = .posted ∨ ∃ packet, s.recvs w = .done packet) := fun hw => by
    rw [(h.receiving w).mpr hw] at hbusy
    cases hbusy
  refine h.workerMoves (w := w) (.setWorker s w _)
    (h.client.congr rfl (fun _ => ⟨rfl, rfl, rfl, rfl⟩) fun _ => ⟨rfl, rfl, rfl⟩) ?_ ?_ ?_
    (h.flushed w) ?_ ?_
  · intro he
    rw [he] at hbusy
    cases hbusy
  · show ((s.client.setWorker w _).workers w).pc = .receiving ↔ _
    rw [hz]
    exact iff_of_false hp hidle
  · show ∀ i, ((s.client.setWorker w _).workers w).pc = _ ∨ _ → i = slotOf (s.client.recvId o w)
    rw [hz]
    exact hslot
  · intro _
    show ((s.client.setWorker w _).workers w).pc ≠ .exited
    rw [hz]
    exact hexit
  · intro c hc ha
    rcases hkeeps with hkeeps | hkeeps
    · cases ha with
      | queued bytes hq => exact absurd (Or.inr ⟨_, hq⟩) hidle
      | inHand _ hn hid =>
        exact .inHand (congrArg (·.pc.busy) hz ▸ hkeeps) (congrArg (·.nbytes) hz ▸ hn) hid
    · exact absurd ha (hkeeps c hc)

/-- The packet in its hand is one for a call that holds the slot it names. -/
theorem SessionInv.hasAnswer_busy (hm : m < 2 ^ 32) (h : SessionInv o m s)
    (hbusy : (s.client.workers w).pc.busy = true) (hc : Awaits (s.client.calls c).pc (s.sends c))
    (ha : HasAnswer o s w (s.client.calls c).reqId) :
    headerSize ≤ (s.client.workers w).nbytes ∧
      slotOf (s.client.recvId o w) = (s.client.calls c).slotIdx := by
  cases ha with
  | queued bytes hq =>
    rw [(h.receiving w).mpr (Or.inr ⟨_, hq⟩)] at hbusy
    cases hbusy
  | inHand _ hn hid =>
    rw [hid]
    exact ⟨hn, (h.slotOf_awaiting hm hc).2⟩

theorem SessionInv.check_step (hm : m < 2 ^ 32) (h : SessionInv o m s)
    (hp : (s.client.workers w).pc = .received) :
    SessionInv o m (sessionNext o m s (.client (.check w))) := by
  have hbusy : (s.client.workers w).pc.busy = true := by rw [hp]; rfl
  show SessionInv o m { s with client := s.client.checked o m w }
  have hcheck := checked_spec (o := o) (m := m) s.client w
  generalize s.client.checked o m w = t at hcheck
  cases hcheck with
  | skip hskip =>
    refine h.handles hbusy nofun nofun (fun i hi => ?_) (Or.inr fun c hc ha => ?_)
    · rcases hi with hi | hi <;> cases hi
    · -- a packet for such a call is not skipped
      obtain ⟨hn, hslot⟩ := h.hasAnswer_busy hm hbusy hc ha
      have hlt := h.client.slot_lt (holds_of_identified (h.slotOf_awaiting hm hc).1)
      omega
  | mismatch =>
    refine ⟨h.client.congr rfl (fun _ => ⟨rfl, rfl, rfl, rfl⟩) fun _ => ⟨rfl, rfl, rfl⟩, h.sending,
      h.receiving, h.slot, h.flushed, h.outside, h.alive, fun he c hc => ?_⟩
    exact (h.rescued he c hc).imp fun v hv => hv.congr rfl rfl rfl
  | matched =>
    refine h.handles hbusy nofun nofun (fun i hi => ?_) (Or.inl rfl)
    rcases hi with hi | hi
    · exact (WorkerPc.matched.inj hi).symm
    · cases hi

theorem SessionInv.copy_step (h : SessionInv o m s) (hp : (s.client.workers w).pc = .matched i)
    (hinv : Inv m (next o m s.client (.copy w i))) :
    SessionInv o m (sessionNext o m s (.client (.copy w i))) := by
  obtain ⟨f, hcopy, hcalls⟩ := copied_eq (o := o) s.client w i
  have hnext : sessionNext o m s (.client (.copy w i)) = { s with
      client := (Client.setSlot { s.client with calls := f } i
        { s.client.slots i with actualLen := s.client.copyLen o w i }).setWorker w
          { s.client.workers w with pc := .waking i } } := by
    rw [← hcopy]
    rfl
  have hinv' := hnext ▸ (show Inv m (sessionNext o m s (.client (.copy w i))).client from hinv)
  rw [hnext]
  have hz : Function.update s.client.workers w { s.client.workers w with pc := .waking i } w =
      { s.client.workers w with pc := .waking i } := Function.update_self w _ s.client.workers
  have hidle : ¬ (s.recvs w = .posted ∨ ∃ packet, s.recvs w = .done packet) := fun hw => by
    cases hp.symm.trans ((h.receiving w).mpr hw)
  have hpc : ∀ d, (f d).pc = (s.client.calls d).pc ∧ (f d).reqId = (s.client.calls d).reqId := by
    intro d
    obtain ⟨b, hb, -⟩ := hcalls d
    rw [hb]
    exact ⟨rfl, rfl⟩
  refine h.workerMoves (w := w) ⟨fun d => ?_, fun d hd => ?_, fun d => (hpc d).2, rfl,
    fun v hv => Function.update_of_ne hv _ _, fun _ _ => rfl, fun _ _ => rfl, rfl⟩ hinv'
    (by rw [hp]; exact nofun) ?_ (fun j hj => ?_) (h.flushed w) (fun _ => ?_) fun c _ ha => ?_
  · show (f d).pc = _ ↔ _
    rw [(hpc d).1]
  · rw [← (hpc d).1]
    exact hd
  · show (Function.update s.client.workers w _ w).pc = _ ↔ _
    rw [hz]
    exact iff_of_false nofun hidle
  · rcases hj with hj | hj
    · cases (congrArg Worker.pc hz).symm.trans hj
    · rw [← WorkerPc.waking.inj ((congrArg Worker.pc hz).symm.trans hj)]
      exact h.slot w i (Or.inl hp)
  · show (Function.update s.client.workers w _ w).pc ≠ _
    rw [hz]
    exact nofun
  · cases ha with
    | queued bytes hq => exact absurd (Or.inr ⟨_, hq⟩) hidle
    | inHand _ hn hid =>
      exact .inHand (congrArg (·.pc.busy) hz :) (congrArg (·.nbytes) hz ▸ hn) hid

/-- The call a worker has the answer of is the one it resumes. -/
theorem SessionInv.wake_step (hm : m < 2 ^ 32) (h : SessionInv o m s) {k : Nat}
    (hp : (s.client.workers w).pc = .waking i) (hk : (s.client.slots i).waiter = some k)
    (hinv : Inv m (next o m s.client (.wake w i k))) :
    SessionInv o m (sessionNext o m s (.client (.wake w i k))) := by
  obtain ⟨x, fault, hresumed, hreq, hpc⟩ := resumed_eq s.client k
  have hnext : sessionNext o m s (.client (.wake w i k)) = { s with
      client := { s.client.setCall k x with fault := fault }.setWorker w
        { s.client.workers w with pc := .post } } := by
    rw [← hresumed]
    show Session.mk ((s.client.resumed k).setWorker w _) _ _ _ = _
    rfl
  have hinv' := hnext ▸ (show Inv m (sessionNext o m s (.client (.wake w i k))).client from hinv)
  rw [hnext]
  have hz : Function.update s.client.workers w { s.client.workers w with pc := .post } w =
      { s.client.workers w with pc := .post } := Function.update_self w _ s.client.workers
  have hcall : ∀ d, (Function.update s.client.calls k x d).reqId = (s.client.calls d).reqId ∧
      (Function.update s.client.calls k x d).pc =
        if d = k ∧ (s.client.calls d).pc = .waiting then .resume else (s.client.calls d).pc := by
    intro d
    rcases eq_or_ne d k with rfl | hne
    · rw [Function.update_self, hpc]
      exact ⟨hreq, by simp only [true_and]⟩
    · rw [Function.update_of_ne hne, if_neg fun hc => hne hc.1]
      exact ⟨rfl, rfl⟩
  have hidle : ¬ (s.recvs w = .posted ∨ ∃ packet, s.recvs w = .done packet) := fun hw => by
    cases hp.symm.trans ((h.receiving w).mpr hw)
  have hawaits : ∀ d, Awaits (Function.update s.client.calls k x d).pc (s.sends d) →
      Awaits (s.client.calls d).pc (s.sends d) ∧ ¬ (d = k ∧ (s.client.calls d).pc = .waiting) := by
    intro d hd
    rw [(hcall d).2] at hd
    split_ifs at hd with hc
    · rcases hd with hd | hd | hd
      · cases hc.2.symm.trans ((h.sending d).mpr (Or.inr ⟨true, hd⟩))
      · cases hd
      · cases hd
    · exact ⟨hd, hc⟩
  refine h.workerMoves (w := w) ⟨fun d => ?_, fun d hd => (hawaits d hd).1, fun d => (hcall d).1,
    rfl, fun v hv => Function.update_of_ne hv _ _, fun _ _ => rfl, fun _ _ => rfl, rfl⟩ hinv'
    (by rw [hp]; exact nofun) ?_ (fun j hj => ?_) (h.flushed w) (fun _ => ?_) fun c hc ha => ?_
  · show (Function.update s.client.calls k x d).pc = _ ↔ _
    rw [(hcall d).2]
    split_ifs with hc
    · rw [hc.2]
      exact iff_of_false nofun nofun
    · exact Iff.rfl
  · show (Function.update s.client.workers w _ w).pc = _ ↔ _
    rw [hz]
    exact iff_of_false nofun hidle
  · rcases hj with hj | hj <;> cases (congrArg Worker.pc hz).symm.trans hj
  · show (Function.update s.client.workers w _ w).pc ≠ _
    rw [hz]
    exact nofun
  · -- the waiter of the slot is the call that awaits this answer, and it is resumed
    obtain ⟨hc, hnot⟩ := hawaits c hc
    have hslot := (h.hasAnswer_busy hm (by rw [hp]; rfl) hc ha).2
    rw [← h.slot w i (Or.inr hp)] at hslot
    have hown := h.client.own c (holds_of_identified (h.slotOf_awaiting hm hc).1)
    rw [← hslot] at hown
    rcases h.awaiting hc with hclear | hwait
    · cases hk.symm.trans (hown.cleared hclear)
    · exact absurd ⟨Option.some.inj ((hown.waiting hwait).symm.trans hk), hwait⟩ hnot

/-! ## 5. Every step -/

/-- A statement of call `c` that the queue pair does not see. -/
theorem SessionInv.callGoesOn (h : SessionInv o m s) {t' : Client} {x : Call} (hinv : Inv m t')
    (hcalls : t'.calls = Function.update s.client.calls c x)
    (hworkers : t'.workers = s.client.workers)
    (hpool : t'.recvBufferPool = s.client.recvBufferPool)
    (hp : (s.client.calls c).pc ≠ .sending) (hq : x.pc ≠ .sending) (hsuspend : x.pc ≠ .suspend)
    (hwaiting : x.pc = .waiting →
      (s.client.calls c).pc = .suspend ∧ x.reqId = (s.client.calls c).reqId) :
    SessionInv o m { s with client := t' } := by
  have hx : t'.calls c = x := by rw [hcalls, Function.update_self]
  subst hx
  refine h.goesOn (c := c) ⟨fun d hd => ?_, fun _ _ => rfl, hworkers, hpool, rfl, rfl⟩ hinv hp hq
    rfl hsuspend hwaiting
  exact (congrFun hcalls d).trans (Function.update_of_ne hd _ _)

theorem SessionInv.client_step (hm : m < 2 ^ 32) (h : SessionInv o m s) {a : Action}
    (he : SessionEnabled s (.client a)) : SessionInv o m (sessionNext o m s (.client a)) := by
  obtain ⟨⟨hf, he⟩, hpermit⟩ := he
  have hinv : Inv m (next o m s.client a) :=
    inv_step h.client (Machine.guarded_step_eq_some.mpr ⟨⟨hf, he⟩, rfl⟩)
  have place : ∀ {c p}, (s.client.calls c).pc = p → p ≠ .sending →
      (s.client.calls c).pc ≠ .sending := fun hp hn => hp ▸ hn
  cases a with
  | call c reqData respBuffer =>
    exact h.callGoesOn hinv rfl rfl rfl (place he nofun) nofun nofun nofun
  | dequeue c i => exact h.callGoesOn hinv rfl rfl rfl (place he.1 nofun) nofun nofun nofun
  | fetchAdd c => exact h.callGoesOn hinv rfl rfl rfl (place he nofun) nofun nofun nofun
  | storeWaiter c => exact h.callGoesOn hinv rfl rfl rfl (place he nofun) nofun nofun nofun
  | storeBuffer c => exact h.callGoesOn hinv rfl rfl rfl (place he nofun) nofun nofun nofun
  | storeId c => exact h.callGoesOn hinv rfl rfl rfl (place he nofun) nofun nofun nofun
  | fill c => exact h.callGoesOn hinv rfl rfl rfl (place he nofun) nofun nofun nofun
  | suspend c =>
    exact h.callGoesOn hinv rfl rfl rfl (place he nofun) nofun nofun fun _ => ⟨he, rfl⟩
  | resume c => exact h.callGoesOn hinv rfl rfl rfl (place he nofun) nofun nofun nofun
  | enqueue c => exact h.callGoesOn hinv rfl rfl rfl (place he nofun) nofun nofun nofun
  | post c ok =>
    have hself : (sessionNext o m s (.client (.post c ok))).client.calls c =
        { s.client.calls c with pc := if ok then .sending else .enqueue } := setCall_self _ _ _
    have hsent : (sessionNext o m s (.client (.post c ok))).sends c =
        if ok then .posted else .idle := Function.update_self c _ s.sends
    refine h.callMoves (c := c) ⟨fun d hd => Function.update_of_ne hd _ _,
      fun d hd => Function.update_of_ne hd _ _, rfl, rfl, rfl, rfl⟩ hinv ?_ fun _ hc => ?_
    · rw [hself, hsent]
      cases ok with
      | true => exact iff_of_true rfl (Or.inl rfl)
      | false => exact iff_of_false nofun nofun
    · rw [hself, hsent] at hc
      cases ok <;> rcases hc with hc | hc | hc <;> cases hc
  | sendDone c ok =>
    have hself : (sessionNext o m s (.client (.sendDone c ok))).client.calls c =
        { s.client.calls c with pc := if ok then .suspend else .enqueue } := setCall_self _ _ _
    have hsent : (sessionNext o m s (.client (.sendDone c ok))).sends c = .dispatched ok :=
      Function.update_self c _ s.sends
    refine h.callMoves (c := c) ⟨fun d hd => Function.update_of_ne hd _ _,
      fun d hd => Function.update_of_ne hd _ _, rfl, rfl, rfl, rfl⟩ hinv ?_ fun _ hc => ?_
    · rw [hself, hsent]
      cases ok <;> exact iff_of_false nofun nofun
    · rw [hself]
      rw [hself, hsent] at hc
      cases ok with
      | true => exact ⟨Or.inl hpermit, rfl⟩
      | false => rcases hc with hc | hc | hc <;> cases hc
  | postRecv w ok => exact h.postRecv_step he hpermit
  | recvDone w packet =>
    cases packet with
    | none => exact h.flushed_step he.1 hpermit
    | some bytes => exact h.recvDone_step he.1 hpermit (he.2 bytes rfl)
  | check w => exact h.check_step hm he
  | copy w i => exact h.copy_step he hinv
  | wake w i k => exact h.wake_step hm he.1 he.2 hinv

/-- A send completes; in the error state with an error. -/
theorem SessionInv.completeSend_step (h : SessionInv o m s) {ok : Bool} (hw : s.sends c = .posted)
    (hok : ok = true → s.error = false) :
    SessionInv o m (sessionNext o m s (.completeSend c ok)) := by
  have hp : (s.client.calls c).pc = .sending := (h.sending c).mpr (Or.inl hw)
  have hsent : (sessionNext o m s (.completeSend c ok)).sends c = .done ok :=
    Function.update_self c _ s.sends
  refine h.callMoves (c := c) ⟨fun _ _ => rfl, fun d hd => Function.update_of_ne hd _ _, rfl, rfl,
    rfl, rfl⟩ h.client ?_ fun he hc => ?_
  · rw [hsent]
    exact iff_of_true hp (Or.inr ⟨ok, rfl⟩)
  · rw [hsent] at hc
    rcases hc with hc | hc | hc
    · cases (hok (SendWr.done.inj hc)).symm.trans he
    · cases hp.symm.trans hc
    · cases hp.symm.trans hc

/-- A receive completes. -/
theorem SessionInv.completeRecv_step (h : SessionInv o m s) {packet : Option (List UInt8)}
    (hw : s.recvs w = .posted) (hpacket : packet.isNone = s.error) :
    SessionInv o m (sessionNext o m s (.completeRecv w packet)) := by
  have hp : (s.client.workers w).pc = .receiving := (h.receiving w).mpr (Or.inl hw)
  have hr : (sessionNext o m s (.completeRecv w packet)).recvs w = .done packet :=
    Function.update_self w _ s.recvs
  refine h.workerMoves (w := w) ⟨fun _ => Iff.rfl, fun _ hc => hc, fun _ => rfl, rfl,
    fun _ _ => rfl, fun _ _ => rfl, fun v hv => Function.update_of_ne hv _ _, rfl⟩ h.client
    (by rw [hp]; exact nofun) ?_ (h.slot w) (fun hd => ?_) (fun _ => ?_) fun c _ ha => ?_
  · rw [hr]
    exact iff_of_true hp (Or.inr ⟨packet, rfl⟩)
  · rw [hr] at hd
    rw [← hpacket, Receive.done.inj hd]
    rfl
  · show (s.client.workers w).pc ≠ .exited
    rw [hp]
    exact nofun
  · refine absurd ha (not_hasAnswer (fun packet hd => ?_) (by rw [hp]; rfl))
    cases hw.symm.trans hd

/-- **What awaits a response in the error state has it with a worker**, if it had it when the queue
    pair failed. -/
theorem sessionInv_step (hm : m < 2 ^ 32) {a : SessionAction} (h : SessionInv o m s)
    (hc : AnswersAtHand o s a) (ht : (sessionMachine o m).step s a = some t) :
    SessionInv o m t := by
  obtain ⟨he, rfl⟩ := Machine.guarded_step_eq_some.mp ht
  cases a with
  | client a => exact h.client_step hm he
  | completeSend c ok => exact h.completeSend_step he.1 he.2
  | completeRecv w packet => exact h.completeRecv_step he.1 he.2.1
  | fail =>
    refine ⟨h.client, h.sending, h.receiving, h.slot, fun _ _ => rfl, h.outside,
      fun hf => (nomatch hf), fun _ c ha => ?_⟩
    exact (hc c ha).imp fun w hw => hw.congr rfl rfl rfl

theorem sessionInv_reach (hm : m < 2 ^ 32)
    (h : (sessionMachine o m).ReachIf (AnswersAtHand o) (Session.start m) s) : SessionInv o m s :=
  h.invariant (sessionInv_start m) fun _ _ _ hi hc ht => sessionInv_step hm hi hc ht

/-! ## 6. No call is abandoned -/

theorem SessionInv.rescuer (h : SessionInv o m s) (hc : (s.client.calls c).pc = .waiting) :
    ∃ w < m, (s.client.workers w).pc ≠ .exited := by
  cases he : s.error with
  | false =>
    have hlt : (s.client.calls c).slotIdx < m := h.client.slot_lt (by rw [hc]; rfl)
    exact ⟨_, hlt, h.alive he _ hlt⟩
  | true =>
    obtain ⟨w, hw⟩ := h.rescued he c (Or.inr (Or.inr hc))
    have hn := h.not_exited hw
    exact ⟨w, h.lt_of_not_exited hn, hn⟩

/-- Once all is settled no call holds a slot. -/
theorem SessionInv.not_holds (h : SessionInv o m s) (hs : Settled m s) (c : Nat) :
    (s.client.calls c).pc.holds = false := by
  have hwait : (s.client.calls c).pc ≠ .waiting := fun hc => by
    obtain ⟨w, hw, hn⟩ := h.rescuer hc
    exact hn (hs.exited w hw)
  have hsend : (s.client.calls c).pc ≠ .sending := fun hc => by
    rcases (h.sending c).mp hc with hc | ⟨ok, hc⟩
    · exact (hs.dispatched c).1 hc
    · exact (hs.dispatched c).2 ok hc
  cases hp : (s.client.calls c).pc with
  | idle | dequeue | returned => rfl
  | fetchAdd => exact absurd hp (hs.calls (.fetchAdd c) rfl)
  | storeWaiter => exact absurd hp (hs.calls (.storeWaiter c) rfl)
  | storeBuffer => exact absurd hp (hs.calls (.storeBuffer c) rfl)
  | storeId => exact absurd hp (hs.calls (.storeId c) rfl)
  | fill => exact absurd hp (hs.calls (.fill c) rfl)
  | post => exact absurd hp (hs.calls (.post c true) rfl)
  | sending => exact absurd hp hsend
  | suspend => exact absurd hp (hs.calls (.suspend c) rfl)
  | waiting => exact absurd hp hwait
  | resume => exact absurd hp (hs.calls (.resume c) rfl)
  | enqueue => exact absurd hp (hs.calls (.enqueue c) rfl)

/-- With no holder every slot is in the queue. -/
theorem SessionInv.all_free (h : SessionInv o m s) (hs : Settled m s) :
    s.client.freeSlots.Perm (List.range m) := by
  refine (List.perm_ext_iff_of_nodup h.client.pool.nodup List.nodup_range).mpr fun i => ?_
  rw [List.mem_range]
  refine ⟨h.client.pool.free_lt i, fun hi => ?_⟩
  by_contra hn
  obtain ⟨c, hc⟩ := h.client.pool.covered i hi hn
  cases (held_of_not_holds (h.not_holds hs c)).symm.trans hc

/-- **No call is abandoned that has its response when the queue pair fails.** In every state of a
    run in which, whenever the queue pair fails, the calls whose sends have succeeded have their
    responses: a call suspended on its response has a worker that has not left its loop; and once
    the workers have left, the completions are dispatched and no call can go on, no call is
    suspended and all slots are free. -/
theorem not_abandoned (o : ByteOrder) (m : Nat) (hm : m < 2 ^ 32) (s : Session)
    (h : (sessionMachine o m).ReachIf (AnswersAtHand o) (Session.start m) s) : NotAbandoned m s := by
  have hi := sessionInv_reach hm h
  refine ⟨fun _ => hi.rescuer, fun hs => ⟨fun c => ?_, hi.all_free hs⟩⟩
  have hc := hi.not_holds hs c
  constructor
  · intro hp
    cases (congrArg CallPc.holds hp).symm.trans hc
  · intro hp
    cases (congrArg CallPc.holds hp).symm.trans hc

end Failure

/-! ## 7. Failures -/

/-- The steps of call 0 of the first slot up to its post, and the post. -/
def sendsOne : List SessionAction :=
  [.call 0 [7] [0], .dequeue 0 0, .fetchAdd 0, .storeWaiter 0, .storeBuffer 0, .storeId 0, .fill 0,
    .post 0 true, .postRecv 0 true].map .client

/-- The response to call 0. -/
def answerOne : List UInt8 := List.replicate 8 0 ++ [1, 0, 0, 0, 0, 0, 0, 0, 9]

theorem answersAtHand_of_ne {o : ByteOrder} {a : SessionAction} (h : a ≠ .fail) (s : Session) :
    AnswersAtHand o s a := by
  cases a with
  | fail => exact absurd rfl h
  | _ => trivial

/-- With one slot its holder is the only call that can await a response. -/
theorem answersAtHand_one {o : ByteOrder} {s : Session} {c w : Nat} (h : SessionInv o 1 s)
    (hc : (s.client.calls c).pc.holds = true)
    (ha : HasAnswer o s w (s.client.calls c).reqId) : AnswersAtHand o s .fail := by
  intro d hd
  have hh := holds_of_identified (h.slotOf_awaiting (by decide) hd).1
  have hlt := h.client.slot_lt hc
  have hlt' := h.client.slot_lt hh
  obtain rfl : d = c := h.client.eq_of_slot hc hh (by omega)
  exact ⟨w, ha⟩

/-- The queue pair fails when the response is in the CQ: the call gets it, and the worker leaves. -/
theorem not_abandoned_answered : ∃ s : Session, s.error = true ∧
    (s.client.calls 0).pc = .returned ∧ (s.client.calls 0).respBuffer = [9] ∧
    (s.client.workers 0).pc = .exited ∧ NotAbandoned 1 s := by
  have hfirst : (sessionMachine .little 1).ReachIf (AnswersAtHand .little) (Session.start 1) _ :=
    Machine.reachIf_of_run (sendsOne ++ [.completeSend 0 true, .completeRecv 0 (some answerOne)])
      (fun a ha => answersAtHand_of_ne fun he => by subst he; revert ha; decide) rfl
  have hat := answersAtHand_one (c := 0) (w := 0) (sessionInv_reach (by decide) hfirst) rfl
    (.queued answerOne rfl (by decide +kernel))
  have hfail := Machine.ReachIf.step SessionAction.fail hfirst hat rfl
  obtain ⟨s, hr, hs⟩ := hfail.exists_of_run
    ([.client (.sendDone 0 true), .client (.recvDone 0 (some answerOne)), .client (.check 0),
      .client (.copy 0 0), .client (.suspend 0), .client (.wake 0 0 0), .client (.resume 0),
      .client (.enqueue 0), .client (.postRecv 0 false)])
    (fun a ha => answersAtHand_of_ne fun he => by subst he; revert ha; decide)
    (fun s => s.error = true ∧ (s.client.calls 0).pc = .returned ∧
      (s.client.calls 0).respBuffer = [9] ∧ (s.client.workers 0).pc = .exited) (by decide +kernel)
  obtain ⟨he, h0, hb, hw⟩ := of_decide_eq_true hs
  exact ⟨s, he, h0, hb, hw, not_abandoned .little 1 (by decide) s hr⟩

/-- The queue pair fails when the send has succeeded and the response is not there: the only worker
    leaves, and the call waits for ever. -/
theorem abandoned : ∃ s : Session, (sessionMachine .little 1).Reach (Session.start 1) s ∧
    ¬ NotAbandoned 1 s := by
  obtain ⟨s, hr, hs⟩ := Machine.exists_reach_of_run (M := sessionMachine .little 1)
    (s := Session.start 1)
    (sendsOne ++ [.completeSend 0 true, .client (.sendDone 0 true), .client (.suspend 0), .fail,
      .completeRecv 0 none, .client (.recvDone 0 none)])
    (fun s => (s.client.calls 0).pc = .waiting ∧ (s.client.workers 0).pc = .exited)
    (by decide +kernel)
  obtain ⟨hc, hw⟩ := of_decide_eq_true hs
  refine ⟨s, hr, fun hn => ?_⟩
  obtain ⟨w, hlt, hne⟩ := hn.rescuer 0 hc
  obtain rfl : w = 0 := Nat.lt_one_iff.mp hlt
  exact hne hw

end Rpc
end Rdmapp
