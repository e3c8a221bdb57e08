/-
  File:      Rdmapp/Rpc/Packets.lean
  Subject:   THE CLIENT AGAINST ANY PACKET: when `recv_worker` is safe.

  The worker trusts a packet whose id is the slot's last id. That id outlives its call, an answer
  may come twice, and `payload_len` is the packet's word; so a packet can make the worker read past
  its end, write into the buffer of a call that is over, or wait and resume in an empty slot.

  A packet is `Admissible` when it is dropped, or ends the process, or answers a call in flight that
  no other worker is answering and claims no more bytes than it has. Runs of admissible steps are
  safe, and from any other step a run leads to a state that is not (`safe_iff_admissible`).
-/
import Rdmapp.Rpc.Slots

namespace Rdmapp
namespace Rpc

open Lib

/-! ## 1. Safety -/

/-- Its id is in the slot and its response has not come. -/
def CallPc.inFlight : CallPc → Bool
  | .fill | .post | .sending | .suspend | .waiting => true
  | _ => false

/-- The slot the worker deals with. -/
def WorkerPc.slot : WorkerPc → Option Nat
  | .matched i | .waking i => some i
  | _ => none

/-- What no packet may make the client do. -/
structure Safe (o : ByteOrder) (s : Client) : Prop where
  /-- The copy stays within the packet. -/
  reads : ∀ w i, (s.workers w).pc = .matched i →
    headerSize + s.copyLen o w i ≤ (s.workers w).nbytes
  /-- It goes into the buffer of the call in flight with the packet's id. -/
  writes : ∀ w i, (s.workers w).pc = .matched i → ∃ c, (s.slots i).userRespBuffer = some c ∧
    (s.calls c).pc.inFlight = true ∧ (s.calls c).reqId = s.recvId o w
  /-- A worker waits for the waiter of a slot, or resumes it, only for a call in flight there. -/
  waits : ∀ w i, (s.workers w).pc.slot = some i → ∃ c,
    (s.calls c).pc.inFlight = true ∧ (s.calls c).slotIdx = i
  once : ∀ c, (s.calls c).resumed ≤ 1
  resumes : s.fault ≠ some .staleResume

/-- The packet of worker `w` answers call `c`: the call is in flight under the packet's id, no other
    worker is answering it, and the bytes copied are the packet's. -/
structure AnswersCall (o : ByteOrder) (s : Client) (w c : Nat) : Prop where
  inFlight : (s.calls c).pc.inFlight = true
  slotIdx : (s.calls c).slotIdx = slotOf (s.recvId o w)
  reqId : (s.calls c).reqId = s.recvId o w
  alone : ∀ v, (s.workers v).pc.slot ≠ some (s.calls c).slotIdx
  size : headerSize + min (s.header o w).payloadLen.toNat (s.calls c).respBuffer.length ≤
    (s.workers w).nbytes

/-- The steps that keep the client safe: a packet is too short, or names no slot, or has another id
    than the slot, or answers a call; and no send fails whose answer is being given. -/
def Admissible (o : ByteOrder) (m : Nat) (s : Client) : Action → Prop
  | .check w => (s.workers w).nbytes < headerSize ∨ m ≤ slotOf (s.recvId o w) ∨
      (s.slots (slotOf (s.recvId o w))).expectedReqId ≠ s.recvId o w ∨ ∃ c, AnswersCall o s w c
  | .post c false | .sendDone c false => ∀ w, (s.workers w).pc.slot ≠ some (s.calls c).slotIdx
  | _ => True

/-! ## 2. The invariant -/

/-- Worker `w` answers call `c` in slot `i`. -/
structure Hand (o : ByteOrder) (s : Client) (w i c : Nat) : Prop where
  inFlight : (s.calls c).pc.inFlight = true
  slotIdx : (s.calls c).slotIdx = i
  reqId : (s.calls c).reqId = s.recvId o w
  size : (s.workers w).pc = .matched i →
    headerSize + min (s.header o w).payloadLen.toNat (s.calls c).respBuffer.length ≤
      (s.workers w).nbytes

/-- Each worker that deals with a slot answers the call in flight there, alone. -/
structure PacketInv (o : ByteOrder) (m : Nat) (s : Client) : Prop where
  inv : Inv m s
  hand : ∀ w i, (s.workers w).pc.slot = some i → ∃ c, Hand o s w i c
  alone : ∀ v w i, (s.workers v).pc.slot = some i → (s.workers w).pc.slot = some i → v = w
  resumed : ∀ c, (s.calls c).resumed ≤ if (s.calls c).pc.past then 1 else 0
  resumes : s.fault ≠ some .staleResume

theorem holds_of_inFlight {p : CallPc} (h : p.inFlight = true) : p.holds = true := by
  cases p <;> first | rfl | cases h

theorem buffered_of_inFlight {p : CallPc} (h : p.inFlight = true) : p.buffered = true := by
  cases p <;> first | rfl | cases h

theorem not_past_of_inFlight {p : CallPc} (h : p.inFlight = true) : p.past = false := by
  cases p <;> first | rfl | cases h

theorem cleared_of_inFlight {p : CallPc} (h : p.inFlight = true) (hw : p ≠ .waiting) :
    p.cleared = true := by
  cases p <;> first | exact absurd rfl hw | rfl | cases h

section Packets

variable {o : ByteOrder} {m : Nat} {s t : Client} {c w i : Nat}

theorem slot_matched (h : (s.workers w).pc = .matched i) : (s.workers w).pc.slot = some i := by
  rw [h]
  rfl

theorem packetInv_start (m : Nat) : PacketInv o m (Client.start m) where
  inv := inv_start m
  hand w i h := by
    have hn : (if w < m then WorkerPc.post else .exited).slot = none := by
      split <;> rfl
    cases hn.symm.trans h
  alone v w i h := by
    have hn : (if v < m then WorkerPc.post else .exited).slot = none := by
      split <;> rfl
    cases hn.symm.trans h
  resumed _ := Nat.le_refl 0
  resumes := nofun

/-- The buffer of the slot is the call's. -/
theorem Hand.buffer (h : Hand o s w i c) (hi : Inv m s) : (s.slots i).userRespBuffer = some c := by
  rw [← h.slotIdx]
  exact (hi.own c (holds_of_inFlight h.inFlight)).buffered (buffered_of_inFlight h.inFlight)

theorem Hand.copyLen (h : Hand o s w i c) (hi : Inv m s) :
    s.copyLen o w i = min (s.header o w).payloadLen.toNat (s.calls c).respBuffer.length := by
  unfold Client.copyLen Client.respSize
  rw [h.buffer hi]

/-- What the invariant says is safe. -/
theorem PacketInv.safe (h : PacketInv o m s) : Safe o s where
  reads w i hp := by
    obtain ⟨c, hc⟩ := h.hand w i (slot_matched hp)
    rw [hc.copyLen h.inv]
    exact hc.size hp
  writes w i hp := by
    obtain ⟨c, hc⟩ := h.hand w i (slot_matched hp)
    exact ⟨c, hc.buffer h.inv, hc.inFlight, hc.reqId⟩
  waits w i hp := by
    obtain ⟨c, hc⟩ := h.hand w i hp
    exact ⟨c, hc.inFlight, hc.slotIdx⟩
  once c := (h.resumed c).trans (by split <;> decide)
  resumes := h.resumes

/-! ## 3. Every admissible step keeps it -/

/-- A statement of call `c`, which stays in flight if a worker is answering it. -/
theorem PacketInv.callTurn (h : PacketInv o m s) (hinv : Inv m t)
    (hcalls : ∀ d, d ≠ c → t.calls d = s.calls d) (hworkers : t.workers = s.workers)
    (hpool : t.recvBufferPool = s.recvBufferPool) (hfault : t.fault = s.fault)
    (hc : ∀ w i, (s.workers w).pc.slot = some i → (s.calls c).pc.inFlight = true →
      (s.calls c).slotIdx = i → (t.calls c).pc.inFlight = true ∧
        (t.calls c).slotIdx = (s.calls c).slotIdx ∧ (t.calls c).reqId = (s.calls c).reqId ∧
        (t.calls c).respBuffer = (s.calls c).respBuffer)
    (hresumed : (t.calls c).resumed ≤ if (t.calls c).pc.past then 1 else 0) : PacketInv o m t where
  inv := hinv
  hand w i hp := by
    rw [hworkers] at hp
    obtain ⟨d, hd⟩ := h.hand w i hp
    have hheader : t.header o w = s.header o w := by
      unfold Client.header
      rw [hpool]
    have hsame : (t.calls d).pc.inFlight = true ∧ (t.calls d).slotIdx = (s.calls d).slotIdx ∧
        (t.calls d).reqId = (s.calls d).reqId ∧
        (t.calls d).respBuffer = (s.calls d).respBuffer := by
      rcases eq_or_ne d c with rfl | hne
      · exact hc w i hp hd.inFlight hd.slotIdx
      · rw [hcalls d hne]
        exact ⟨hd.inFlight, rfl, rfl, rfl⟩
    obtain ⟨hfly, hslot, hid, hbuffer⟩ := hsame
    refine ⟨d, hfly, hslot.trans hd.slotIdx, ?_, ?_⟩
    · unfold Client.recvId
      rw [hheader]
      exact hid.trans hd.reqId
    · rw [hworkers, hheader, hbuffer]
      exact hd.size
  alone := by
    rw [hworkers]
    exact h.alone
  resumed d := by
    rcases eq_or_ne d c with rfl | hne
    · exact hresumed
    · rw [hcalls d hne]
      exact h.resumed d
  resumes := hfault ▸ h.resumes

/-- A statement of worker `w`. -/
theorem PacketInv.workerTurn (h : PacketInv o m s) (hinv : Inv m t)
    (hcalls : ∀ d, (t.calls d).pc = (s.calls d).pc ∧ (t.calls d).slotIdx = (s.calls d).slotIdx ∧
      (t.calls d).reqId = (s.calls d).reqId ∧ (t.calls d).resumed = (s.calls d).resumed ∧
      (t.calls d).respBuffer.length = (s.calls d).respBuffer.length)
    (hworkers : ∀ v, v ≠ w → t.workers v = s.workers v)
    (hheader : ∀ v, v ≠ w → t.header o v = s.header o v)
    (hhand : ∀ i, (t.workers w).pc.slot = some i →
      (∃ c, Hand o t w i c) ∧ ∀ v, v ≠ w → (s.workers v).pc.slot ≠ some i)
    (hfault : t.fault ≠ some .staleResume) : PacketInv o m t where
  inv := hinv
  hand v i hp := by
    rcases eq_or_ne v w with rfl | hne
    · exact (hhand i hp).1
    · rw [hworkers v hne] at hp
      obtain ⟨d, hd⟩ := h.hand v i hp
      obtain ⟨hpc, hslot, hid, -, hlen⟩ := hcalls d
      refine ⟨d, ?_, hslot.trans hd.slotIdx, ?_, ?_⟩
      · rw [hpc]
        exact hd.inFlight
      · unfold Client.recvId
        rw [hheader v hne]
        exact hid.trans hd.reqId
      · rw [hworkers v hne, hheader v hne, hlen]
        exact hd.size
  alone v v' i hp hp' := by
    rcases eq_or_ne v w with rfl | hne
    · by_contra hne'
      have hv' : v' ≠ v := fun he => hne' he.symm
      rw [hworkers v' hv'] at hp'
      exact (hhand i hp).2 v' hv' hp'
    · rw [hworkers v hne] at hp
      rcases eq_or_ne v' w with rfl | hne'
      · exact absurd hp ((hhand i hp').2 v hne)
      · rw [hworkers v' hne'] at hp'
        exact h.alone v v' i hp hp'
  resumed d := by
    rw [(hcalls d).1, (hcalls d).2.2.2.1]
    exact h.resumed d
  resumes := hfault

/-- A worker goes on to a statement that deals with no slot. -/
theorem PacketInv.putDown (h : PacketInv o m s) {z : Worker} (hz : z.pc.slot = none) :
    PacketInv o m (s.setWorker w z) := by
  refine h.workerTurn (w := w) (h.inv.congr rfl (fun _ => ⟨rfl, rfl, rfl, rfl⟩)
    fun _ => ⟨rfl, rfl, rfl⟩) (fun _ => ⟨rfl, rfl, rfl, rfl, rfl⟩)
    (fun v hv => Function.update_of_ne hv _ _) (fun _ _ => rfl) (fun i hi => ?_) h.resumes
  rw [setWorker_self, hz] at hi
  cases hi

/-- The packet is in the buffer. -/
theorem PacketInv.recvDone_step (h : PacketInv o m s) {bytes : List UInt8}
    (hb : bytes.length ≤ kRecvBufferSize) :
    PacketInv o m (next o m s (.recvDone w (some bytes))) := by
  refine h.workerTurn (w := w) (h.inv.congr rfl (fun _ => ⟨rfl, rfl, rfl, rfl⟩)
    fun _ => ⟨rfl, rfl, rfl⟩) (fun _ => ⟨rfl, rfl, rfl, rfl, rfl⟩)
    (fun v hv => Function.update_of_ne hv _ _) (fun v hv => header_write_of_ne hb hv)
    (fun i hi => ?_) h.resumes
  rw [show (next o m s (.recvDone w (some bytes))).workers w = ⟨.received, bytes.length⟩ from
    Function.update_self w _ s.workers] at hi
  cases hi

/-- The packet is checked. -/
theorem PacketInv.check_step (h : PacketInv o m s)
    (hc : Admissible o m s (.check w)) : PacketInv o m (next o m s (.check w)) := by
  show PacketInv o m (s.checked o m w)
  have hcheck := checked_spec (o := o) (m := m) s w
  generalize s.checked o m w = t at hcheck
  cases hcheck with
  | skip => exact h.putDown rfl
  | mismatch =>
    refine h.workerTurn (w := w) (h.inv.congr rfl (fun _ => ⟨rfl, rfl, rfl, rfl⟩)
      fun _ => ⟨rfl, rfl, rfl⟩) (fun _ => ⟨rfl, rfl, rfl, rfl, rfl⟩) (fun _ _ => rfl)
      (fun _ _ => rfl) (fun i hi => ⟨?_, fun v hv hp => hv (h.alone v w i hp hi)⟩) nofun
    obtain ⟨c, hc⟩ := h.hand w i hi
    exact ⟨c, hc.inFlight, hc.slotIdx, hc.reqId, hc.size⟩
  | matched hn hlt he =>
    obtain ⟨c, hc⟩ : ∃ c, AnswersCall o s w c := by
      rcases hc with hc | hc | hc | hc
      · omega
      · omega
      · exact absurd he hc
      · exact hc
    have hz : (s.setWorker w
        { s.workers w with pc := .matched (slotOf (s.recvId o w)) }).workers w =
        { s.workers w with pc := .matched (slotOf (s.recvId o w)) } :=
      Function.update_self w _ s.workers
    refine h.workerTurn (w := w) (h.inv.congr rfl (fun _ => ⟨rfl, rfl, rfl, rfl⟩)
      fun _ => ⟨rfl, rfl, rfl⟩) (fun _ => ⟨rfl, rfl, rfl, rfl, rfl⟩)
      (fun v hv => Function.update_of_ne hv _ _) (fun _ _ => rfl) (fun i hi => ?_) h.resumes
    rw [hz] at hi
    have hi' : slotOf (s.recvId o w) = i := Option.some.inj hi
    refine ⟨⟨c, hc.inFlight, hc.slotIdx.trans hi', hc.reqId, fun _ => ?_⟩, fun v _ => ?_⟩
    · rw [hz]
      exact hc.size
    · rw [← hi', ← hc.slotIdx]
      exact hc.alone v

/-- The payload is copied. -/
theorem PacketInv.copy_step (h : PacketInv o m s) (hinv : Inv m (next o m s (.copy w i)))
    (hp : (s.workers w).pc = .matched i) : PacketInv o m (next o m s (.copy w i)) := by
  obtain ⟨f, hf, hcalls⟩ := copied_eq (o := o) s w i
  have hnext : next o m s (.copy w i) = (Client.setSlot { s with calls := f } i
      { s.slots i with actualLen := s.copyLen o w i }).setWorker w
        { s.workers w with pc := .waking i } := by
    rw [← hf]
    rfl
  rw [hnext] at hinv ⊢
  obtain ⟨c, hc⟩ := h.hand w i (slot_matched hp)
  refine h.workerTurn (w := w) hinv (fun d => ?_) (fun v hv => setWorker_of_ne _ hv _)
    (fun _ _ => rfl) (fun j hj => ?_) h.resumes
  · obtain ⟨b, hb, hlen⟩ := hcalls d
    show (f d).pc = _ ∧ (f d).slotIdx = _ ∧ (f d).reqId = _ ∧ (f d).resumed = _ ∧
      (f d).respBuffer.length = _
    rw [hb]
    exact ⟨rfl, rfl, rfl, rfl, hlen⟩
  · rw [setWorker_self] at hj
    have hj' : i = j := Option.some.inj hj
    subst hj'
    obtain ⟨b, hb, -⟩ := hcalls c
    refine ⟨⟨c, ?_, ?_, ?_, fun hn => ?_⟩, fun v hv hv' => hv (h.alone v w i hv' (slot_matched hp))⟩
    · show (f c).pc.inFlight = true
      rw [hb]
      exact hc.inFlight
    · show (f c).slotIdx = i
      rw [hb]
      exact hc.slotIdx
    · show (f c).reqId = s.recvId o w
      rw [hb]
      exact hc.reqId
    · rw [setWorker_self] at hn
      cases hn

/-- The call is resumed. -/
theorem PacketInv.wake_step (h : PacketInv o m s) {k : Nat}
    (hinv : Inv m (next o m s (.wake w i k)))
    (hp : (s.workers w).pc = .waking i) (hk : (s.slots i).waiter = some k) :
    PacketInv o m (next o m s (.wake w i k)) := by
  have hslot : (s.workers w).pc.slot = some i := by
    rw [hp]
    rfl
  obtain ⟨c, hc⟩ := h.hand w i hslot
  -- the waiter is the call the packet answers
  have hown := h.inv.own c (holds_of_inFlight hc.inFlight)
  rw [hc.slotIdx] at hown
  have hw : (s.calls c).pc = .waiting := by
    by_contra hne
    rw [hown.cleared (cleared_of_inFlight hc.inFlight hne)] at hk
    cases hk
  rw [hown.waiting hw, Option.some.injEq] at hk
  subst hk
  have hnext : next o m s (.wake w i c) =
      (s.setWorker w { s.workers w with pc := .post }).setCall c
        { s.calls c with pc := .resume, resumed := (s.calls c).resumed + 1 } := by
    show (s.resumed c).setWorker w _ = _
    unfold Client.resumed
    rw [if_pos hw]
    rfl
  rw [hnext] at hinv ⊢
  have hput : PacketInv o m (s.setWorker w { s.workers w with pc := .post }) := h.putDown rfl
  refine hput.callTurn (c := c) hinv (fun d hd => setCall_of_ne _ hd _) rfl rfl rfl
    (fun v j hv _ hj => ?_) ?_
  · -- its answer was in no other hands
    have hji : i = j := hc.slotIdx.symm.trans hj
    subst hji
    rcases eq_or_ne v w with rfl | hne
    · rw [setWorker_self] at hv
      cases hv
    · rw [setWorker_of_ne _ hne] at hv
      exact absurd (h.alone v w i hv hslot) hne
  · have hr := h.resumed c
    rw [hw] at hr
    rw [setCall_self]
    exact Nat.succ_le_succ hr

/-- What only call `c` and its slot are changed by. -/
structure CallStep (s t : Client) (c : Nat) (x : Call) : Prop where
  calls : t.calls = Function.update s.calls c x
  workers : t.workers = s.workers
  pool : t.recvBufferPool = s.recvBufferPool
  fault : t.fault = s.fault

/-- A statement of a call that no worker is answering. -/
theorem PacketInv.unanswered (h : PacketInv o m s) {x : Call} (ht : CallStep s t c x)
    (hinv : Inv m t)
    (hc : (s.calls c).pc.inFlight = false ∨
      ∀ w, (s.workers w).pc.slot ≠ some (s.calls c).slotIdx)
    (hresumed : x.resumed ≤ (s.calls c).resumed)
    (hpast : (s.calls c).pc.past = true → x.pc.past = true) : PacketInv o m t := by
  refine h.callTurn (c := c) hinv (fun d hd => ?_) ht.workers ht.pool ht.fault ?_ ?_
  · rw [ht.calls, Function.update_of_ne hd]
  · intro w i hw hf hi
    rcases hc with hc | hc
    · cases hc.symm.trans hf
    · exact absurd (hi ▸ hw) (hc w)
  · rw [ht.calls, Function.update_self]
    have hr := hresumed.trans (h.resumed c)
    by_cases hp : (s.calls c).pc.past = true
    · rw [if_pos hp] at hr
      rw [if_pos (hpast hp)]
      exact hr
    · rw [if_neg hp] at hr
      exact hr.trans (Nat.zero_le _)

/-- A statement of a call that is in flight and stays there. -/
theorem PacketInv.inFlight (h : PacketInv o m s) {p : CallPc}
    (ht : CallStep s t c { s.calls c with pc := p }) (hinv : Inv m t)
    (hc : (s.calls c).pc.inFlight = true) (hp : p.inFlight = true) : PacketInv o m t := by
  have hx : t.calls c = { s.calls c with pc := p } := by
    rw [ht.calls, Function.update_self]
  refine h.callTurn (c := c) hinv (fun d hd => ?_) ht.workers ht.pool ht.fault ?_ ?_
  · rw [ht.calls, Function.update_of_ne hd]
  · intro _ _ _ _ _
    rw [hx]
    exact ⟨hp, rfl, rfl, rfl⟩
  · have hr := h.resumed c
    rw [not_past_of_inFlight hc] at hr
    rw [hx, not_past_of_inFlight hp]
    exact hr

/-- **An admissible step keeps every worker to the call it answers.** -/
theorem packetInv_step {a : Action} (h : PacketInv o m s) (hc : Admissible o m s a)
    (ht : (machine o m).step s a = some t) : PacketInv o m t := by
  have hinv := inv_step h.inv ht
  obtain ⟨⟨-, he⟩, rfl⟩ := Machine.guarded_step_eq_some.mp ht
  have early : ∀ {c : Nat} {p : CallPc}, (s.calls c).pc = p → p.inFlight = false →
      (s.calls c).pc.inFlight = false ∨ ∀ w, (s.workers w).pc.slot ≠ some (s.calls c).slotIdx :=
    fun hp hf => Or.inl (hp ▸ hf)
  have past : ∀ {c : Nat} {p : CallPc} {q : CallPc}, (s.calls c).pc = p → p.past = false →
      (s.calls c).pc.past = true → q.past = true := by
    intro c p q hp hf hq
    rw [hp, hf] at hq
    cases hq
  cases a with
  | call c reqData respBuffer =>
    exact h.unanswered (c := c) ⟨rfl, rfl, rfl, rfl⟩ hinv (early he rfl) (Nat.zero_le _) (past he rfl)
  | dequeue c i =>
    exact h.unanswered (c := c) ⟨rfl, rfl, rfl, rfl⟩ hinv (early he.1 rfl) (Nat.le_refl _)
      (past he.1 rfl)
  | fetchAdd c =>
    exact h.unanswered (c := c) ⟨rfl, rfl, rfl, rfl⟩ hinv (early he rfl) (Nat.le_refl _) (past he rfl)
  | storeWaiter c =>
    exact h.unanswered (c := c) ⟨rfl, rfl, rfl, rfl⟩ hinv (early he rfl) (Nat.le_refl _) (past he rfl)
  | storeBuffer c =>
    exact h.unanswered (c := c) ⟨rfl, rfl, rfl, rfl⟩ hinv (early he rfl) (Nat.le_refl _) (past he rfl)
  | storeId c =>
    exact h.unanswered (c := c) ⟨rfl, rfl, rfl, rfl⟩ hinv (early he rfl) (Nat.le_refl _) (past he rfl)
  | fill c =>
    have hp : (s.calls c).pc = .fill := he
    exact h.inFlight (c := c) ⟨rfl, rfl, rfl, rfl⟩ hinv (by rw [hp]; rfl) rfl
  | post c ok =>
    have hp : (s.calls c).pc = .post := he
    cases ok with
    | true => exact h.inFlight (c := c) ⟨rfl, rfl, rfl, rfl⟩ hinv (by rw [hp]; rfl) rfl
    | false =>
      exact h.unanswered (c := c) ⟨rfl, rfl, rfl, rfl⟩ hinv (Or.inr hc) (Nat.le_refl _)
        fun _ => rfl
  | sendDone c ok =>
    have hp : (s.calls c).pc = .sending := he
    cases ok with
    | true => exact h.inFlight (c := c) ⟨rfl, rfl, rfl, rfl⟩ hinv (by rw [hp]; rfl) rfl
    | false =>
      exact h.unanswered (c := c) ⟨rfl, rfl, rfl, rfl⟩ hinv (Or.inr hc) (Nat.le_refl _)
        fun _ => rfl
  | suspend c =>
    have hp : (s.calls c).pc = .suspend := he
    exact h.inFlight (c := c) ⟨rfl, rfl, rfl, rfl⟩ hinv (by rw [hp]; rfl) rfl
  | resume c =>
    exact h.unanswered (c := c) ⟨rfl, rfl, rfl, rfl⟩ hinv (early he rfl) (Nat.le_refl _)
      fun _ => rfl
  | enqueue c =>
    exact h.unanswered (c := c) ⟨rfl, rfl, rfl, rfl⟩ hinv (early he rfl) (Nat.le_refl _)
      fun _ => rfl
  | postRecv w ok => cases ok <;> exact h.putDown rfl
  | recvDone w packet =>
    cases packet with
    | none => exact h.putDown rfl
    | some bytes => exact h.recvDone_step (he.2 bytes rfl)
  | check w => exact h.check_step hc
  | copy w i => exact h.copy_step hinv he
  | wake w i k => exact h.wake_step hinv he.1 he.2

theorem packetInv_reach (h : (machine o m).ReachIf (Admissible o m) (Client.start m) s) :
    PacketInv o m s :=
  h.invariant (packetInv_start m) fun _ _ _ hi hc ht => packetInv_step hi hc ht

/-! ## 4. The other steps -/

theorem reach_next {a : Action} (hf : s.fault = none) (he : Enabled s a) :
    (machine o m).Reach s (next o m s a) :=
  .step a .start trivial (Machine.guarded_step_eq_some.mpr ⟨⟨hf, he⟩, rfl⟩)

/-- A worker in the slot of a call that is not in flight any more. -/
theorem not_safe_of_gone (hi : Inv m s) (hw : (s.workers w).pc.slot = some (s.calls c).slotIdx)
    (hh : (s.calls c).pc.holds = true) (hc : (s.calls c).pc.inFlight = false) : ¬ Safe o s := by
  intro hs
  obtain ⟨d, hd, he⟩ := hs.waits w _ hw
  obtain rfl := hi.eq_of_slot hh (holds_of_inFlight hd) he
  cases hc.symm.trans hd

/-- Two workers answer a waiting call: the first resumes it. -/
theorem unsafe_of_waking (hi : Inv m s) (hf : s.fault = none) {v : Nat} (hne : v ≠ w)
    (hv : (s.workers v).pc = .waking (s.calls c).slotIdx)
    (hw : (s.workers w).pc.slot = some (s.calls c).slotIdx) (hc : (s.calls c).pc = .waiting) :
    ∃ u, (machine o m).Reach s u ∧ ¬ Safe o u := by
  have hk := (hi.own c (by rw [hc]; rfl)).waiting hc
  have hr : (machine o m).Reach s (next o m s (.wake v (s.calls c).slotIdx c)) :=
    reach_next hf ⟨hv, hk⟩
  have hnext : next o m s (.wake v (s.calls c).slotIdx c) =
      (s.setWorker v { s.workers v with pc := .post }).setCall c
        { s.calls c with pc := .resume, resumed := (s.calls c).resumed + 1 } := by
    show (s.resumed c).setWorker v _ = _
    unfold Client.resumed
    rw [if_pos hc]
    rfl
  have hi' := hr.invariant hi fun _ _ _ hi _ ht => inv_step hi ht
  rw [hnext] at hr hi'
  refine ⟨_, hr, not_safe_of_gone (w := w) (c := c) hi' ?_ ?_ ?_⟩
  · rw [setCall_self]
    show ((s.setWorker v _).workers w).pc.slot = _
    rw [setWorker_of_ne _ hne.symm]
    exact hw
  · rw [setCall_self]
    rfl
  · rw [setCall_self]
    rfl

/-- Two workers answer a waiting call: one of them may have to copy first. -/
theorem unsafe_of_waiting (hi : Inv m s) (hf : s.fault = none) {v : Nat} (hne : v ≠ w)
    (hv : (s.workers v).pc.slot = some (s.calls c).slotIdx)
    (hw : (s.workers w).pc.slot = some (s.calls c).slotIdx) (hc : (s.calls c).pc = .waiting) :
    ∃ u, (machine o m).Reach s u ∧ ¬ Safe o u := by
  cases hp : (s.workers v).pc with
  | matched i =>
    rw [hp] at hv
    obtain rfl : i = (s.calls c).slotIdx := Option.some.inj hv
    have hr : (machine o m).Reach s (next o m s (.copy v (s.calls c).slotIdx)) :=
      reach_next hf hp
    have hi' := hr.invariant hi fun _ _ _ hi _ ht => inv_step hi ht
    obtain ⟨f, hcopy, hcalls⟩ := copied_eq (o := o) s v (s.calls c).slotIdx
    obtain ⟨b, hb, -⟩ := hcalls c
    have hx : (next o m s (.copy v (s.calls c).slotIdx)).calls c =
        { s.calls c with respBuffer := b } := by
      show (s.copied o v (s.calls c).slotIdx).calls c = _
      rw [hcopy]
      exact hb
    have hworkers : (next o m s (.copy v (s.calls c).slotIdx)).workers =
        Function.update s.workers v
          { s.workers v with pc := .waking (s.calls c).slotIdx } := by
      show Function.update (s.copied o v (s.calls c).slotIdx).workers v _ = _
      rw [hcopy]
    have hf' : (next o m s (.copy v (s.calls c).slotIdx)).fault = none := by
      show (s.copied o v (s.calls c).slotIdx).fault = none
      rw [hcopy]
      exact hf
    obtain ⟨u, hu, hn⟩ := unsafe_of_waking (o := o) (w := w) (c := c) hi' hf' hne
      (by rw [hworkers, Function.update_self, hx])
      (by rw [hworkers, Function.update_of_ne hne.symm, hx]; exact hw) (by rw [hx]; exact hc)
    exact ⟨u, hr.trans hu, hn⟩
  | waking i =>
    rw [hp] at hv
    exact unsafe_of_waking hi hf hne (hp.trans (congrArg _ (Option.some.inj hv))) hw hc
  | _ =>
    rw [hp] at hv
    cases hv

/-- The send fails while a worker gives the answer. -/
theorem not_safe_of_failed (hi : Inv m (s.setCall c { s.calls c with pc := .enqueue }))
    (hw : (s.workers w).pc.slot = some (s.calls c).slotIdx) :
    ¬ Safe o (s.setCall c { s.calls c with pc := .enqueue }) := by
  refine not_safe_of_gone (w := w) (c := c) hi ?_ ?_ ?_
  · rw [setCall_self]
    exact hw
  · rw [setCall_self]
    rfl
  · rw [setCall_self]
    rfl

/-- Two workers answer one call in flight: it is resumed by one, or gives up. -/
theorem unsafe_of_two (hi : Inv m s) (hf : s.fault = none) {v : Nat} (hne : v ≠ w)
    (hv : (s.workers v).pc.slot = some (s.calls c).slotIdx)
    (hw : (s.workers w).pc.slot = some (s.calls c).slotIdx)
    (hc : (s.calls c).pc.inFlight = true) : ∃ u, (machine o m).Reach s u ∧ ¬ Safe o u := by
  have inv : ∀ {t}, (machine o m).Reach s t → Inv m t := fun hr =>
    hr.invariant hi fun _ _ _ hi _ ht => inv_step hi ht
  cases hp : (s.calls c).pc with
  | fill =>
    have hr : (machine o m).Reach s (next o m s (.fill c)) := reach_next hf hp
    have hx : (next o m s (.fill c)).calls c = { s.calls c with pc := .post } :=
      setCall_self _ _ _
    have hr' : (machine o m).Reach (next o m s (.fill c))
        (next o m (next o m s (.fill c)) (.post c false)) :=
      reach_next hf (congrArg Call.pc hx)
    refine ⟨_, hr.trans hr', not_safe_of_failed (w := w) (inv (hr.trans hr')) ?_⟩
    rw [hx]
    exact hw
  | post =>
    have hr : (machine o m).Reach s (next o m s (.post c false)) := reach_next hf hp
    exact ⟨_, hr, not_safe_of_failed (inv hr) hw⟩
  | sending =>
    have hr : (machine o m).Reach s (next o m s (.sendDone c false)) := reach_next hf hp
    exact ⟨_, hr, not_safe_of_failed (inv hr) hw⟩
  | suspend =>
    have hr : (machine o m).Reach s (next o m s (.suspend c)) := reach_next hf hp
    have hx : (next o m s (.suspend c)).calls c = { s.calls c with pc := .waiting } :=
      setCall_self _ _ _
    obtain ⟨u, hu, hn⟩ := unsafe_of_waiting (o := o) (w := w) (c := c) (inv hr) hf hne
      (by rw [hx]; exact hv) (by rw [hx]; exact hw) (by rw [hx])
    exact ⟨u, hr.trans hu, hn⟩
  | waiting => exact unsafe_of_waiting hi hf hne hv hw hp
  | _ =>
    rw [hp] at hc
    cases hc

/-- A packet that is taken although it answers no call. -/
theorem unsafe_of_check (hm : m < 2 ^ 32) (h : PacketInv o m s) (hf : s.fault = none)
    (hp : (s.workers w).pc = .received) (hc : ¬ Admissible o m s (.check w)) :
    ∃ u, (machine o m).Reach (next o m s (.check w)) u ∧ ¬ Safe o u := by
  obtain ⟨hn, hc⟩ := not_or.mp hc
  obtain ⟨hslot, hc⟩ := not_or.mp hc
  obtain ⟨hid, hc⟩ := not_or.mp hc
  show ∃ u, (machine o m).Reach (s.checked o m w) u ∧ ¬ Safe o u
  have hcheck := checked_spec (o := o) (m := m) s w
  generalize s.checked o m w = t at hcheck
  cases hcheck with
  | skip hs => exact absurd hs (not_or.mpr ⟨hn, hslot⟩)
  | mismatch _ _ he => exact absurd he hid
  | matched =>
    by_cases hs : Safe o
      (s.setWorker w { s.workers w with pc := .matched (slotOf (s.recvId o w)) })
    case neg => exact ⟨_, .start, hs⟩
    -- the packet fits a call in flight: then it is not the only one
    have hpc : ((s.setWorker w
        { s.workers w with pc := .matched (slotOf (s.recvId o w)) }).workers w).pc =
        .matched (slotOf (s.recvId o w)) := by rw [setWorker_self]
    have hreads := hs.reads w _ hpc
    obtain ⟨c, hbuffer, hfly, hreq⟩ := hs.writes w _ hpc
    have hnum : (s.calls c).pc.numbered = true := by
      revert hfly
      show (s.calls c).pc.inFlight = true → _
      cases (s.calls c).pc <;> first | exact fun _ => rfl | exact nofun
    have hown : (s.calls c).slotIdx = slotOf (s.recvId o w) := by
      rw [← show (s.calls c).reqId = s.recvId o w from hreq, (h.inv.numbered c hnum).1,
        slotOf_encodeReqId _ ((h.inv.numbered c hnum).2.trans hm)]
    have hsize : headerSize + min (s.header o w).payloadLen.toNat (s.calls c).respBuffer.length ≤
        (s.workers w).nbytes := by
      unfold Client.copyLen Client.respSize at hreads
      rw [hbuffer, setWorker_self] at hreads
      exact hreads
    obtain ⟨v, hv⟩ : ∃ v, (s.workers v).pc.slot = some (s.calls c).slotIdx := by
      by_contra hnone
      exact hc ⟨c, hfly, hown, hreq, not_exists.mp hnone, hsize⟩
    have hne : v ≠ w := by
      intro he
      rw [he, hp] at hv
      cases hv
    refine unsafe_of_two (w := w) (c := c) (h.inv.congr rfl (fun _ => ⟨rfl, rfl, rfl, rfl⟩)
      fun _ => ⟨rfl, rfl, rfl⟩) hf hne ?_ ?_ hfly
    · rw [setWorker_of_ne _ hne]
      exact hv
    · rw [setWorker_self]
      exact congrArg some hown.symm

/-- From a step that is not admissible a run leads to a state that is not safe. -/
theorem unsafe_of_step (hm : m < 2 ^ 32) {a : Action} (h : PacketInv o m s)
    (hc : ¬ Admissible o m s a) (ht : (machine o m).step s a = some t) :
    ∃ u, (machine o m).Reach t u ∧ ¬ Safe o u := by
  have hinv := inv_step h.inv ht
  obtain ⟨⟨hf, he⟩, rfl⟩ := Machine.guarded_step_eq_some.mp ht
  cases a with
  | check w => exact unsafe_of_check hm h hf he hc
  | post c ok =>
    cases ok with
    | true => exact absurd trivial hc
    | false =>
      obtain ⟨w, hw⟩ := not_forall_not.mp hc
      exact ⟨_, .start, not_safe_of_failed hinv hw⟩
  | sendDone c ok =>
    cases ok with
    | true => exact absurd trivial hc
    | false =>
      obtain ⟨w, hw⟩ := not_forall_not.mp hc
      exact ⟨_, .start, not_safe_of_failed hinv hw⟩
  | _ => exact absurd trivial hc

/-- **The packets the client is safe against.** Along admissible steps every state is safe: no
    packet byte is read beyond those received, only the buffer of the call in flight with the
    packet's id is written, no worker waits for or resumes the waiter of a slot whose call is not in
    flight, and each coroutine is resumed at most once. From the first step that is not admissible a
    run leads to a state that is not safe. -/
theorem safe_iff_admissible (o : ByteOrder) (m : Nat) (hm : m < 2 ^ 32) :
    (∀ s, (machine o m).ReachIf (Admissible o m) (Client.start m) s → Safe o s) ∧
    ∀ s t a, (machine o m).ReachIf (Admissible o m) (Client.start m) s →
      (machine o m).step s a = some t → ¬ Admissible o m s a →
      ∃ u, (machine o m).Reach t u ∧ ¬ Safe o u :=
  ⟨fun _ h => (packetInv_reach h).safe, fun _ _ _ h ht hc =>
    unsafe_of_step hm (packetInv_reach h) hc ht⟩

end Packets

/-! ## 5. Packets -/

/-- The statements that are admissible in every state. -/
def Action.always : Action → Bool
  | .check _ | .post _ false | .sendDone _ false => false
  | _ => true

theorem admissible_of_always {o : ByteOrder} {m : Nat} {a : Action} (h : a.always = true)
    (s : Client) : Admissible o m s a := by
  unfold Admissible
  split
  · cases h
  · cases h
  · cases h
  · trivial

/-- A packet of zeros, before any call: slot 0 has never had another id. -/
def zeros : List Action := [.postRecv 0 true, .recvDone 0 (some (List.replicate 16 0))]

/-- A call waits for its answer; and the packet of zeros. -/
theorem safe_iff_admissible_waiting :
    (∃ s, (s.calls 0).pc = .waiting ∧ Safe .little s) ∧
    ∃ s t u, (machine .little 1).run (Client.start 1) zeros = some s ∧
      (machine .little 1).step s (.check 0) = some t ∧ (machine .little 1).Reach t u ∧
      ¬ Safe .little u := by
  obtain ⟨hsafe, hunsafe⟩ := safe_iff_admissible .little 1 (by decide)
  constructor
  · obtain ⟨s, hr, hs⟩ := Machine.exists_reachIf_of_run (M := machine .little 1)
      (C := Admissible .little 1) (s := Client.start 1)
      [.call 0 [7] [0], .dequeue 0 0, .fetchAdd 0, .storeWaiter 0, .storeBuffer 0, .storeId 0,
        .fill 0, .post 0 true, .sendDone 0 true, .suspend 0]
      (fun a ha => admissible_of_always
        (List.all_eq_true.mp (by rfl : List.all _ Action.always = true) a ha))
      (fun s => (s.calls 0).pc = .waiting) (by decide +kernel)
    exact ⟨s, of_decide_eq_true hs, hsafe s hr⟩
  · have hr : (machine .little 1).ReachIf (Admissible .little 1) (Client.start 1) _ :=
      Machine.reachIf_of_run zeros (fun a ha => admissible_of_always
        (List.all_eq_true.mp (by rfl : zeros.all Action.always = true) a ha)) rfl
    obtain ⟨u, hu, hn⟩ := hunsafe _ _ (.check 0) hr rfl fun hc => by
      rcases hc with hshort | hslot | hid | ⟨c, hc⟩
      · exact absurd hshort (by decide)
      · exact absurd hslot (by decide +kernel)
      · exact hid (by decide +kernel)
      · cases (rfl : (CallPc.inFlight .idle) = false).symm.trans hc.inFlight
    exact ⟨_, _, u, rfl, rfl, hu, hn⟩

/-- The packet of zeros is taken for the answer of a call that was never made. -/
theorem zeros_unsafe : ∃ s, (machine .little 1).Reach (Client.start 1) s ∧ ¬ Safe .little s := by
  obtain ⟨s, hr, hs⟩ := Machine.exists_reach_of_run (M := machine .little 1) (s := Client.start 1)
    (zeros ++ [.check 0])
    (fun s => (s.workers 0).pc = .matched 0 ∧ (s.slots 0).userRespBuffer = none)
    (by decide +kernel)
  obtain ⟨hp, hb⟩ := of_decide_eq_true hs
  refine ⟨s, hr, fun hsafe => ?_⟩
  obtain ⟨c, hc, -⟩ := hsafe.writes 0 0 hp
  rw [hb] at hc
  cases hc

end Rpc
end Rdmapp
