/-
  File:      Rdmapp/Rpc/Slots.lean
  Subject:   THE SLOTS OF THE CLIENT, against any queue pair and any peer.

  A slot is free or held by one call (`Pool`); what a call wrote into its slot stays there while it
  holds the slot (`Own`), whatever packets arrive; and its id has its slot in the low half.
-/
import Rdmapp.Lib.Pool
import Rdmapp.Rpc.Client

namespace Rdmapp
namespace Rpc

open Lib

/-! ## 1. Ids -/

theorem encodeReqId_toNat (seq : UInt64) {i : Nat} (h : i < 2 ^ 32) :
    (encodeReqId seq i).toNat = seq.toNat % 2 ^ 32 * 2 ^ 32 + i := by
  have hi : (UInt64.ofNat i).toNat = i := UInt64.toNat_ofNat_of_lt' (by rw [UInt64.size]; omega)
  have hshift : (seq <<< 32).toNat = seq.toNat % 2 ^ 32 * 2 ^ 32 := by
    rw [UInt64.toNat_shiftLeft, Nat.shiftLeft_eq]
    show seq.toNat * 2 ^ 32 % 2 ^ 64 = _
    omega
  unfold encodeReqId
  rw [UInt64.toNat_or, hshift, hi, Nat.mul_comm]
  exact (Nat.two_pow_add_eq_or_of_lt h _).symm

theorem slotOf_eq (recvId : UInt64) : slotOf recvId = recvId.toNat % 2 ^ 32 := by
  unfold slotOf
  rw [UInt64.toNat_toUInt32, UInt64.toNat_and]
  show (recvId.toNat &&& (2 ^ 32 - 1)) % 2 ^ 32 = _
  rw [Nat.and_two_pow_sub_one_eq_mod, Nat.mod_mod]

/-- The slot index is read back from the id. -/
theorem slotOf_encodeReqId (seq : UInt64) {i : Nat} (h : i < 2 ^ 32) :
    slotOf (encodeReqId seq i) = i := by
  rw [slotOf_eq, encodeReqId_toNat seq h]
  omega

/-- Between `try_dequeue` and `enqueue`. -/
def CallPc.holds : CallPc → Bool
  | .idle | .dequeue | .returned => false
  | _ => true

/-- The id is computed. -/
def CallPc.numbered : CallPc → Bool
  | .idle | .dequeue | .fetchAdd => false
  | _ => true

/-- The slot's waiter is zeroed and not yet set. -/
def CallPc.cleared : CallPc → Bool
  | .storeBuffer | .storeId | .fill | .post | .sending | .suspend => true
  | _ => false

/-- The slot has the call's buffer. -/
def CallPc.buffered : CallPc → Bool
  | .storeId => true
  | .fill | .post | .sending | .suspend | .waiting | .resume | .enqueue => true
  | _ => false

/-- The slot has the call's id. -/
def CallPc.identified : CallPc → Bool
  | .fill | .post | .sending | .suspend | .waiting | .resume | .enqueue => true
  | _ => false

/-- Its coroutine has been resumed by a worker. -/
def CallPc.past : CallPc → Bool
  | .resume | .enqueue | .returned => true
  | _ => false

/-- The slot the call holds. -/
def Call.held (x : Call) : Option Nat := if x.pc.holds then some x.slotIdx else none

theorem held_eq_some {x : Call} {i : Nat} :
    x.held = some i ↔ x.pc.holds = true ∧ x.slotIdx = i := by
  unfold Call.held
  by_cases h : x.pc.holds = true
  · rw [if_pos h, Option.some.injEq, and_iff_right h]
  · rw [if_neg h]
    exact iff_of_false (fun hc => nomatch hc) fun hc => h hc.1

theorem held_of_holds {x : Call} (h : x.pc.holds = true) : x.held = some x.slotIdx := if_pos h

theorem held_of_not_holds {x : Call} (h : x.pc.holds = false) : x.held = none := by
  unfold Call.held
  rw [h]
  rfl

theorem holds_of_identified {p : CallPc} (h : p.identified = true) : p.holds = true := by
  cases p <;> first | rfl | cases h

theorem numbered_of_identified {p : CallPc} (h : p.identified = true) : p.numbered = true := by
  cases p <;> first | rfl | cases h

/-! ## 3. The invariant -/

/-- What call `c` wrote into the slot it holds. -/
structure Own (c : Nat) (x : Call) (y : RpcSlot) : Prop where
  cleared : x.pc.cleared = true → y.waiter = none
  waiting : x.pc = .waiting → y.waiter = some c
  buffered : x.pc.buffered = true → y.userRespBuffer = some c
  identified : x.pc.identified = true → y.expectedReqId = x.reqId

/-- The slots are shared out, the ids carry them, and the holders' entries stand. -/
structure Inv (m : Nat) (s : Client) : Prop where
  pool : Pool m s.freeSlots fun c => (s.calls c).held
  numbered : ∀ c, (s.calls c).pc.numbered = true →
    (s.calls c).reqId = encodeReqId (s.calls c).seq (s.calls c).slotIdx ∧ (s.calls c).slotIdx < m
  own : ∀ c, (s.calls c).pc.holds = true →
    Own c (s.calls c) (s.slots (s.calls c).slotIdx)

section Steps

variable {o : ByteOrder} {m : Nat} {s t : Client} {c d : Nat} {x : Call}

theorem inv_start (m : Nat) : Inv m (Client.start m) where
  pool := Pool.start m
  numbered _ h := nomatch h
  own _ h := nomatch h

theorem Inv.slot_lt (h : Inv m s) (hc : (s.calls c).pc.holds = true) : (s.calls c).slotIdx < m :=
  h.pool.held_lt c _ (held_of_holds hc)

/-- Two holders of one slot are one call. -/
theorem Inv.eq_of_slot (h : Inv m s) (hc : (s.calls c).pc.holds = true)
    (hd : (s.calls d).pc.holds = true) (he : (s.calls d).slotIdx = (s.calls c).slotIdx) : d = c :=
  h.pool.inj d c _ (held_of_holds hd) (he ▸ held_of_holds hc)

theorem held_update (calls : Nat → Call) (c : Nat) (x : Call) :
    (fun d => (Function.update calls c x d).held) =
      Function.update (fun d => (calls d).held) c x.held :=
  Function.comp_update Call.held calls c x

/-- A step of call `c` that leaves every other call and every other slot. -/
structure Turn (s t : Client) (c : Nat) (x : Call) : Prop where
  calls : t.calls = Function.update s.calls c x
  slots : ∀ j, j ≠ x.slotIdx → t.slots j = s.slots j

/-- The parts of the invariant that are not the pool, for a call that now holds its slot. -/
theorem Inv.turn (h : Inv m s) (ht : Turn s t c x)
    (hpool : Pool m t.freeSlots fun d => (t.calls d).held)
    (hnum : x.pc.numbered = true → x.reqId = encodeReqId x.seq x.slotIdx ∧ x.slotIdx < m)
    (hown : x.pc.holds = true → Own c x (t.slots x.slotIdx))
    (hothers : ∀ d, d ≠ c → (s.calls d).pc.holds = true →
      t.slots (s.calls d).slotIdx = s.slots (s.calls d).slotIdx) : Inv m t where
  pool := hpool
  numbered d hd := by
    rw [ht.calls] at hd ⊢
    rcases eq_or_ne d c with rfl | hne
    · rw [Function.update_self] at hd ⊢
      exact hnum hd
    · rw [Function.update_of_ne hne] at hd ⊢
      exact h.numbered d hd
  own d hd := by
    rw [ht.calls] at hd ⊢
    rcases eq_or_ne d c with rfl | hne
    · rw [Function.update_self] at hd ⊢
      exact hown hd
    · rw [Function.update_of_ne hne] at hd ⊢
      rw [hothers d hne hd]
      exact h.own d hd

/-- A step of a call that holds its slot before and after. -/
theorem Inv.hold (h : Inv m s) (ht : Turn s t c x) (hfree : t.freeSlots = s.freeSlots)
    (hc : (s.calls c).pc.holds = true) (hx : x.pc.holds = true)
    (hslot : x.slotIdx = (s.calls c).slotIdx)
    (hnum : x.pc.numbered = true → x.reqId = encodeReqId x.seq x.slotIdx)
    (hown : Own c x (t.slots x.slotIdx)) : Inv m t := by
  refine h.turn ht ?_ (fun hn => ⟨hnum hn, hslot ▸ h.slot_lt hc⟩) (fun _ => hown) ?_
  · rw [hfree, ht.calls, held_update, held_of_holds hx, hslot, ← held_of_holds hc,
      Function.update_eq_self]
    exact h.pool
  · intro d hne hd
    refine ht.slots _ fun he => hne ?_
    exact h.eq_of_slot hc hd (he.trans hslot)

/-- A step after which the slots have the same holders and the same entries. -/
theorem Inv.congr (h : Inv m s) (hfree : t.freeSlots = s.freeSlots)
    (hcalls : ∀ d, (t.calls d).pc = (s.calls d).pc ∧ (t.calls d).slotIdx = (s.calls d).slotIdx ∧
      (t.calls d).seq = (s.calls d).seq ∧ (t.calls d).reqId = (s.calls d).reqId)
    (hslots : ∀ j, (t.slots j).waiter = (s.slots j).waiter ∧
      (t.slots j).userRespBuffer = (s.slots j).userRespBuffer ∧
      (t.slots j).expectedReqId = (s.slots j).expectedReqId) : Inv m t where
  pool := by
    have he : (fun d => (t.calls d).held) = fun d => (s.calls d).held := by
      funext d
      unfold Call.held
      rw [(hcalls d).1, (hcalls d).2.1]
    rw [hfree, he]
    exact h.pool
  numbered d hd := by
    obtain ⟨hpc, hslot, hseq, hid⟩ := hcalls d
    rw [hpc] at hd
    rw [hslot, hseq, hid]
    exact h.numbered d hd
  own d hd := by
    obtain ⟨hpc, hslot, hseq, hid⟩ := hcalls d
    rw [hpc] at hd
    have ho := h.own d hd
    obtain ⟨hw, hb, he⟩ := hslots (s.calls d).slotIdx
    rw [hslot]
    exact ⟨fun hp => hw.trans (ho.cleared (hpc ▸ hp)), fun hp => hw.trans (ho.waiting (hpc ▸ hp)),
      fun hp => hb.trans (ho.buffered (hpc ▸ hp)),
      fun hp => he.trans ((ho.identified (hpc ▸ hp)).trans hid.symm)⟩

/-- The same holder, the same pool. -/
theorem pool_update (h : Inv m s) (hx : x.held = (s.calls c).held) :
    Pool m s.freeSlots fun d => (Function.update s.calls c x d).held := by
  rw [held_update, hx, Function.update_eq_self]
  exact h.pool

/-! ## 4. Every step keeps it -/

/-- A packet in one buffer does not reach the header in another. -/
theorem header_write_of_ne {pool : Mem} {bytes : List UInt8} {v w : Nat}
    (hb : bytes.length ≤ kRecvBufferSize) (hv : v ≠ w) :
    RpcHeader.load o (pool.write (w * kRecvBufferSize) bytes) (v * kRecvBufferSize) =
      RpcHeader.load o pool (v * kRecvBufferSize) := by
  have hpacket := Mem.within_start (i := w) hb
  have hid : Mem.Within (v * kRecvBufferSize) 8 v kRecvBufferSize := Mem.within_start (by decide)
  have hlen : Mem.Within (v * kRecvBufferSize + 8) 4 v kRecvBufferSize :=
    Mem.within_offset (by decide)
  unfold RpcHeader.load
  rw [Mem.read_write_apart (Mem.apart_of_blocks hv hid hpacket),
    Mem.read_write_apart (Mem.apart_of_blocks hv hlen hpacket)]

/-- What a worker makes of its packet. -/
inductive Checked (o : ByteOrder) (m : Nat) (s : Client) (w : Nat) : Client → Prop
  | skip (h : (s.workers w).nbytes < headerSize ∨ m ≤ slotOf (s.recvId o w)) :
      Checked o m s w (s.setWorker w { s.workers w with pc := .post })
  | mismatch (h : headerSize ≤ (s.workers w).nbytes) (hm : slotOf (s.recvId o w) < m)
      (he : (s.slots (slotOf (s.recvId o w))).expectedReqId ≠ s.recvId o w) :
      Checked o m s w { s with fault := some .terminate }
  | matched (h : headerSize ≤ (s.workers w).nbytes) (hm : slotOf (s.recvId o w) < m)
      (he : (s.slots (slotOf (s.recvId o w))).expectedReqId = s.recvId o w) :
      Checked o m s w
        (s.setWorker w { s.workers w with pc := .matched (slotOf (s.recvId o w)) })

theorem checked_spec (s : Client) (w : Nat) : Checked o m s w (s.checked o m w) := by
  unfold Client.checked Client.verdict
  split_ifs with h hm he
  · exact .skip (Or.inl h)
  · exact .skip (Or.inr hm)
  · exact .mismatch (Nat.le_of_not_lt h) (Nat.lt_of_not_le hm) he
  · exact .matched (Nat.le_of_not_lt h) (Nat.lt_of_not_le hm) (Classical.not_not.mp he)

theorem overwrite_length {buffer bytes : List UInt8} (h : bytes.length ≤ buffer.length) :
    (overwrite buffer bytes).length = buffer.length := by
  unfold overwrite
  rw [List.length_append, List.length_drop, Nat.add_sub_cancel' h]

/-- A copy changes the contents of a caller's buffer, and nothing else. -/
theorem copied_eq (s : Client) (w i : Nat) : ∃ f : Nat → Call,
    s.copied o w i = { s with calls := f } ∧ ∀ d, ∃ b, f d = { s.calls d with respBuffer := b } ∧
      b.length = (s.calls d).respBuffer.length := by
  unfold Client.copied
  split
  · exact ⟨s.calls, rfl, fun d => ⟨_, rfl, rfl⟩⟩
  · next c hc =>
    refine ⟨_, rfl, fun d => ?_⟩
    rcases eq_or_ne d c with rfl | hne
    · refine ⟨_, Function.update_self d _ s.calls, overwrite_length ?_⟩
      rw [Mem.read_length]
      refine (Nat.min_le_right _ _).trans (Nat.le_of_eq ?_)
      unfold Client.respSize
      rw [hc]
    · exact ⟨_, Function.update_of_ne hne _ _, rfl⟩

/-- What a resumption leaves of a call: a waiting one goes on. -/
theorem resumed_eq (s : Client) (k : Nat) : ∃ x : Call, ∃ fault,
    s.resumed k = { s.setCall k x with fault := fault } ∧ x.reqId = (s.calls k).reqId ∧
      x.pc = if (s.calls k).pc = .waiting then .resume else (s.calls k).pc := by
  unfold Client.resumed
  split
  · exact ⟨_, s.fault, rfl, rfl, rfl⟩
  · exact ⟨_, some .staleResume, rfl, rfl, rfl⟩

theorem Inv.wake (h : Inv m s) (w i k : Nat) : Inv m (next o m s (.wake w i k)) := by
  show Inv m ((s.resumed k).setWorker w { s.workers w with pc := .post })
  unfold Client.resumed
  split
  · next hw =>
    have hk : (s.calls k).pc.holds = true := by rw [hw]; rfl
    have ho := h.own k hk
    have hn := h.numbered k (by rw [hw]; rfl)
    exact h.hold ⟨rfl, fun _ _ => rfl⟩ rfl hk rfl rfl (fun _ => hn.1)
      ⟨nofun, nofun, fun _ => ho.buffered (by rw [hw]; rfl),
        fun _ => ho.identified (by rw [hw]; rfl)⟩
  · refine h.congr rfl (fun d => ?_) fun _ => ⟨rfl, rfl, rfl⟩
    rcases eq_or_ne d k with rfl | hne
    · simp [Client.setCall, Client.setWorker]
    · simp [Client.setCall, Client.setWorker, Function.update_of_ne hne]

/-- A statement of a holder that writes its own slot. -/
theorem Inv.write (h : Inv m s) {y : RpcSlot} (hc : (s.calls c).pc.holds = true)
    (hx : x.pc.holds = true) (hslot : x.slotIdx = (s.calls c).slotIdx)
    (hnum : x.reqId = encodeReqId x.seq x.slotIdx) (hown : Own c x y) :
    Inv m ((s.setSlot (s.calls c).slotIdx y).setCall c x) := by
  refine h.hold (c := c) (x := x) ⟨rfl, fun j hj => ?_⟩ rfl hc hx hslot (fun _ => hnum) ?_
  · exact Function.update_of_ne (hslot ▸ hj) _ _
  · show Own c x (Function.update s.slots (s.calls c).slotIdx y x.slotIdx)
    rw [hslot, Function.update_self]
    exact hown

/-- **The slots stay shared out**, whatever the queue pair and the peer do. -/
theorem inv_step {a : Action} (h : Inv m s) (ht : (machine o m).step s a = some t) : Inv m t := by
  obtain ⟨⟨-, he⟩, rfl⟩ := Machine.guarded_step_eq_some.mp ht
  -- what is known of a call at the place `p`
  have own : ∀ {c p}, (s.calls c).pc = p → p.holds = true →
      Own c (s.calls c) (s.slots (s.calls c).slotIdx) := fun hp hh => h.own _ (hp ▸ hh)
  have num : ∀ {c p}, (s.calls c).pc = p → p.numbered = true →
      (s.calls c).reqId = encodeReqId (s.calls c).seq (s.calls c).slotIdx :=
    fun hp hh => (h.numbered _ (hp ▸ hh)).1
  have holds : ∀ {c p}, (s.calls c).pc = p → p.holds = true → (s.calls c).pc.holds = true :=
    fun hp hh => hp ▸ hh
  cases a with
  | call c reqData respBuffer =>
    have hp : (s.calls c).pc = .idle := he
    refine h.turn (c := c) ⟨rfl, fun _ _ => rfl⟩ (pool_update h ?_) nofun nofun fun _ _ _ => rfl
    rw [held_of_not_holds (x := s.calls c) (by rw [hp]; rfl)]
    rfl
  | dequeue c i =>
    obtain ⟨hp, hi⟩ := he
    refine h.turn (c := c) ⟨rfl, fun _ _ => rfl⟩ ?_ nofun (fun _ => ⟨nofun, nofun, nofun, nofun⟩)
      fun _ _ _ => rfl
    show Pool m (s.freeSlots.erase i) fun d => (Function.update s.calls c _ d).held
    rw [held_update]
    exact h.pool.acquire hi (held_of_not_holds (by rw [hp]; rfl))
  | fetchAdd c =>
    have hp : (s.calls c).pc = .fetchAdd := he
    exact h.hold (c := c) ⟨rfl, fun _ _ => rfl⟩ rfl (holds hp rfl) rfl rfl (fun _ => rfl)
      ⟨nofun, nofun, nofun, nofun⟩
  | storeWaiter c =>
    have hp : (s.calls c).pc = .storeWaiter := he
    exact h.write (holds hp rfl) rfl rfl (num hp rfl) ⟨fun _ => rfl, nofun, nofun, nofun⟩
  | storeBuffer c =>
    have hp : (s.calls c).pc = .storeBuffer := he
    have ho := own hp rfl
    exact h.write (holds hp rfl) rfl rfl (num hp rfl)
      ⟨fun _ => ho.cleared (by rw [hp]; rfl), nofun, fun _ => rfl, nofun⟩
  | storeId c =>
    have hp : (s.calls c).pc = .storeId := he
    have ho := own hp rfl
    exact h.write (holds hp rfl) rfl rfl (num hp rfl)
      ⟨fun _ => ho.cleared (by rw [hp]; rfl), nofun, fun _ => ho.buffered (by rw [hp]; rfl),
        fun _ => rfl⟩
  | fill c =>
    have hp : (s.calls c).pc = .fill := he
    have ho := own hp rfl
    exact h.hold (c := c) ⟨rfl, fun _ _ => rfl⟩ rfl (holds hp rfl) rfl rfl (fun _ => num hp rfl)
      ⟨fun _ => ho.cleared (by rw [hp]; rfl), nofun, fun _ => ho.buffered (by rw [hp]; rfl),
        fun _ => ho.identified (by rw [hp]; rfl)⟩
  | post c ok =>
    have hp : (s.calls c).pc = .post := he
    have ho := own hp rfl
    have hb := ho.buffered (by rw [hp]; rfl)
    have hi := ho.identified (by rw [hp]; rfl)
    cases ok with
    | true =>
      exact h.hold (c := c) ⟨rfl, fun _ _ => rfl⟩ rfl (holds hp rfl) rfl rfl
        (fun _ => num hp rfl)
        ⟨fun _ => ho.cleared (by rw [hp]; rfl), nofun, fun _ => hb, fun _ => hi⟩
    | false =>
      exact h.hold (c := c) ⟨rfl, fun _ _ => rfl⟩ rfl (holds hp rfl) rfl rfl
        (fun _ => num hp rfl) ⟨nofun, nofun, fun _ => hb, fun _ => hi⟩
  | sendDone c ok =>
    have hp : (s.calls c).pc = .sending := he
    have ho := own hp rfl
    have hb := ho.buffered (by rw [hp]; rfl)
    have hi := ho.identified (by rw [hp]; rfl)
    cases ok with
    | true =>
      exact h.hold (c := c) ⟨rfl, fun _ _ => rfl⟩ rfl (holds hp rfl) rfl rfl
        (fun _ => num hp rfl)
        ⟨fun _ => ho.cleared (by rw [hp]; rfl), nofun, fun _ => hb, fun _ => hi⟩
    | false =>
      exact h.hold (c := c) ⟨rfl, fun _ _ => rfl⟩ rfl (holds hp rfl) rfl rfl
        (fun _ => num hp rfl) ⟨nofun, nofun, fun _ => hb, fun _ => hi⟩
  | suspend c =>
    have hp : (s.calls c).pc = .suspend := he
    have ho := own hp rfl
    exact h.write (holds hp rfl) rfl rfl (num hp rfl)
      ⟨nofun, fun _ => rfl, fun _ => ho.buffered (by rw [hp]; rfl),
        fun _ => ho.identified (by rw [hp]; rfl)⟩
  | resume c =>
    have hp : (s.calls c).pc = .resume := he
    have ho := own hp rfl
    exact h.hold (c := c) ⟨rfl, fun _ _ => rfl⟩ rfl (holds hp rfl) rfl rfl (fun _ => num hp rfl)
      ⟨nofun, nofun, fun _ => ho.buffered (by rw [hp]; rfl),
        fun _ => ho.identified (by rw [hp]; rfl)⟩
  | enqueue c =>
    have hp : (s.calls c).pc = .enqueue := he
    have hh := holds hp rfl
    refine h.turn (c := c) ⟨rfl, fun _ _ => rfl⟩ ?_
      (fun _ => ⟨num hp rfl, h.slot_lt hh⟩) nofun fun _ _ _ => rfl
    show Pool m (s.freeSlots ++ [(s.calls c).slotIdx])
      fun d => (Function.update s.calls c _ d).held
    rw [held_update]
    exact h.pool.release (held_of_holds hh)
  | postRecv w ok => exact h.congr rfl (fun _ => ⟨rfl, rfl, rfl, rfl⟩) fun _ => ⟨rfl, rfl, rfl⟩
  | recvDone w packet =>
    cases packet with
    | none => exact h.congr rfl (fun _ => ⟨rfl, rfl, rfl, rfl⟩) fun _ => ⟨rfl, rfl, rfl⟩
    | some bytes => exact h.congr rfl (fun _ => ⟨rfl, rfl, rfl, rfl⟩) fun _ => ⟨rfl, rfl, rfl⟩
  | check w =>
    show Inv m (s.checked o m w)
    have hc := checked_spec (o := o) (m := m) s w
    generalize s.checked o m w = t at hc
    cases hc with
    | skip => exact h.congr rfl (fun _ => ⟨rfl, rfl, rfl, rfl⟩) fun _ => ⟨rfl, rfl, rfl⟩
    | mismatch => exact h.congr rfl (fun _ => ⟨rfl, rfl, rfl, rfl⟩) fun _ => ⟨rfl, rfl, rfl⟩
    | matched => exact h.congr rfl (fun _ => ⟨rfl, rfl, rfl, rfl⟩) fun _ => ⟨rfl, rfl, rfl⟩
  | copy w i =>
    obtain ⟨f, hf, hcalls⟩ := copied_eq (o := o) s w i
    show Inv m (((s.copied o w i).setSlot i _).setWorker w _)
    rw [hf]
    refine h.congr rfl (fun d => ?_) fun j => ?_
    · obtain ⟨b, hb, -⟩ := hcalls d
      rw [show (Client.setWorker _ w _).calls d = f d from rfl, hb]
      exact ⟨rfl, rfl, rfl, rfl⟩
    · rw [show (Client.setWorker _ w _).slots = Function.update s.slots i _ from rfl]
      rcases eq_or_ne j i with rfl | hne
      · rw [Function.update_self]
        exact ⟨rfl, rfl, rfl⟩
      · rw [Function.update_of_ne hne]
        exact ⟨rfl, rfl, rfl⟩
  | wake w i k => exact h.wake w i k

/-- In every state the client reaches, against any queue pair and any peer. -/
theorem inv_reach (h : (machine o m).Reach (Client.start m) s) : Inv m s :=
  h.invariant (inv_start m) fun _ _ _ hi _ ht => inv_step hi ht

/-! ## 5. Who moves -/

/-- The call a statement takes on. -/
def Action.mover : Action → Option Nat
  | .call c .. | .dequeue c _ | .fetchAdd c | .storeWaiter c | .storeBuffer c | .storeId c | .fill c
  | .post c _ | .sendDone c _ | .suspend c | .resume c | .enqueue c => some c
  | .wake _ _ h => some h
  | _ => none

/-- Where a statement of a call leads it. -/
def Action.place : Action → Option CallPc
  | .call .. => some .dequeue
  | .dequeue .. => some .fetchAdd
  | .fetchAdd _ => some .storeWaiter
  | .storeWaiter _ => some .storeBuffer
  | .storeBuffer _ => some .storeId
  | .storeId _ => some .fill
  | .fill _ => some .post
  | .post _ ok => some (if ok then .sending else .enqueue)
  | .sendDone _ ok => some (if ok then .suspend else .enqueue)
  | .suspend _ => some .waiting
  | .resume _ => some .enqueue
  | .enqueue _ => some .returned
  | _ => none

/-- The worker a statement is of. -/
def Action.worker : Action → Option Nat
  | .postRecv w _ | .recvDone w _ | .check w | .copy w _ | .wake w _ _ => some w
  | _ => none

theorem next_place {a : Action} {p : CallPc} (hc : a.mover = some c) (hp : a.place = some p) :
    ((next o m s a).calls c).pc = p := by
  cases a with
  | call d | dequeue d | fetchAdd d | storeWaiter d | storeBuffer d | storeId d | fill d | post d
  | sendDone d | suspend d | resume d | enqueue d =>
    obtain rfl : d = c := Option.some.inj hc
    rw [← Option.some.inj hp]
    exact congrArg Call.pc (Function.update_self d _ s.calls)
  | _ => cases hp

/-- A resumed call goes on if it waits. -/
theorem next_wake {w i k : Nat} : ((next o m s (.wake w i k)).calls k).pc =
    if (s.calls k).pc = .waiting then .resume else (s.calls k).pc := by
  obtain ⟨x, fault, hx, -, hpc⟩ := resumed_eq s k
  rw [← hpc]
  show ((s.resumed k).calls k).pc = _
  rw [hx]
  exact congrArg Call.pc (setCall_self s k x)

/-- Every other call stays where it is. -/
theorem next_call {a : Action} (h : a.mover ≠ some d) :
    ((next o m s a).calls d).pc = (s.calls d).pc ∧
      ((next o m s a).calls d).slotIdx = (s.calls d).slotIdx ∧
      ((next o m s a).calls d).reqId = (s.calls d).reqId := by
  have other : ∀ {u : Client} {c : Nat} {x : Call}, u.calls = Function.update s.calls c x →
      some c ≠ some d → (u.calls d).pc = (s.calls d).pc ∧
        (u.calls d).slotIdx = (s.calls d).slotIdx ∧ (u.calls d).reqId = (s.calls d).reqId := by
    intro u c x hu hne
    rw [hu, Function.update_of_ne fun hd => hne (congrArg some hd.symm)]
    exact ⟨rfl, rfl, rfl⟩
  cases a with
  | call | dequeue | fetchAdd | storeWaiter | storeBuffer | storeId | fill | post | sendDone
  | suspend | resume | enqueue => exact other rfl h
  | postRecv => exact ⟨rfl, rfl, rfl⟩
  | recvDone w packet => cases packet <;> exact ⟨rfl, rfl, rfl⟩
  | check w =>
    have hc := checked_spec (o := o) (m := m) s w
    have hcalls : (s.checked o m w).calls d = s.calls d := by
      generalize s.checked o m w = t at hc
      cases hc <;> rfl
    rw [show (next o m s (.check w)).calls d = s.calls d from hcalls]
    exact ⟨rfl, rfl, rfl⟩
  | copy w i =>
    obtain ⟨f, hf, hcalls⟩ := copied_eq (o := o) s w i
    obtain ⟨b, hb, -⟩ := hcalls d
    have hcopy : (next o m s (.copy w i)).calls d = f d := by
      show (s.copied o w i).calls d = _
      rw [hf]
    rw [hcopy, hb]
    exact ⟨rfl, rfl, rfl⟩
  | wake w i k =>
    obtain ⟨x, fault, hx, -, -⟩ := resumed_eq s k
    refine other (x := x) ?_ h
    show (s.resumed k).calls = _
    rw [hx]
    rfl

/-- Every other worker stays where it is. -/
theorem next_worker {a : Action} {w : Nat} (h : a.worker ≠ some w) :
    (next o m s a).workers w = s.workers w := by
  have other : ∀ {u : Client} {v : Nat} {z : Worker}, u.workers = Function.update s.workers v z →
      some v ≠ some w → u.workers w = s.workers w := by
    intro u v z hu hne
    rw [hu, Function.update_of_ne fun hw => hne (congrArg some hw.symm)]
  cases a with
  | call | dequeue | fetchAdd | storeWaiter | storeBuffer | storeId | fill | post | sendDone
  | suspend | resume | enqueue => rfl
  | postRecv => exact other rfl h
  | recvDone v packet => cases packet <;> exact other rfl h
  | check v =>
    have hc := checked_spec (o := o) (m := m) s v
    show (s.checked o m v).workers w = _
    generalize s.checked o m v = t at hc
    cases hc with
    | skip => exact other rfl h
    | mismatch => rfl
    | matched => exact other rfl h
  | copy v i =>
    obtain ⟨f, hf, -⟩ := copied_eq (o := o) s v i
    refine other (v := v) (z := { s.workers v with pc := .waking i }) ?_ h
    show Function.update (s.copied o v i).workers v _ = _
    rw [hf]
  | wake v i k =>
    obtain ⟨x, fault, hx, -, -⟩ := resumed_eq s k
    refine other (v := v) (z := { s.workers v with pc := .post }) ?_ h
    show Function.update (s.resumed k).workers v _ = _
    rw [hx]
    rfl

/-- A worker touches neither the free slots nor the send pool. -/
theorem next_pools {a : Action} {w : Nat} (hw : a.worker = some w) :
    (next o m s a).freeSlots = s.freeSlots ∧
      (next o m s a).sendBufferPool = s.sendBufferPool := by
  cases a with
  | postRecv => exact ⟨rfl, rfl⟩
  | recvDone v packet => cases packet <;> exact ⟨rfl, rfl⟩
  | check v =>
    have hc := checked_spec (o := o) (m := m) s v
    show (s.checked o m v).freeSlots = _ ∧ (s.checked o m v).sendBufferPool = _
    generalize s.checked o m v = t at hc
    cases hc <;> exact ⟨rfl, rfl⟩
  | copy v i =>
    obtain ⟨f, hf, -⟩ := copied_eq (o := o) s v i
    show (s.copied o v i).freeSlots = _ ∧ (s.copied o v i).sendBufferPool = _
    rw [hf]
    exact ⟨rfl, rfl⟩
  | wake v i k =>
    obtain ⟨x, fault, hx, -, -⟩ := resumed_eq s k
    show (s.resumed k).freeSlots = _ ∧ (s.resumed k).sendBufferPool = _
    rw [hx]
    exact ⟨rfl, rfl⟩
  | _ => cases hw

/-- A slot is taken by `try_dequeue` and given back by `enqueue`. -/
theorem next_freeSlots {a : Action} (hd : ∀ c i, a ≠ .dequeue c i) (he : ∀ c, a ≠ .enqueue c) :
    (next o m s a).freeSlots = s.freeSlots := by
  cases a with
  | dequeue c i => exact absurd rfl (hd c i)
  | enqueue c => exact absurd rfl (he c)
  | postRecv | recvDone | check | copy | wake => exact (next_pools rfl).1
  | _ => rfl

/-- Only the making of a message writes to the send pool. -/
theorem next_sendBufferPool {a : Action} (h : ∀ c, a ≠ .fill c) :
    (next o m s a).sendBufferPool = s.sendBufferPool := by
  cases a with
  | fill c => exact absurd rfl (h c)
  | postRecv | recvDone | check | copy | wake => exact (next_pools rfl).2
  | _ => rfl

/-- What a statement of call `c` leaves. -/
structure CallFrame (s t : Client) (c : Nat) : Prop where
  calls : ∀ d, d ≠ c → t.calls d = s.calls d
  workers : t.workers = s.workers
  recvBufferPool : t.recvBufferPool = s.recvBufferPool
  actualLen : ∀ i, (t.slots i).actualLen = (s.slots i).actualLen
  fault : t.fault = s.fault

theorem next_callFrame {a : Action} (hw : a.worker = none) (hc : a.mover = some c) :
    CallFrame s (next o m s a) c := by
  have others : ∀ {x : Call} d, d ≠ c → Function.update s.calls c x d = s.calls d :=
    fun d hd => Function.update_of_ne hd _ _
  -- a store into one slot that leaves the length
  have store : ∀ {i : Nat} {y : RpcSlot}, y.actualLen = (s.slots i).actualLen → ∀ j,
      (Function.update s.slots i y j).actualLen = (s.slots j).actualLen := by
    intro i y hy j
    rcases eq_or_ne j i with rfl | hne
    · rw [Function.update_self]
      exact hy
    · rw [Function.update_of_ne hne]
  cases a with
  | call d | dequeue d | fetchAdd d | fill d | post d | sendDone d | resume d | enqueue d =>
    obtain rfl : d = c := Option.some.inj hc
    exact ⟨others, rfl, rfl, fun _ => rfl, rfl⟩
  | storeWaiter d | storeBuffer d | storeId d | suspend d =>
    obtain rfl : d = c := Option.some.inj hc
    exact ⟨others, rfl, rfl, store rfl, rfl⟩
  | _ => cases hw

end Steps

end Rpc
end Rdmapp
