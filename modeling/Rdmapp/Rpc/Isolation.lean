/-
  File:      Rdmapp/Rpc/Isolation.lean
  Subject:   THE SEND BUFFERS of concurrent calls, and what each call posts from its own.

  A call copies its request, whatever its size, to the buffer of its slot; the view it posts is
  clamped to the end of the whole pool and not to the slot. Nothing rejects a request, so a call
  stays in its slot exactly with a request of at most `kSendMsgSize` bytes. As long as all calls
  do, each posts its own header and its own request (`request_posted`) whatever the others send.
  One that does not writes over its neighbour's message (`neighbour_overwritten`).
-/
import Rdmapp.Rpc.Messages
import Rdmapp.Rpc.Slots
import Rdmapp.Views

namespace Rdmapp
namespace Rpc

open Lib

/-! ## 1. What a call posts -/

/-- `send_mr_`, registered over the send pool of `m` slots that lies at `base`. -/
def sendMr (m : Nat) (base : UInt64) (lkey rkey : UInt32) : LocalMr :=
  ⟨base, UInt64.ofNat (m * kSendBufferSize), lkey, rkey⟩

/-- `send_offset`. -/
def Call.sendOffset (x : Call) : Nat := x.slotIdx * kSendBufferSize

/-- `send_slice_mr`. -/
def Call.sendSliceMr (mr : LocalMr) (x : Call) : MrView :=
  .ofLocal mr (UInt64.ofNat x.sendOffset) (UInt64.ofNat (headerSize + x.reqData.length))

/-- The message of call `c`: the bytes of its scatter/gather entry, which are read between the post
    and the completion. -/
def Client.posted (mr : LocalMr) (s : Client) (c : Nat) : List UInt8 :=
  let sge := fillLocalSge ((s.calls c).sendSliceMr mr)
  s.sendBufferPool.read (sge.addr - mr.addr).toNat sge.length.toNat

/-- A header, its padding (which nobody writes) and a payload. -/
def messageBytes (o : ByteOrder) (reqId : UInt64) (payload : List UInt8) : List UInt8 :=
  memBytes o 8 reqId.toNat ++ memBytes o 4 (UInt32.ofNat payload.length).toNat ++
    List.replicate 4 0 ++ payload

/-- The message is made and not yet sent. -/
def CallPc.filled : CallPc → Bool
  | .post | .sending => true
  | _ => false

/-- What the call writes lies within its slot. -/
def Call.Inside (x : Call) : Prop :=
  Mem.Within x.sendOffset (headerSize + x.reqData.length) x.slotIdx kSendBufferSize

/-- The calls do not touch each other's send buffers. -/
structure Isolated (o : ByteOrder) (m : Nat) (mr : LocalMr) (s : Client) : Prop where
  inside : ∀ c, (s.calls c).pc.holds = true → (s.calls c).Inside ∧ (s.calls c).slotIdx < m
  posted : ∀ c, (s.calls c).pc.filled = true →
    s.posted mr c = messageBytes o (s.calls c).reqId (s.calls c).reqData

/-- The request fits the buffer of a slot. -/
def Action.Fits : Action → Prop
  | .call _ reqData _ => reqData.length ≤ kSendMsgSize
  | _ => True

section Isolation

variable {o : ByteOrder} {m : Nat} {s t : Client} {a : Action} {c d i n : Nat} {x : Call}
  {pool : Mem} {payload : List UInt8} {reqId : UInt64}

/-! ## 2. The slice -/

theorem inside_iff (x : Call) : x.Inside ↔ x.reqData.length ≤ kSendMsgSize := by
  unfold Call.Inside Call.sendOffset Mem.Within kSendBufferSize
  omega

/-- Within the pool the slice is what was asked for. -/
theorem posted_eq (hm : m < 2 ^ 32) (base : UInt64) (lkey rkey : UInt32)
    (hi : (s.calls c).slotIdx < m) (hsize : (s.calls c).reqData.length ≤ kSendMsgSize) :
    s.posted (sendMr m base lkey rkey) c =
      s.sendBufferPool.read (s.calls c).sendOffset (headerSize + (s.calls c).reqData.length) := by
  have hpool : (m * kSendBufferSize : Nat) < 2 ^ 64 := by
    unfold kSendBufferSize kSendMsgSize headerSize
    omega
  have hslot : (s.calls c).sendOffset + kSendBufferSize ≤ m * kSendBufferSize := by
    unfold Call.sendOffset
    rw [← Nat.succ_mul]
    exact Nat.mul_le_mul_right _ hi
  have hlen : headerSize + (s.calls c).reqData.length ≤ kSendBufferSize := by
    unfold kSendBufferSize
    omega
  have hsmall : kSendBufferSize < 2 ^ 32 := by decide
  have hoffset : (UInt64.ofNat (s.calls c).sendOffset).toNat = (s.calls c).sendOffset :=
    UInt64.toNat_ofNat_of_lt' (Nat.lt_of_le_of_lt (Nat.le_of_add_right_le hslot) hpool)
  have hlength : (UInt64.ofNat (headerSize + (s.calls c).reqData.length)).toNat =
      headerSize + (s.calls c).reqData.length :=
    UInt64.toNat_ofNat_of_lt' (Nat.lt_of_le_of_lt hlen (by decide))
  have hregion : (sendMr m base lkey rkey).length.toNat = m * kSendBufferSize :=
    UInt64.toNat_ofNat_of_lt' hpool
  have hview : ((s.calls c).sendSliceMr (sendMr m base lkey rkey)).length.toNat =
      headerSize + (s.calls c).reqData.length := by
    refine (slice_length ?_).trans ?_
    · rw [hoffset, hregion]
      omega
    · rw [hoffset, hregion, hlength]
      exact min_eq_left (by omega)
  have haddr : ((s.calls c).sendSliceMr (sendMr m base lkey rkey)).addr - base =
      UInt64.ofNat (s.calls c).sendOffset := by
    show base + _ - base = _
    rw [UInt64.add_comm, UInt64.add_sub_cancel]
  unfold Client.posted fillLocalSge
  dsimp only
  rw [(toNat_toUInt32_eq_iff _).mpr (by omega), hview]
  show s.sendBufferPool.read (_ - base).toNat _ = _
  rw [haddr, hoffset]

/-! ## 3. A message made -/

/-- `header` and the `memcpy`, at `a`. -/
def fillPool (o : ByteOrder) (x : Call) (pool : Mem) : Mem :=
  (RpcHeader.store o ⟨x.reqId, UInt32.ofNat x.reqData.length⟩ pool x.sendOffset).write
    (x.sendOffset + headerSize) x.reqData

/-- The four bytes behind the header's fields stay. -/
theorem fillPool_padding (x : Call) (pool : Mem) :
    (fillPool o x pool).read (x.sendOffset + 12) 4 = pool.read (x.sendOffset + 12) 4 := by
  unfold fillPool RpcHeader.store
  rw [Mem.read_write_apart, Mem.read_write_apart, Mem.read_write_apart]
  all_goals
    unfold Mem.Apart
    simp only [memBytes_length, headerSize]
    omega

/-- **What is made is the message**, if the padding was as the pool was made. -/
theorem fillPool_message (hpad : pool.read (x.sendOffset + 12) 4 = List.replicate 4 0) :
    (fillPool o x pool).read x.sendOffset (headerSize + x.reqData.length) =
      messageBytes o x.reqId x.reqData := by
  have hid : (fillPool o x pool).read x.sendOffset 8 = memBytes o 8 x.reqId.toNat := by
    have h := Mem.read_write pool x.sendOffset (memBytes o 8 x.reqId.toNat)
    rw [memBytes_length] at h
    unfold fillPool RpcHeader.store
    rw [Mem.read_write_apart, Mem.read_write_apart, h]
    all_goals
      unfold Mem.Apart
      simp only [memBytes_length, headerSize]
      omega
  have hlen : (fillPool o x pool).read (x.sendOffset + 8) 4 =
      memBytes o 4 (UInt32.ofNat x.reqData.length).toNat := by
    have h := Mem.read_write (pool.write x.sendOffset (memBytes o 8 x.reqId.toNat))
      (x.sendOffset + 8) (memBytes o 4 (UInt32.ofNat x.reqData.length).toNat)
    rw [memBytes_length] at h
    unfold fillPool RpcHeader.store
    rw [Mem.read_write_apart, h]
    unfold Mem.Apart
    simp only [headerSize]
    omega
  have hdata : (fillPool o x pool).read (x.sendOffset + 16) x.reqData.length = x.reqData :=
    Mem.read_write _ _ _
  unfold messageBytes
  rw [show headerSize = 8 + 4 + 4 from rfl, Mem.read_add, Mem.read_add, Mem.read_add, hid, hlen,
    fillPool_padding, hpad, hdata]

/-- It stays within the slot. -/
theorem fillPool_agree (hx : x.Inside) (hi : i ≠ x.slotIdx) :
    Mem.Agree pool (fillPool o x pool) (i * kSendBufferSize) kSendBufferSize := by
  refine Mem.Agree.trans (agree_store _ ?_) (Mem.agree_write_block hi ?_)
  · exact Mem.apart_of_blocks hi ⟨Nat.le_refl _, Nat.le_refl _⟩ (Mem.within_start (by decide))
  · unfold Call.Inside Mem.Within at hx
    unfold Mem.Within
    omega

/-! ## 4. Steps -/

/-- What a call sends it was given when it was made. -/
theorem next_reqData (h : ∀ reqData respBuffer, a ≠ .call d reqData respBuffer) :
    ((next o m s a).calls d).reqData = (s.calls d).reqData := by
  have other : ∀ {f : Nat → Call} {c : Nat} {x : Call}, f = Function.update s.calls c x →
      x.reqData = (s.calls c).reqData → (f d).reqData = (s.calls d).reqData := by
    rintro f c x rfl hx
    rcases eq_or_ne d c with rfl | hne
    · rw [Function.update_self]
      exact hx
    · rw [Function.update_of_ne hne]
  cases a with
  | call c reqData respBuffer =>
    have hne : d ≠ c := by
      rintro rfl
      exact h _ _ rfl
    exact congrArg Call.reqData (Function.update_of_ne hne _ s.calls)
  | postRecv | recvDone w packet =>
    first | rfl | cases packet <;> rfl
  | check w =>
    have hc := checked_spec (o := o) (m := m) s w
    show ((s.checked o m w).calls d).reqData = _
    generalize s.checked o m w = t at hc
    cases hc <;> rfl
  | copy w i =>
    obtain ⟨f, hf, hcalls⟩ := copied_eq (o := o) s w i
    obtain ⟨b, hb, -⟩ := hcalls d
    show ((s.copied o w i).calls d).reqData = _
    rw [hf]
    show (f d).reqData = _
    rw [hb]
  | wake w i k =>
    show ((s.resumed k).calls d).reqData = _
    unfold Client.resumed
    split <;> exact other rfl rfl
  | _ => exact other rfl rfl

/-- A call gets to its post by making its message, and then stays as it is. -/
theorem next_filled (he : Enabled s a) (hp : ((next o m s a).calls d).pc.filled = true) :
    a = .fill d ∨ (s.calls d).pc.filled = true ∧
      ((next o m s a).calls d).slotIdx = (s.calls d).slotIdx ∧
      ((next o m s a).calls d).reqId = (s.calls d).reqId := by
  by_cases hd : a.mover = some d
  · cases a with
    | fill c =>
      obtain rfl : c = d := Option.some.inj hd
      exact Or.inl rfl
    | post c ok =>
      obtain rfl : c = d := Option.some.inj hd
      have hpost : (s.calls c).pc = .post := he
      have hself : (next o m s (.post c ok)).calls c = { s.calls c with
          pc := if ok then .sending else .enqueue } := Function.update_self c _ s.calls
      refine Or.inr ⟨by rw [hpost]; rfl, ?_, ?_⟩
      · rw [hself]
      · rw [hself]
    | wake w i k =>
      obtain rfl : k = d := Option.some.inj hd
      by_cases hw : (s.calls k).pc = .waiting
      · rw [next_wake, if_pos hw] at hp
        cases hp
      · have hself : (next o m s (.wake w i k)).calls k = { s.calls k with
            resumed := (s.calls k).resumed + 1 } := by
          show (s.resumed k).calls k = _
          unfold Client.resumed
          rw [if_neg hw]
          exact setCall_self s k _
        rw [hself] at hp ⊢
        exact Or.inr ⟨hp, rfl, rfl⟩
    | sendDone c ok =>
      rw [next_place hd rfl] at hp
      cases ok <;> cases hp
    | postRecv | recvDone | check | copy => cases hd
    | _ =>
      rw [next_place hd rfl] at hp
      cases hp
  · obtain ⟨hpc, hslot, hid⟩ := next_call (o := o) (m := m) (s := s) hd
    rw [hpc] at hp
    exact Or.inr ⟨hp, hslot, hid⟩

/-! ## 5. Runs -/

/-- The messages in flight, while every request fits. -/
structure SendInv (o : ByteOrder) (s : Client) : Prop where
  size : ∀ c, (s.calls c).reqData.length ≤ kSendMsgSize
  padding : ∀ i, s.sendBufferPool.read (i * kSendBufferSize + 12) 4 = List.replicate 4 0
  message : ∀ c, (s.calls c).pc.filled = true →
    s.sendBufferPool.read (s.calls c).sendOffset (headerSize + (s.calls c).reqData.length) =
      messageBytes o (s.calls c).reqId (s.calls c).reqData

theorem sendInv_start (o : ByteOrder) (m : Nat) : SendInv o (Client.start m) where
  size _ := Nat.zero_le _
  padding _ := rfl
  message _ h := nomatch h

theorem holds_of_filled {p : CallPc} (h : p.filled = true) : p.holds = true := by
  cases p <;> first | rfl | cases h

theorem sendInv_step (hi : Inv m s) (h : SendInv o s) (hfit : a.Fits) (he : Enabled s a) :
    SendInv o (next o m s a) := by
  have hsize : ∀ c, ((next o m s a).calls c).reqData.length ≤ kSendMsgSize := by
    intro c
    by_cases hc : ∃ reqData respBuffer, a = .call c reqData respBuffer
    · obtain ⟨reqData, respBuffer, rfl⟩ := hc
      rw [show (next o m s (.call c reqData respBuffer)).calls c = _ from
        Function.update_self c _ s.calls]
      exact hfit
    · rw [next_reqData fun x y hxy => hc ⟨x, y, hxy⟩]
      exact h.size c
  by_cases hfill : ∃ c, a = .fill c
  · obtain ⟨c, rfl⟩ := hfill
    have hpool : (next o m s (.fill c)).sendBufferPool = fillPool o (s.calls c) s.sendBufferPool :=
      rfl
    have hother : ∀ d, d ≠ c → (next o m s (.fill c)).calls d = s.calls d :=
      fun d hd => Function.update_of_ne hd _ _
    have hin : (s.calls c).Inside := (inside_iff _).mpr (h.size c)
    have hpc : (s.calls c).pc = .fill := he
    refine ⟨hsize, fun i => ?_, fun d hd => ?_⟩
    · rw [hpool]
      rcases eq_or_ne i (s.calls c).slotIdx with rfl | hne
      · exact (fillPool_padding _ _).trans (h.padding _)
      · rw [(fillPool_agree hin hne).read (Nat.le_add_right _ _) (by
          unfold kSendBufferSize kSendMsgSize
          omega)]
        exact h.padding i
    · rcases eq_or_ne d c with rfl | hne
      · rw [hpool, show (next o m s (.fill d)).calls d = { s.calls d with pc := .post } from
          Function.update_self d _ s.calls]
        exact fillPool_message (h.padding _)
      · rw [hother d hne] at hd ⊢
        have hslot : (s.calls d).slotIdx ≠ (s.calls c).slotIdx := fun hs =>
          hne (hi.eq_of_slot (by rw [hpc]; rfl) (holds_of_filled hd) hs)
        have hsz := h.size d
        have hwithin : (s.calls d).sendOffset + (headerSize + (s.calls d).reqData.length) ≤
            (s.calls d).slotIdx * kSendBufferSize + kSendBufferSize := by
          unfold Call.sendOffset kSendBufferSize
          omega
        have hkeep : (fillPool o (s.calls c) s.sendBufferPool).read (s.calls d).sendOffset
            (headerSize + (s.calls d).reqData.length) = s.sendBufferPool.read (s.calls d).sendOffset
            (headerSize + (s.calls d).reqData.length) :=
          (fillPool_agree hin hslot).read (Nat.le_refl _) hwithin
        rw [hpool, hkeep]
        exact h.message d hd
  · have hpool := next_sendBufferPool (o := o) (m := m) (s := s) fun c hc => hfill ⟨c, hc⟩
    refine ⟨hsize, fun i => ?_, fun d hd => ?_⟩
    · rw [hpool]
      exact h.padding i
    · obtain ⟨hfl, hslot, hid⟩ := (next_filled he hd).resolve_left fun hf => hfill ⟨d, hf⟩
      have hnew : ∀ x y, a ≠ .call d x y := by
        rintro x y rfl
        rw [next_place (o := o) (m := m) (c := d) rfl rfl] at hd
        cases hd
      have hdata := next_reqData (o := o) (m := m) (s := s) hnew
      have hm := h.message d hfl
      unfold Call.sendOffset at hm ⊢
      rw [hpool, hslot, hid, hdata]
      exact hm

theorem sendInv_reach (h : (machine o m).ReachIf (fun _ a => a.Fits) (Client.start m) s) :
    SendInv o s := by
  have hboth : Inv m s ∧ SendInv o s := by
    refine h.invariant (P := fun s => Inv m s ∧ SendInv o s)
      ⟨inv_start m, sendInv_start o m⟩ ?_
    intro s a t ⟨hi, hs⟩ hfit ht
    refine ⟨inv_step hi ht, ?_⟩
    obtain ⟨he, rfl⟩ := Machine.guarded_step_eq_some.mp ht
    exact sendInv_step hi hs hfit he.2
  exact hboth.2

theorem isolated_reach (hm : m < 2 ^ 32) (base : UInt64) (lkey rkey : UInt32)
    (h : (machine o m).ReachIf (fun _ a => a.Fits) (Client.start m) s) :
    Isolated o m (sendMr m base lkey rkey) s := by
  have hi := inv_reach h.reach
  have hs := sendInv_reach h
  refine ⟨fun c hc => ⟨(inside_iff _).mpr (hs.size c), hi.slot_lt hc⟩, fun c hc => ?_⟩
  rw [posted_eq hm base lkey rkey (hi.slot_lt (holds_of_filled hc)) (hs.size c)]
  exact hs.message c hc

/-- **Each call posts its own header and its own request as long as every request fits a slot.** In
    every state of a client all of whose calls so far had requests of at most `kSendMsgSize` bytes:
    what each call that holds a slot writes is within the slot, and the message of each call in
    flight is its header and its request; so it is the same in any two runs in which the call has
    the same id and request, whatever the other calls send. In any run a call stays within its slot
    exactly if its request fits. -/
theorem request_posted (o : ByteOrder) (m : Nat) (hm : m < 2 ^ 32) (base : UInt64)
    (lkey rkey : UInt32) (s : Client) :
    ((machine o m).ReachIf (fun _ a => a.Fits) (Client.start m) s →
      Isolated o m (sendMr m base lkey rkey) s ∧
      ∀ t, (machine o m).ReachIf (fun _ a => a.Fits) (Client.start m) t → ∀ c d,
        (s.calls c).pc.filled = true → (t.calls d).pc.filled = true →
        (t.calls d).reqId = (s.calls c).reqId → (t.calls d).reqData = (s.calls c).reqData →
        t.posted (sendMr m base lkey rkey) d = s.posted (sendMr m base lkey rkey) c) ∧
    ∀ c, (s.calls c).Inside ↔ (s.calls c).reqData.length ≤ kSendMsgSize := by
  refine ⟨fun h => ?_, fun c => inside_iff _⟩
  have hs := isolated_reach hm base lkey rkey h
  refine ⟨hs, fun t ht c d hc hd hid hdata => ?_⟩
  rw [(isolated_reach hm base lkey rkey ht).posted d hd, hs.posted c hc, hid, hdata]

end Isolation

/-- The statements of call `c`, in slot `i`, until its message is made. -/
def Action.upToFill (c i : Nat) (reqData : List UInt8) : List Action :=
  [.call c reqData [], .dequeue c i, .fetchAdd c, .storeWaiter c, .storeBuffer c, .storeId c,
    .fill c]

theorem fits_upToFill {c i : Nat} {reqData : List UInt8} (h : reqData.length ≤ kSendMsgSize) :
    ∀ a ∈ Action.upToFill c i reqData, a.Fits := by
  simp [Action.upToFill, Action.Fits, h]

/-- Two calls in neighbouring slots, the first with a request of full size. -/
theorem request_posted_neighbours : ∃ s,
    (machine .little 2).Reach (Client.start 2) s ∧ (s.calls 0).pc = .post ∧
      s.posted (sendMr 2 4096 1 2) 1 = messageBytes .little (s.calls 1).reqId [9, 8] := by
  obtain ⟨s, hs, hp⟩ := Machine.exists_reachIf_of_run (M := machine .little 2)
    (C := fun _ a => a.Fits) (s := Client.start 2)
    (Action.upToFill 1 1 [9, 8] ++ Action.upToFill 0 0 (List.replicate 256 255))
    (fun a ha _ => by
      rcases List.mem_append.mp ha with ha | ha
      · exact fits_upToFill (by decide) a ha
      · exact fits_upToFill (Nat.le_of_eq List.length_replicate) a ha)
    (fun s => decide ((s.calls 0).pc = .post) && decide ((s.calls 1).pc = .post) &&
      decide ((s.calls 1).reqData = [9, 8])) (by decide +kernel)
  simp only [Bool.and_eq_true, decide_eq_true_eq] at hp
  obtain ⟨⟨h0, h1⟩, hdata⟩ := hp
  have hposted := ((request_posted .little 2 (by decide) 4096 1 2 s).1 hs).1.posted 1
    (by rw [h1]; rfl)
  rw [hdata] at hposted
  exact ⟨s, hs.reach, h0, hposted⟩

/-- A request one byte too long: what call 1 posts is not its request, and it depends on what call
    0 sends. -/
theorem neighbour_overwritten : ∃ s t,
    (machine .little 2).Reach (Client.start 2) s ∧ (machine .little 2).Reach (Client.start 2) t ∧
      s.calls 1 = t.calls 1 ∧ (s.calls 1).pc.filled = true ∧
      s.posted (sendMr 2 4096 1 2) 1 =
        messageBytes .little (s.calls 1).reqId (s.calls 1).reqData ∧
      t.posted (sendMr 2 4096 1 2) 1 ≠
        messageBytes .little (t.calls 1).reqId (t.calls 1).reqData := by
  have hrun : ∀ (n : Nat) (b : Bool), ((machine .little 2).run (Client.start 2)
      (Action.upToFill 1 1 [9, 8] ++ Action.upToFill 0 0 (List.replicate n 255))).any
      (fun s => decide (s.calls 1 = ⟨[9, 8], [], .post, 1, 0, 1, 0, 0⟩) && (decide
        (s.posted (sendMr 2 4096 1 2) 1 = messageBytes .little 1 [9, 8]) == b)) = true →
      ∃ s, (machine .little 2).Reach (Client.start 2) s ∧
        s.calls 1 = ⟨[9, 8], [], .post, 1, 0, 1, 0, 0⟩ ∧
        decide (s.posted (sendMr 2 4096 1 2) 1 = messageBytes .little 1 [9, 8]) = b := by
    intro n b h
    obtain ⟨s, hs, hp⟩ := Machine.exists_reach_of_run _ _ h
    simp only [Bool.and_eq_true, decide_eq_true_eq, beq_iff_eq] at hp
    exact ⟨s, hs, hp.1, hp.2⟩
  obtain ⟨s, hs, hs1, hsp⟩ := hrun 256 true (by decide +kernel)
  obtain ⟨t, ht, ht1, htp⟩ := hrun 257 false (by decide +kernel)
  refine ⟨s, t, hs, ht, hs1.trans ht1.symm, by rw [hs1]; rfl, ?_, ?_⟩
  · rw [hs1]
    exact of_decide_eq_true hsp
  · rw [ht1]
    exact of_decide_eq_false htp

end Rpc
end Rdmapp
