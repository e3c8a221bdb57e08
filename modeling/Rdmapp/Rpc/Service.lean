/-
  File:      Rdmapp/Rpc/Service.lean
  Subject:   WHERE EACH REQUEST AND EACH RESPONSE IS, from a call's send buffer to its own buffer.

  A request lies in the send buffer of its slot, then in the CQ of one server worker and in its
  receive buffer; its response lies in that worker's send buffer, then in the CQ of one client
  worker, in its receive buffer and at last in the buffer of the call. `SystemInv` says so of every
  place; this file keeps it over the statements of the client.
-/
import Rdmapp.Rpc.Server

namespace Rdmapp
namespace Rpc

open Lib

/-! ## 1. Requests and responses -/

/-- The handler has run once on the request of call `c`, and returned `response`. -/
def Handled (s : System) (c : Nat) (response : List UInt8) : Prop :=
  s.handled c = [((s.link.client.calls c).reqData, response)] ∧ response.length ≤ kRecvMsgSize

/-- The first `n` bytes of the response are in the buffer of call `c`: all that fits. -/
def Got (s : System) (c n : Nat) : Prop :=
  ∃ response, Handled s c response ∧ n = min response.length (s.given c).length ∧
    (s.link.client.calls c).respBuffer = overwrite (s.given c) (response.take n)

/-- From the receive to the post of the send. -/
def ServerPc.active : ServerPc → Bool
  | .schedule | .handle | .stamp | .send => true
  | _ => false

/-- The call whose request server worker `v` has, until its response is under way. -/
def System.serving (s : System) (v : Nat) : Option Nat :=
  match s.requests v with
  | .packet c _ => some c
  | .handled c =>
    if (s.server.workers v).pc.active = true ∨ s.replies v = .posted then some c else none
  | _ => none

/-- A call's buffers. -/
structure CallInv (o : ByteOrder) (s : System) (c : Nat) : Prop where
  size : (s.link.client.calls c).reqData.length ≤ kSendMsgSize
  request : (s.link.client.calls c).pc = .post ∨ (s.link.client.calls c).pc = .sending →
    HeldAt o (s.link.client.calls c).reqId (s.link.client.calls c).reqData
      s.link.client.sendBufferPool ((s.link.client.calls c).slotIdx * kSendBufferSize)
  sent : s.link.sends c ≠ .done false
  unhandled : s.link.delivered c = false → s.handled c = []
  buffer : (s.link.client.calls c).respBuffer = s.given c ∨ ∃ n, Got s c n
  resume : (s.link.client.calls c).pc = .resume →
    Got s c (s.link.client.slots (s.link.client.calls c).slotIdx).actualLen
  done : (s.link.client.calls c).pc = .enqueue ∨ (s.link.client.calls c).pc = .returned →
    Got s c (s.link.client.calls c).nbytes
  resumed : (s.link.client.calls c).resumed = if (s.link.client.calls c).pc.past then 1 else 0

/-- A server worker's buffers. -/
structure ServerInv (o : ByteOrder) (s : System) (v : Nat) : Prop where
  receiving : (s.server.workers v).pc = .receiving ↔
    s.requests v = .posted ∨ (s.requests v).completion.isSome = true
  active : (s.server.workers v).pc.active = true → ∃ c, s.requests v = .handled c
  sending : (s.server.workers v).pc = .sending ↔ s.replies v = .posted ∨ s.replies v = .done true
  packet : ∀ c bytes, s.requests v = .packet c bytes →
    Packet o (s.link.client.calls c).reqId (s.link.client.calls c).reqData bytes ∧ s.handled c = []
  request : ∀ c, s.requests v = .handled c →
    (s.server.workers v).pc = .schedule ∨ (s.server.workers v).pc = .handle →
    HeldAt o (s.link.client.calls c).reqId (s.link.client.calls c).reqData s.server.recvBufferPool
      (v * kSendBufferSize) ∧
    (s.server.workers v).nbytes = headerSize + (s.link.client.calls c).reqData.length ∧
    s.handled c = []
  stamp : ∀ c, s.requests v = .handled c → (s.server.workers v).pc = .stamp →
    ∃ response, Handled s c response ∧
      (RpcHeader.load o s.server.recvBufferPool (v * kSendBufferSize)).reqId =
        (s.link.client.calls c).reqId ∧
      (s.server.workers v).respPayloadLen = response.length ∧
      s.server.sendBufferPool.read (v * kRecvBufferSize + headerSize) response.length = response
  reply : ∀ c, s.requests v = .handled c →
    (s.server.workers v).pc = .send ∨ s.replies v = .posted →
    ∃ response, Handled s c response ∧
      (s.server.workers v).respPayloadLen = response.length ∧
      HeldAt o (s.link.client.calls c).reqId response s.server.sendBufferPool (v * kRecvBufferSize)

/-- A client worker's buffer. -/
structure WorkerInv (o : ByteOrder) (s : System) (w : Nat) : Prop where
  flushed : s.link.recvs w ≠ .flushed
  packet : ∀ c bytes, s.link.recvs w = .packet c bytes →
    ∃ response, Handled s c response ∧ Packet o (s.link.client.calls c).reqId response bytes
  held : ∀ c, s.link.recvs w = .handled c →
    (s.link.client.workers w).pc = .received ∨ (∃ i, (s.link.client.workers w).pc = .matched i) →
    ∃ response, Handled s c response ∧ HeldAt o (s.link.client.calls c).reqId response
      s.link.client.recvBufferPool (w * kRecvBufferSize)
  copied : ∀ c i, s.link.recvs w = .handled c → (s.link.client.workers w).pc = .waking i →
    Got s c (s.link.client.slots i).actualLen

/-- The invariant of client, server and queue pair. -/
structure SystemInv (o : ByteOrder) (m : Nat) (s : System) : Prop where
  link : LinkInv o m s.link
  error : s.link.error = false
  fault : s.link.client.fault = none
  call : ∀ c, CallInv o s c
  server : ∀ v, ServerInv o s v
  worker : ∀ w, WorkerInv o s w
  serving : ∀ v c, s.serving v = some c → s.link.delivered c = true ∧ s.link.answered c = false
  alone : ∀ v v' c, s.serving v = some c → s.serving v' = some c → v = v'

section Service

variable {o : ByteOrder} {m k : Nat} {s t : System} {c d v w i n : Nat}

theorem systemInv_start (m k : Nat) : SystemInv o m (System.start m k) where
  link := linkInv_start m
  error := rfl
  fault := rfl
  call _ := ⟨Nat.zero_le _, fun h => (by rcases h with h | h <;> cases h), nofun, fun _ => rfl,
    Or.inl rfl, nofun, fun h => (by rcases h with h | h <;> cases h), rfl⟩
  server v := by
    have hpc : (if v < k then ServerPc.post else .absent) ≠ .receiving ∧
        (if v < k then ServerPc.post else .absent).active ≠ true ∧
        (if v < k then ServerPc.post else .absent) ≠ .sending := by
      split <;> exact ⟨nofun, nofun, nofun⟩
    exact ⟨iff_of_false hpc.1 nofun, fun h => absurd h hpc.2.1, iff_of_false hpc.2.2 nofun, nofun,
      nofun, nofun, nofun⟩
  worker _ := ⟨nofun, nofun, nofun, nofun⟩
  serving _ _ h := nomatch h
  alone _ _ _ h := nomatch h

/-! ## 2. What a step leaves -/

/-- Of call `c` what its request and its response are. -/
structure Keeps (s t : System) (c : Nat) : Prop where
  reqData : (t.link.client.calls c).reqData = (s.link.client.calls c).reqData
  reqId : (t.link.client.calls c).reqId = (s.link.client.calls c).reqId
  handled : t.handled c = s.handled c

/-- Of call `c` its buffer. -/
structure KeepsBuffer (s t : System) (c : Nat) : Prop where
  given : t.given c = s.given c
  respBuffer : (t.link.client.calls c).respBuffer = (s.link.client.calls c).respBuffer

theorem Handled.keeps {response : List UInt8} (h : Handled s c response)
    (hdata : (t.link.client.calls c).reqData = (s.link.client.calls c).reqData)
    (hh : t.handled c = s.handled c) : Handled t c response := by
  unfold Handled
  rw [hh, hdata]
  exact h

theorem Got.keeps (h : Got s c n)
    (hdata : (t.link.client.calls c).reqData = (s.link.client.calls c).reqData)
    (hh : t.handled c = s.handled c) (hb : KeepsBuffer s t c) : Got t c n := by
  obtain ⟨response, hr, hn, hbuffer⟩ := h
  refine ⟨response, hr.keeps hdata hh, ?_, ?_⟩
  · rw [hb.given]
    exact hn
  · rw [hb.given, hb.respBuffer]
    exact hbuffer

theorem Got.handled (h : Got s c n) : s.handled c ≠ [] := by
  obtain ⟨response, hr, -⟩ := h
  rw [hr.1]
  exact nofun

theorem serving_of_packet {bytes : List UInt8} (h : s.requests v = .packet c bytes) :
    s.serving v = some c := by
  unfold System.serving
  rw [h]

theorem serving_of_handled (h : s.requests v = .handled c)
    (ha : (s.server.workers v).pc.active = true ∨ s.replies v = .posted) :
    s.serving v = some c := by
  unfold System.serving
  rw [h]
  exact if_pos ha

theorem handled_of_serving (hs : s.serving v = some d) (h : s.requests v = .handled c) :
    c = d ∧ ((s.server.workers v).pc.active = true ∨ s.replies v = .posted) := by
  unfold System.serving at hs
  rw [h] at hs
  dsimp only at hs
  split_ifs at hs with ha
  exact ⟨Option.some.inj hs, ha⟩

theorem serving_congr (hr : t.requests v = s.requests v)
    (hz : t.server.workers v = s.server.workers v) (hs : t.replies v = s.replies v) :
    t.serving v = s.serving v := by
  unfold System.serving
  rw [hr, hz, hs]

/-- The request or the response of one call lies within one buffer. -/
theorem request_size (h : (s.link.client.calls c).reqData.length ≤ kSendMsgSize) :
    headerSize + (s.link.client.calls c).reqData.length ≤ kSendBufferSize := by
  unfold kSendBufferSize
  omega

theorem Handled.size {response : List UInt8} (h : Handled s c response) :
    headerSize + response.length ≤ kRecvBufferSize := by
  have hr := h.2
  unfold kRecvBufferSize
  omega

/-- A server worker that does not move, nor the call it serves. -/
theorem ServerInv.frame (h : ServerInv o s v) (hcall : ∀ c, CallInv o s c)
    (hz : t.server.workers v = s.server.workers v) (hr : t.requests v = s.requests v)
    (hs : t.replies v = s.replies v)
    (hrecv : Mem.Agree s.server.recvBufferPool t.server.recvBufferPool (v * kSendBufferSize)
      kSendBufferSize)
    (hsend : Mem.Agree s.server.sendBufferPool t.server.sendBufferPool (v * kRecvBufferSize)
      kRecvBufferSize)
    (hk : ∀ c, s.serving v = some c → Keeps s t c) : ServerInv o t v := by
  refine ⟨?_, ?_, ?_, fun c bytes hp => ?_, fun c hc hp => ?_, fun c hc hp => ?_,
    fun c hc hp => ?_⟩
  · rw [hz, hr]
    exact h.receiving
  · rw [hz, hr]
    exact h.active
  · rw [hz, hs]
    exact h.sending
  · rw [hr] at hp
    have hkeep := hk c (serving_of_packet hp)
    rw [hkeep.reqId, hkeep.reqData, hkeep.handled]
    exact h.packet c bytes hp
  · rw [hr] at hc
    rw [hz] at hp ⊢
    have ha : (s.server.workers v).pc.active = true := by
      rcases hp with hp | hp <;> rw [hp] <;> rfl
    have hkeep := hk c (serving_of_handled hc (Or.inl ha))
    rw [hkeep.reqId, hkeep.reqData, hkeep.handled]
    obtain ⟨hheld, hn, hun⟩ := h.request c hc hp
    exact ⟨hheld.agree hrecv (request_size (hcall c).size), hn, hun⟩
  · rw [hr] at hc
    rw [hz] at hp ⊢
    have ha : (s.server.workers v).pc.active = true := by rw [hp]; rfl
    have hkeep := hk c (serving_of_handled hc (Or.inl ha))
    obtain ⟨response, hresp, hid, hlen, hread⟩ := h.stamp c hc hp
    refine ⟨response, hresp.keeps hkeep.reqData hkeep.handled, ?_, hlen, ?_⟩
    · rw [hkeep.reqId, load_agree hrecv (by decide)]
      exact hid
    · have hsize := hresp.size
      rw [hsend.read (Nat.le_add_right _ _) (by omega)]
      exact hread
  · rw [hr] at hc
    rw [hz, hs] at hp
    rw [hz]
    have ha : (s.server.workers v).pc.active = true ∨ s.replies v = .posted := by
      rcases hp with hp | hp
      · left
        rw [hp]
        rfl
      · exact Or.inr hp
    have hkeep := hk c (serving_of_handled hc ha)
    obtain ⟨response, hresp, hlen, hheld⟩ := h.reply c hc hp
    rw [hkeep.reqId]
    exact ⟨response, hresp.keeps hkeep.reqData hkeep.handled, hlen, hheld.agree hsend hresp.size⟩

/-- A client worker that does not move, nor the call whose response it has. -/
theorem WorkerInv.frame (h : WorkerInv o s w)
    (hz : t.link.client.workers w = s.link.client.workers w)
    (hr : t.link.recvs w = s.link.recvs w)
    (hpool : Mem.Agree s.link.client.recvBufferPool t.link.client.recvBufferPool
      (w * kRecvBufferSize) kRecvBufferSize)
    (hk : ∀ c, s.link.carried w = some c → Keeps s t c)
    (hb : ∀ c i, s.link.carried w = some c → (s.link.client.workers w).pc = .waking i →
      KeepsBuffer s t c ∧
        (t.link.client.slots i).actualLen = (s.link.client.slots i).actualLen) :
    WorkerInv o t w := by
  refine ⟨?_, fun c bytes hp => ?_, fun c hc hp => ?_, fun c i hc hp => ?_⟩
  · rw [hr]
    exact h.flushed
  · rw [hr] at hp
    have hkeep := hk c (carried_of_packet hp)
    obtain ⟨response, hresp, hpacket⟩ := h.packet c bytes hp
    rw [hkeep.reqId]
    exact ⟨response, hresp.keeps hkeep.reqData hkeep.handled, hpacket⟩
  · rw [hr] at hc
    rw [hz] at hp
    have hbusy : (s.link.client.workers w).pc.busy = true := by
      rcases hp with hp | ⟨i, hp⟩ <;> rw [hp] <;> rfl
    have hkeep := hk c (carried_of_handled hc hbusy)
    obtain ⟨response, hresp, hheld⟩ := h.held c hc hp
    rw [hkeep.reqId]
    exact ⟨response, hresp.keeps hkeep.reqData hkeep.handled, hheld.agree hpool hresp.size⟩
  · rw [hr] at hc
    rw [hz] at hp
    have hbusy : (s.link.client.workers w).pc.busy = true := by rw [hp]; rfl
    have hcarried := carried_of_handled hc hbusy
    obtain ⟨hbuffer, hlen⟩ := hb c i hcarried hp
    have hkeep := hk c hcarried
    rw [hlen]
    exact (h.copied c i hc hp).keeps hkeep.reqData hkeep.handled hbuffer

/-- A call that does not move. -/
theorem CallInv.frame (h : CallInv o s c) (hx : t.link.client.calls c = s.link.client.calls c)
    (hsends : t.link.sends c = s.link.sends c) (hdelivered : t.link.delivered c = false →
      s.link.delivered c = false)
    (hgiven : t.given c = s.given c) (hhandled : t.handled c = s.handled c)
    (hpool : (s.link.client.calls c).pc.holds = true →
      Mem.Agree s.link.client.sendBufferPool t.link.client.sendBufferPool
        ((s.link.client.calls c).slotIdx * kSendBufferSize) kSendBufferSize)
    (hlen : (s.link.client.calls c).pc = .resume →
      (t.link.client.slots (s.link.client.calls c).slotIdx).actualLen =
        (s.link.client.slots (s.link.client.calls c).slotIdx).actualLen) : CallInv o t c := by
  have hdata := congrArg Call.reqData hx
  have hb : KeepsBuffer s t c := ⟨hgiven, congrArg Call.respBuffer hx⟩
  refine ⟨?_, fun hp => ?_, ?_, fun hd => ?_, ?_, fun hp => ?_, fun hp => ?_, ?_⟩
  · rw [hx]
    exact h.size
  · rw [hx] at hp ⊢
    have hh : (s.link.client.calls c).pc.holds = true := by
      rcases hp with hp | hp <;> rw [hp] <;> rfl
    exact (h.request hp).agree (hpool hh) (request_size h.size)
  · rw [hsends]
    exact h.sent
  · rw [hhandled]
    exact h.unhandled (hdelivered hd)
  · rw [hx, hgiven]
    exact h.buffer.imp_right fun ⟨n, hn⟩ => ⟨n, hn.keeps hdata hhandled hb⟩
  · rw [hx] at hp ⊢
    rw [hlen hp]
    exact (h.resume hp).keeps hdata hhandled hb
  · rw [hx] at hp ⊢
    exact (h.done hp).keeps hdata hhandled hb
  · rw [hx]
    exact h.resumed

/-! ## 3. Statements of a call -/

/-- A call that has reached the server or come back from it is past its post. -/
theorem SystemInv.not_early (h : SystemInv o m s) (hd : s.link.delivered c = true) :
    (s.link.client.calls c).pc.early = false := by
  refine Bool.eq_false_of_not_eq_true fun he => ?_
  rw [((h.link.call c).early he).2] at hd
  cases hd

theorem SystemInv.delivered_of_carried (h : SystemInv o m s) (hc : s.link.carried w = some c) :
    s.link.delivered c = true := (h.link.call c).answered (h.link.carried w c hc).1

/-- Whose response a worker carries waits for it, or will. -/
theorem SystemInv.live (h : SystemInv o m s) (hc : s.link.carried w = some c) :
    Live (s.link.client.calls c).pc (s.link.sends c) :=
  (h.link.carried w c hc).2.resolve_right fun hs => nomatch hs.error.symm.trans h.error

theorem holds_of_live {p : CallPc} {wr : SendWr} (h : Live p wr) : p.holds = true := by
  rcases h with ⟨rfl, -⟩ | rfl | rfl <;> rfl

/-- Client statements are the link's. -/
theorem SystemInv.link_client (hm : m < 2 ^ 32) (h : SystemInv o m s) {a : Action}
    (he : SystemEnabled s (.client a)) : LinkInv o m (systemNext o m s (.client a)).link :=
  linkInv_step (a := .client a) hm h.link (Machine.guarded_step_eq_some.mpr ⟨he.2, rfl⟩)

theorem tell_of_call {s : Link} {a : Action} (hw : a.worker = none) :
    (s.tell a).recvs = s.recvs ∧ (s.tell a).delivered = s.delivered ∧
      (s.tell a).answered = s.answered ∧ ∀ d, a.mover ≠ some d → (s.tell a).sends d = s.sends d := by
  cases a with
  | post c ok | sendDone c ok =>
    exact ⟨rfl, rfl, rfl, fun d hd => Function.update_of_ne (fun he => hd (congrArg some he.symm)) _ _⟩
  | postRecv | recvDone | check | copy | wake => cases hw
  | _ => exact ⟨rfl, rfl, rfl, fun _ _ => rfl⟩

/-- A request is put together within the buffer of its slot. -/
theorem SystemInv.fill_agree (h : SystemInv o m s) {a : Action} (he : Enabled s.link.client a)
    (hmove : a.mover ≠ some d) (hd : (s.link.client.calls d).pc.holds = true) :
    Mem.Agree s.link.client.sendBufferPool (next o m s.link.client a).sendBufferPool
      ((s.link.client.calls d).slotIdx * kSendBufferSize) kSendBufferSize := by
  by_cases hfill : ∃ c, a = .fill c
  · obtain ⟨c, rfl⟩ := hfill
    have hp : (s.link.client.calls c).pc = .fill := he
    have hne : (s.link.client.calls d).slotIdx ≠ (s.link.client.calls c).slotIdx := fun hslot =>
      hmove (congrArg some (h.link.client.eq_of_slot (by rw [hp]; rfl) hd hslot).symm)
    have hsize := request_size (h.call c).size
    refine Mem.Agree.trans (agree_store _ ?_) (Mem.agree_write_block hne ?_)
    · exact Mem.apart_of_blocks hne ⟨Nat.le_refl _, Nat.le_refl _⟩ (Mem.within_start (by decide))
    · exact Mem.within_offset hsize
  · rw [next_sendBufferPool fun c hc => hfill ⟨c, hc⟩]
    exact Mem.Agree.refl _ _ _

/-- A statement of call `c` leaves every other place. -/
theorem SystemInv.callStep (hm : m < 2 ^ 32) (h : SystemInv o m s) {a : Action}
    (he : SystemEnabled s (.client a)) (hw : a.worker = none) (hc : a.mover = some c)
    (hgiven : ∀ d, d ≠ c → s.gives a d = s.given d)
    (hcall : CallInv o (systemNext o m s (.client a)) c)
    (hkeeps : s.link.delivered c = true → Keeps s (systemNext o m s (.client a)) c ∧
      KeepsBuffer s (systemNext o m s (.client a)) c) :
    SystemInv o m (systemNext o m s (.client a)) := by
  have hframe : CallFrame s.link.client (next o m s.link.client a) c := next_callFrame hw hc
  obtain ⟨hrecvs, hdelivered, hanswered, hsends⟩ := tell_of_call (s := s.link) hw
  have hmove : ∀ d, d ≠ c → a.mover ≠ some d := fun d hd hs =>
    hd (Option.some.inj (hs.symm.trans hc))
  have hkeep : ∀ d, s.link.delivered d = true → Keeps s (systemNext o m s (.client a)) d ∧
      KeepsBuffer s (systemNext o m s (.client a)) d := by
    intro d hd
    rcases eq_or_ne d c with rfl | hne
    · exact hkeeps hd
    · have hx := hframe.calls d hne
      exact ⟨⟨congrArg Call.reqData hx, congrArg Call.reqId hx, rfl⟩,
        ⟨hgiven d hne, congrArg Call.respBuffer hx⟩⟩
  refine ⟨h.link_client hm he, (tell_error s.link a).trans h.error, hframe.fault.trans h.fault,
    fun d => ?_, fun v => ?_, fun w => ?_, fun v d hs => ?_, h.alone⟩
  · rcases eq_or_ne d c with rfl | hne
    · exact hcall
    · exact (h.call d).frame (hframe.calls d hne) (hsends d (hmove d hne))
        (fun hd => (congrFun hdelivered d).symm.trans hd) (hgiven d hne) rfl
        (h.fill_agree he.2.1.2 (hmove d hne)) fun _ => hframe.actualLen _
  · exact (h.server v).frame h.call rfl rfl rfl (Mem.Agree.refl _ _ _) (Mem.Agree.refl _ _ _)
      fun d hs => (hkeep d (h.serving v d hs).1).1
  · refine (h.worker w).frame (congrFun hframe.workers w) (congrFun hrecvs w) ?_
      (fun d hd => (hkeep d (h.delivered_of_carried hd)).1)
      fun d i hd _ => ⟨(hkeep d (h.delivered_of_carried hd)).2, hframe.actualLen i⟩
    rw [show (systemNext o m s (.client a)).link.client.recvBufferPool = _ from
      hframe.recvBufferPool]
    exact Mem.Agree.refl _ _ _
  · obtain ⟨hd, ha⟩ := h.serving v d hs
    exact ⟨(congrFun hdelivered d).trans hd, (congrFun hanswered d).trans ha⟩

/-- Call `c` goes on to a place at which it has not just been resumed. -/
theorem CallInv.moves (h : CallInv o s c)
    (hdata : (t.link.client.calls c).reqData = (s.link.client.calls c).reqData)
    (hh : t.handled c = s.handled c) (hb : KeepsBuffer s t c)
    (hsends : t.link.sends c ≠ .done false) (hdelivered : t.link.delivered c = s.link.delivered c)
    (hrequest : (t.link.client.calls c).pc = .post ∨ (t.link.client.calls c).pc = .sending →
      HeldAt o (t.link.client.calls c).reqId (s.link.client.calls c).reqData
        t.link.client.sendBufferPool ((t.link.client.calls c).slotIdx * kSendBufferSize))
    (hresume : (t.link.client.calls c).pc ≠ .resume)
    (hdone : (t.link.client.calls c).pc = .enqueue ∨ (t.link.client.calls c).pc = .returned →
      Got s c (t.link.client.calls c).nbytes)
    (hresumed : (t.link.client.calls c).resumed = (s.link.client.calls c).resumed)
    (hpast : (t.link.client.calls c).pc.past = (s.link.client.calls c).pc.past) :
    CallInv o t c := by
  refine ⟨?_, fun hp => ?_, hsends, fun hd => ?_, ?_, fun hp => absurd hp hresume, fun hp => ?_, ?_⟩
  · rw [hdata]
    exact h.size
  · rw [hdata]
    exact hrequest hp
  · rw [hdelivered] at hd
    rw [hh]
    exact h.unhandled hd
  · rw [hb.respBuffer, hb.given]
    exact h.buffer.imp_right fun ⟨n, hn⟩ => ⟨n, hn.keeps hdata hh hb⟩
  · exact (hdone hp).keeps hdata hh hb
  · rw [hresumed, hpast]
    exact h.resumed

/-- A statement of call `c` that its request and its response do not see. -/
theorem SystemInv.local_step (hm : m < 2 ^ 32) (h : SystemInv o m s) {a : Action} {x : Call}
    (he : SystemEnabled s (.client a)) (hw : a.worker = none) (hc : a.mover = some c)
    (hx : (next o m s.link.client a).calls c = x) (hgiven : s.gives a = s.given)
    (hsends : (s.link.tell a).sends c ≠ .done false)
    (hdata : x.reqData = (s.link.client.calls c).reqData)
    (hbuffer : x.respBuffer = (s.link.client.calls c).respBuffer)
    (hresumed : x.resumed = (s.link.client.calls c).resumed)
    (hid : (s.link.client.calls c).pc.early = false → x.reqId = (s.link.client.calls c).reqId)
    (hpast : x.pc.past = (s.link.client.calls c).pc.past)
    (hrequest : x.pc = .post ∨ x.pc = .sending →
      HeldAt o x.reqId (s.link.client.calls c).reqData (next o m s.link.client a).sendBufferPool
        (x.slotIdx * kSendBufferSize))
    (hresume : x.pc ≠ .resume)
    (hdone : x.pc = .enqueue ∨ x.pc = .returned → Got s c x.nbytes) :
    SystemInv o m (systemNext o m s (.client a)) := by
  subst hx
  have hb : KeepsBuffer s (systemNext o m s (.client a)) c := ⟨congrFun hgiven c, hbuffer⟩
  refine h.callStep hm he hw hc (fun d _ => congrFun hgiven d) ?_ fun hd => ⟨⟨hdata, ?_, rfl⟩, hb⟩
  · exact (h.call c).moves hdata rfl hb hsends (congrFun (tell_of_call hw).2.1 c) hrequest hresume
      hdone hresumed hpast
  · exact hid (h.not_early hd)

/-- The places at which nothing is asked of the request, the response or the resumption. -/
def CallPc.plain : CallPc → Bool
  | .post | .sending | .resume | .enqueue | .returned => false
  | _ => true

/-- A statement of call `c` that leads to such a place. -/
theorem SystemInv.plain_step (hm : m < 2 ^ 32) (h : SystemInv o m s) {a : Action} {x : Call}
    (he : SystemEnabled s (.client a)) (hw : a.worker = none) (hc : a.mover = some c)
    (hx : (next o m s.link.client a).calls c = x) (hgiven : s.gives a = s.given)
    (hsends : (s.link.tell a).sends c ≠ .done false)
    (hdata : x.reqData = (s.link.client.calls c).reqData)
    (hbuffer : x.respBuffer = (s.link.client.calls c).respBuffer)
    (hresumed : x.resumed = (s.link.client.calls c).resumed)
    (hid : (s.link.client.calls c).pc.early = false → x.reqId = (s.link.client.calls c).reqId)
    (hpast : x.pc.past = (s.link.client.calls c).pc.past) (hplain : x.pc.plain = true) :
    SystemInv o m (systemNext o m s (.client a)) := by
  have other : ∀ {p : CallPc}, p.plain = false → x.pc ≠ p := fun hp he => by
    rw [he, hp] at hplain
    cases hplain
  exact h.local_step hm he hw hc hx hgiven hsends hdata hbuffer hresumed hid hpast
    (fun hp => (hp.elim (other rfl) (other rfl)).elim) (other rfl)
    fun hp => (hp.elim (other rfl) (other rfl)).elim

/-- **Every statement of a call.** -/
theorem SystemInv.call_step (hm : m < 2 ^ 32) (h : SystemInv o m s) {a : Action}
    (he : SystemEnabled s (.client a)) (hw : a.worker = none) :
    SystemInv o m (systemNext o m s (.client a)) := by
  have hall := he
  obtain ⟨hsound, ⟨-, he⟩, hpermit⟩ := he
  have self : ∀ {u : Client} {c : Nat} {x : Call}, u.calls = Function.update s.link.client.calls c x →
      u.calls c = x := fun hu => by rw [hu, Function.update_self]
  -- what is known of a call at the place `p`
  have past : ∀ {c : Nat} {p q : CallPc}, (s.link.client.calls c).pc = p → q.past = p.past →
      q.past = (s.link.client.calls c).pc.past := fun hp hq => hp ▸ hq
  have notEarly : ∀ {c : Nat} {p : CallPc} {P : Prop}, (s.link.client.calls c).pc = p →
      p.early = true → (s.link.client.calls c).pc.early = false → P := fun hp hq hn => by
    cases ((congrArg CallPc.early hp).trans hq).symm.trans hn
  cases a with
  | call c reqData respBuffer =>
    have hp : (s.link.client.calls c).pc = .idle := he
    have hx : (next o m s.link.client (.call c reqData respBuffer)).calls c =
      { Call.blank with reqData := reqData, respBuffer := respBuffer, pc := .dequeue } := self rfl
    have hidle : s.link.delivered c = false := ((h.link.call c).early (by rw [hp]; rfl)).2
    refine h.callStep hm hall rfl rfl (fun d hd => Function.update_of_ne hd _ _) ?_
      fun hd => nomatch hidle.symm.trans hd
    have hx' : (systemNext o m s (.client (.call c reqData respBuffer))).link.client.calls c =
        { Call.blank with reqData := reqData, respBuffer := respBuffer, pc := .dequeue } := hx
    refine ⟨?_, ?_, (h.call c).sent, fun _ => (h.call c).unhandled hidle, Or.inl ?_, ?_, ?_, ?_⟩
    · rw [hx']
      exact of_decide_eq_true hsound
    · rw [hx']
      exact fun hq => hq.elim nofun nofun
    · rw [hx']
      exact (Function.update_self c _ s.given).symm
    · rw [hx']
      exact nofun
    · rw [hx']
      exact fun hq => hq.elim nofun nofun
    · rw [hx']
      rfl
  | dequeue c i =>
    have hp : (s.link.client.calls c).pc = .dequeue := he.1
    exact h.plain_step hm hall rfl rfl (self rfl) rfl (h.call c).sent rfl rfl rfl
      (notEarly hp rfl) (past hp rfl) rfl
  | fetchAdd c =>
    have hp : (s.link.client.calls c).pc = .fetchAdd := he
    exact h.plain_step hm hall rfl rfl (self rfl) rfl (h.call c).sent rfl rfl rfl
      (notEarly hp rfl) (past hp rfl) rfl
  | storeWaiter c =>
    have hp : (s.link.client.calls c).pc = .storeWaiter := he
    exact h.plain_step hm hall rfl rfl (self rfl) rfl (h.call c).sent rfl rfl rfl
      (notEarly hp rfl) (past hp rfl) rfl
  | storeBuffer c =>
    have hp : (s.link.client.calls c).pc = .storeBuffer := he
    exact h.plain_step hm hall rfl rfl (self rfl) rfl (h.call c).sent rfl rfl rfl
      (notEarly hp rfl) (past hp rfl) rfl
  | storeId c =>
    have hp : (s.link.client.calls c).pc = .storeId := he
    exact h.plain_step hm hall rfl rfl (self rfl) rfl (h.call c).sent rfl rfl rfl
      (notEarly hp rfl) (past hp rfl) rfl
  | fill c =>
    have hp : (s.link.client.calls c).pc = .fill := he
    exact h.local_step hm hall rfl rfl (self rfl) rfl (h.call c).sent rfl rfl rfl
      (notEarly hp rfl) (past hp rfl) (fun _ => heldAt_fill _ _ _ _) nofun
      (fun hq => hq.elim nofun nofun)
  | suspend c =>
    have hp : (s.link.client.calls c).pc = .suspend := he
    exact h.plain_step hm hall rfl rfl (self rfl) rfl (h.call c).sent rfl rfl rfl (fun _ => rfl)
      (past hp rfl) rfl
  | resume c =>
    have hp : (s.link.client.calls c).pc = .resume := he
    exact h.local_step hm hall rfl rfl (self rfl) rfl (h.call c).sent rfl rfl rfl (fun _ => rfl)
      (past hp rfl) (fun hq => hq.elim nofun nofun) nofun fun _ => (h.call c).resume hp
  | enqueue c =>
    have hp : (s.link.client.calls c).pc = .enqueue := he
    exact h.local_step hm hall rfl rfl (self rfl) rfl (h.call c).sent rfl rfl rfl (fun _ => rfl)
      (past hp rfl) (fun hq => hq.elim nofun nofun) nofun fun _ => (h.call c).done (Or.inl hp)
  | post c ok =>
    have hp : (s.link.client.calls c).pc = .post := he
    have hsent : (s.link.tell (.post c ok)).sends c = if ok then .posted else .idle :=
      Function.update_self c _ s.link.sends
    obtain rfl : ok = true := hsound
    refine h.local_step hm hall rfl rfl (self rfl) rfl ?_ rfl rfl rfl (fun _ => rfl) (past hp rfl)
      (fun _ => (h.call c).request (Or.inl hp)) nofun (fun hq => hq.elim nofun nofun)
    rw [hsent]
    exact nofun
  | sendDone c ok =>
    have hp : (s.link.client.calls c).pc = .sending := he
    have hsent : (s.link.tell (.sendDone c ok)).sends c = .dispatched ok :=
      Function.update_self c _ s.link.sends
    cases ok with
    | false => exact absurd hpermit (h.call c).sent
    | true =>
      refine h.plain_step hm hall rfl rfl (self rfl) rfl ?_ rfl rfl rfl (fun _ => rfl)
        (past hp rfl) rfl
      rw [hsent]
      exact nofun
  | _ => cases hw

/-! ## 4. Statements of a worker -/

theorem tell_of_worker {s : Link} {a : Action} (hw : a.worker = some w) :
    (s.tell a).sends = s.sends ∧ (s.tell a).delivered = s.delivered ∧
      (s.tell a).answered = s.answered ∧ ∀ v, v ≠ w → (s.tell a).recvs v = s.recvs v := by
  cases a with
  | postRecv v ok | recvDone v packet =>
    refine ⟨rfl, rfl, rfl, fun u hu => Function.update_of_ne (fun he => hu ?_) _ _⟩
    exact he.trans (Option.some.inj hw)
  | check | copy | wake => exact ⟨rfl, rfl, rfl, fun _ _ => rfl⟩
  | _ => cases hw

/-- A statement of worker `w` leaves every other place but, it may be, the buffer of the call whose
    response it has. -/
theorem SystemInv.workerStep (hm : m < 2 ^ 32) (h : SystemInv o m s) {a : Action}
    (he : SystemEnabled s (.client a)) (hw : a.worker = some w)
    (hfault : (next o m s.link.client a).fault = none)
    (hcall : ∀ c, CallInv o (systemNext o m s (.client a)) c)
    (hk : ∀ c, Keeps s (systemNext o m s (.client a)) c)
    (hb : ∀ v c i, v ≠ w → s.link.carried v = some c → (s.link.client.workers v).pc = .waking i →
      KeepsBuffer s (systemNext o m s (.client a)) c ∧
        ((next o m s.link.client a).slots i).actualLen = (s.link.client.slots i).actualLen)
    (hpool : ∀ v, v ≠ w → Mem.Agree s.link.client.recvBufferPool
      (next o m s.link.client a).recvBufferPool (v * kRecvBufferSize) kRecvBufferSize)
    (hworker : WorkerInv o (systemNext o m s (.client a)) w) :
    SystemInv o m (systemNext o m s (.client a)) := by
  obtain ⟨-, hdelivered, hanswered, hrecvs⟩ := tell_of_worker (s := s.link) hw
  refine ⟨h.link_client hm he, (tell_error s.link a).trans h.error, hfault, hcall, fun v => ?_,
    fun v => ?_, fun v d hs => ?_, h.alone⟩
  · exact (h.server v).frame h.call rfl rfl rfl (Mem.Agree.refl _ _ _) (Mem.Agree.refl _ _ _)
      fun d _ => hk d
  · rcases eq_or_ne v w with rfl | hne
    · exact hworker
    · refine (h.worker v).frame (next_worker fun hs => ?_) (hrecvs v hne) (hpool v hne)
        (fun d _ => hk d) fun d i => hb v d i hne
      exact hne (Option.some.inj (hs.symm.trans hw))
  · obtain ⟨hd, ha⟩ := h.serving v d hs
    exact ⟨(congrFun hdelivered d).trans hd, (congrFun hanswered d).trans ha⟩

/-- What a statement of a worker leaves that touches no call. -/
structure WorkerFrame (s t : Client) : Prop where
  calls : t.calls = s.calls
  slots : t.slots = s.slots
  sendBufferPool : t.sendBufferPool = s.sendBufferPool
  fault : t.fault = s.fault

/-- A statement of worker `w` that touches no call. -/
theorem SystemInv.quietStep (hm : m < 2 ^ 32) (h : SystemInv o m s) {a : Action}
    (he : SystemEnabled s (.client a)) (hw : a.worker = some w)
    (hf : WorkerFrame s.link.client (next o m s.link.client a)) (hgiven : s.gives a = s.given)
    (hpool : ∀ v, v ≠ w → Mem.Agree s.link.client.recvBufferPool
      (next o m s.link.client a).recvBufferPool (v * kRecvBufferSize) kRecvBufferSize)
    (hworker : WorkerInv o (systemNext o m s (.client a)) w) :
    SystemInv o m (systemNext o m s (.client a)) := by
  obtain ⟨hsends, hdelivered, -, -⟩ := tell_of_worker (s := s.link) hw
  have hx : ∀ c, (next o m s.link.client a).calls c = s.link.client.calls c := congrFun hf.calls
  have hlen : ∀ i, ((next o m s.link.client a).slots i).actualLen =
      (s.link.client.slots i).actualLen := fun i => congrArg RpcSlot.actualLen (congrFun hf.slots i)
  refine h.workerStep hm he hw (hf.fault.trans h.fault) (fun c => ?_) (fun c => ?_)
    (fun v c i _ _ _ => ⟨⟨congrFun hgiven c, congrArg Call.respBuffer (hx c)⟩, hlen i⟩) hpool hworker
  · refine (h.call c).frame (hx c) (congrFun hsends c)
      (fun hd => (congrFun hdelivered c).symm.trans hd) (congrFun hgiven c) rfl (fun _ => ?_)
      fun _ => hlen _
    rw [show (systemNext o m s (.client a)).link.client.sendBufferPool = _ from hf.sendBufferPool]
    exact Mem.Agree.refl _ _ _
  · exact ⟨congrArg Call.reqData (hx c), congrArg Call.reqId (hx c), rfl⟩

theorem SystemInv.postRecv_step (hm : m < 2 ^ 32) (h : SystemInv o m s) {ok : Bool}
    (he : SystemEnabled s (.client (.postRecv w ok))) :
    SystemInv o m (systemNext o m s (.client (.postRecv w ok))) := by
  obtain rfl : ok = true := he.1
  have hr : (systemNext o m s (.client (.postRecv w true))).link.recvs w = .posted :=
    Function.update_self w _ s.link.recvs
  refine h.quietStep hm he rfl ⟨rfl, rfl, rfl, rfl⟩ rfl (fun _ _ => Mem.Agree.refl _ _ _)
    ⟨?_, ?_, ?_, ?_⟩
  · rw [hr]
    exact nofun
  · rw [hr]
    exact nofun
  · rw [hr]
    exact nofun
  · rw [hr]
    exact nofun

/-- The response is in the worker's buffer. -/
theorem SystemInv.recvDone_step (hm : m < 2 ^ 32) (h : SystemInv o m s)
    {packet : Option (List UInt8)} (he : SystemEnabled s (.client (.recvDone w packet))) :
    SystemInv o m (systemNext o m s (.client (.recvDone w packet))) := by
  obtain ⟨-, ⟨-, -, hmax⟩, hpermit⟩ := id he
  cases packet with
  | none =>
    -- nothing is flushed
    have hr : (s.link.recvs w).completion = some none := hpermit
    cases hs : s.link.recvs w with
    | flushed => exact absurd hs (h.worker w).flushed
    | _ =>
      rw [hs] at hr
      cases hr
  | some bytes =>
    obtain ⟨c, hc⟩ := packet_of_completion hpermit
    have hr : (systemNext o m s (.client (.recvDone w (some bytes)))).link.recvs w = .handled c := by
      refine (Function.update_self w _ s.link.recvs).trans ?_
      rw [hc]
      rfl
    have hz : (systemNext o m s (.client (.recvDone w (some bytes)))).link.client.workers w =
        ⟨.received, bytes.length⟩ := Function.update_self w _ s.link.client.workers
    refine h.quietStep hm he rfl ⟨rfl, rfl, rfl, rfl⟩ rfl
      (fun v hv => Mem.agree_write_block hv (Mem.within_start (hmax bytes rfl)))
      ⟨?_, ?_, ?_, ?_⟩
    · rw [hr]
      exact nofun
    · rw [hr]
      exact nofun
    · rw [hr]
      intro d hd _
      obtain rfl := RecvWr.handled.inj hd
      obtain ⟨response, hresp, hpacket⟩ := (h.worker w).packet c bytes hc
      exact ⟨response, hresp, hpacket.heldAt⟩
    · rw [hz]
      exact nofun

theorem identified_of_live {p : CallPc} {wr : SendWr} (h : Live p wr) : p.identified = true := by
  rcases h with ⟨rfl, -⟩ | rfl | rfl <;> rfl

/-- **The packet passes the check**, whatever worker receives it. -/
theorem SystemInv.verdict (hm : m < 2 ^ 32) (h : SystemInv o m s)
    (hp : (s.link.client.workers w).pc = .received) :
    ∃ c, s.link.recvs w = .handled c ∧
      s.link.client.verdict o m w = .ok (.matched (s.link.client.calls c).slotIdx) := by
  have hbusy : (s.link.client.workers w).pc.busy = true := by rw [hp]; rfl
  obtain ⟨c, hr, hc, -, -⟩ := h.link.busy_carried hbusy
  exact ⟨c, hr, h.link.verdict hm hr hbusy (identified_of_live (h.live hc))⟩

theorem SystemInv.check_step (hm : m < 2 ^ 32) (h : SystemInv o m s)
    (he : SystemEnabled s (.client (.check w))) :
    SystemInv o m (systemNext o m s (.client (.check w))) := by
  have hp : (s.link.client.workers w).pc = .received := he.2.1.2
  obtain ⟨c, hr, hverdict⟩ := h.verdict hm hp
  have hchecked : next o m s.link.client (.check w) = s.link.client.setWorker w
      { s.link.client.workers w with pc := .matched (s.link.client.calls c).slotIdx } := by
    show s.link.client.checked o m w = _
    unfold Client.checked
    rw [hverdict]
  have hz : (next o m s.link.client (.check w)).workers w =
      { s.link.client.workers w with pc := .matched (s.link.client.calls c).slotIdx } := by
    rw [hchecked]
    exact setWorker_self _ _ _
  have hpool : (next o m s.link.client (.check w)).recvBufferPool =
      s.link.client.recvBufferPool := by
    rw [hchecked]
    rfl
  have hcalls : (next o m s.link.client (.check w)).calls = s.link.client.calls := by
    rw [hchecked]
    rfl
  refine h.quietStep hm he rfl ?_ rfl (fun _ _ => ?_) ⟨(h.worker w).flushed, ?_, ?_, ?_⟩
  · rw [hchecked]
    exact ⟨rfl, rfl, rfl, rfl⟩
  · rw [hpool]
    exact Mem.Agree.refl _ _ _
  · intro d bytes hd
    cases (show s.link.recvs w = .packet d bytes from hd).symm.trans hr
  · intro d hd _
    obtain ⟨response, hresp, hheld⟩ := (h.worker w).held d hd (Or.inl hp)
    have hx := congrFun hcalls d
    refine ⟨response, hresp.keeps (congrArg Call.reqData hx) rfl, ?_⟩
    show HeldAt o ((next o m s.link.client (.check w)).calls d).reqId response
      (next o m s.link.client (.check w)).recvBufferPool _
    rw [hx, hpool]
    exact hheld
  · intro d i _ hi
    cases (congrArg Worker.pc hz).symm.trans hi

theorem overwrite_overwrite {buffer bytes : List UInt8} :
    overwrite (overwrite buffer bytes) bytes = overwrite buffer bytes := by
  unfold overwrite
  rw [List.drop_left' rfl]

theorem CallInv.length (h : CallInv o s c) :
    (s.link.client.calls c).respBuffer.length = (s.given c).length := by
  rcases h.buffer with hb | ⟨n, response, -, hn, hb⟩
  · rw [hb]
  · rw [hb]
    refine overwrite_length ?_
    rw [List.length_take]
    omega

/-- What the worker copies is the response, as far as the buffer goes. -/
theorem SystemInv.copied_response (h : SystemInv o m s) (hr : s.link.recvs w = .handled c)
    (hp : (s.link.client.workers w).pc = .matched i) :
    ∃ response, Handled s c response ∧
      s.link.client.copyLen o w i = min response.length (s.given c).length ∧
      s.link.client.recvBufferPool.read (w * kRecvBufferSize + headerSize)
        (s.link.client.copyLen o w i) = response.take (s.link.client.copyLen o w i) ∧
      i = (s.link.client.calls c).slotIdx ∧
      (s.link.client.slots i).userRespBuffer = some c := by
  have hcarried : s.link.carried w = some c := carried_of_handled hr (by rw [hp]; rfl)
  have hid := identified_of_live (h.live hcarried)
  have hbuffered : (s.link.client.calls c).pc.buffered = true := by
    revert hid
    cases (s.link.client.calls c).pc <;> first | exact fun _ => rfl | exact nofun
  obtain ⟨response, hresp, hheld⟩ := (h.worker w).held c hr (Or.inr ⟨i, hp⟩)
  have hi : i = (s.link.client.calls c).slotIdx := (h.link.worker w).slot c i hr (Or.inl hp)
  have hbuffer : (s.link.client.slots i).userRespBuffer = some c := by
    rw [hi]
    exact (h.link.client.own c (holds_of_identified hid)).buffered hbuffered
  have hsmall : response.length < UInt32.size := lt_of_le_of_lt hresp.2 (by decide)
  have hlen : s.link.client.copyLen o w i = min response.length (s.given c).length := by
    unfold Client.copyLen Client.respSize Client.header
    rw [hbuffer, hheld.header]
    show min (UInt32.ofNat response.length).toNat (s.link.client.calls c).respBuffer.length = _
    rw [UInt32.toNat_ofNat_of_lt' hsmall, (h.call c).length]
  refine ⟨response, hresp, hlen, ?_, hi, hbuffer⟩
  have hle : s.link.client.copyLen o w i ≤ response.length := by
    rw [hlen]
    exact Nat.min_le_left _ _
  rw [← Mem.read_take hle, hheld.payload]

/-- Written once or twice, the response is in the call's buffer. -/
theorem CallInv.got (h : CallInv o s c) {response : List UInt8} (hr : Handled s c response)
    (hn : n = min response.length (s.given c).length) :
    overwrite (s.link.client.calls c).respBuffer (response.take n) =
      overwrite (s.given c) (response.take n) := by
  rcases h.buffer with hb | ⟨n', response', hr', hn', hb⟩
  · rw [hb]
  · -- there is one response
    have hsame : response' = response := by
      have hlist := hr'.1.symm.trans hr.1
      exact (Prod.mk.inj (List.cons.inj hlist).1).2
    rw [hsame] at hn' hb
    rw [hb, hn', hn]
    exact overwrite_overwrite

/-- The response is in the call's buffer. -/
theorem SystemInv.copy_step (hm : m < 2 ^ 32) (h : SystemInv o m s)
    (he : SystemEnabled s (.client (.copy w i))) :
    SystemInv o m (systemNext o m s (.client (.copy w i))) := by
  have hp : (s.link.client.workers w).pc = .matched i := he.2.1.2
  obtain ⟨c, hr, hcarried, -, -⟩ := h.link.busy_carried (w := w) (by rw [hp]; rfl)
  obtain ⟨response, hresp, hlen, hread, hi, hbuffer⟩ := h.copied_response hr hp
  have hlive := h.live hcarried
  have hholds := holds_of_live hlive
  obtain ⟨x, hx⟩ : ∃ x : Call, x = { s.link.client.calls c with
      respBuffer := overwrite (s.link.client.calls c).respBuffer
        (response.take (s.link.client.copyLen o w i)) } := ⟨_, rfl⟩
  have hcopied : s.link.client.copied o w i = s.link.client.setCall c x := by
    unfold Client.copied
    rw [hbuffer, hx]
    dsimp only
    rw [hread]
  have hnext : next o m s.link.client (.copy w i) = ((s.link.client.setCall c x).setSlot i
      { s.link.client.slots i with actualLen := s.link.client.copyLen o w i }).setWorker w
        { s.link.client.workers w with pc := .waking i } := by
    rw [← hcopied]
    rfl
  have hself : (next o m s.link.client (.copy w i)).calls c = x := by
    rw [hnext]
    exact setCall_self _ _ _
  have hpc : x.pc = (s.link.client.calls c).pc := (congrArg Call.pc hx :)
  have hother : ∀ d, d ≠ c →
      (next o m s.link.client (.copy w i)).calls d = s.link.client.calls d := fun d hd => by
    rw [hnext]
    exact setCall_of_ne _ hd _
  have hslot : ((next o m s.link.client (.copy w i)).slots i).actualLen =
      s.link.client.copyLen o w i := by
    rw [hnext]
    exact congrArg RpcSlot.actualLen (Function.update_self i _ s.link.client.slots)
  have hslots : ∀ j, j ≠ i → (next o m s.link.client (.copy w i)).slots j =
      s.link.client.slots j := fun j hj => by
    rw [hnext]
    exact Function.update_of_ne hj _ _
  have hk : ∀ d, Keeps s (systemNext o m s (.client (.copy w i))) d := by
    intro d
    rcases eq_or_ne d c with rfl | hne
    · exact ⟨(congrArg Call.reqData (hself.trans hx) :), (congrArg Call.reqId (hself.trans hx) :),
        rfl⟩
    · exact ⟨congrArg Call.reqData (hother d hne), congrArg Call.reqId (hother d hne), rfl⟩
  -- the call has what it will find
  have hgot : Got (systemNext o m s (.client (.copy w i))) c (s.link.client.copyLen o w i) := by
    refine ⟨response, hresp.keeps (hk c).reqData rfl, hlen, ?_⟩
    exact (congrArg Call.respBuffer (hself.trans hx)).trans ((h.call c).got hresp hlen)
  have hagree : ∀ d, (s.link.client.calls d).pc.holds = true →
      Mem.Agree s.link.client.sendBufferPool (next o m s.link.client (.copy w i)).sendBufferPool
        ((s.link.client.calls d).slotIdx * kSendBufferSize) kSendBufferSize := fun d hd =>
    h.fill_agree hp nofun hd
  refine h.workerStep hm he rfl ?_ (fun d => ?_) hk (fun v d j hv hd hj => ?_) (fun v _ => ?_)
    ⟨(h.worker w).flushed, fun d bytes hd => ?_, fun d hd hj => ?_, fun d j hd hj => ?_⟩
  · rw [hnext]
    exact h.fault
  · rcases eq_or_ne d c with rfl | hne
    · have hself' : (systemNext o m s (.client (.copy w i))).link.client.calls d = x := hself
      have hquiet : ∀ {p : CallPc}, p.past = true → x.pc ≠ p := fun hpast he => by
        rw [← hpc, he] at hlive
        rcases hlive with ⟨hl, -⟩ | hl | hl <;> rw [hl] at hpast <;> cases hpast
      refine ⟨?_, fun hd => ?_, (h.call d).sent, (h.call d).unhandled, Or.inr ⟨_, hgot⟩, ?_, ?_, ?_⟩
      · rw [(hk d).reqData]
        exact (h.call d).size
      · rw [hself', hpc] at hd
        rw [(hk d).reqData, (hk d).reqId, congrArg Call.slotIdx (hself'.trans hx)]
        exact ((h.call d).request hd).agree (hagree d hholds) (request_size (h.call d).size)
      · rw [hself']
        exact fun hd => absurd hd (hquiet rfl)
      · rw [hself']
        exact fun hd => (hd.elim (hquiet rfl) (hquiet rfl)).elim
      · rw [hself', hpc, hx]
        exact (h.call d).resumed
    · refine (h.call d).frame (hother d hne) rfl id rfl rfl (hagree d) fun hd => ?_
      refine congrArg RpcSlot.actualLen (hslots _ fun hj => hne ?_)
      exact h.link.client.eq_of_slot hholds (by rw [hd]; rfl) (hj.trans hi)
  · have hne : d ≠ c := fun hdc => hv (h.link.once v w c (hdc ▸ hd) hcarried)
    have hji : j ≠ i := by
      have hbusy : (s.link.client.workers v).pc.busy = true := by rw [hj]; rfl
      obtain ⟨e, hre, hce, -, -⟩ := h.link.busy_carried hbusy
      obtain rfl : e = d := Option.some.inj (hce.symm.trans hd)
      have hje := (h.link.worker v).slot e j hre (Or.inr hj)
      intro hji
      exact hne (h.link.client.eq_of_slot hholds (holds_of_live (h.live hd))
        (hje.symm.trans (hji.trans hi)))
    exact ⟨⟨rfl, congrArg Call.respBuffer (hother d hne)⟩, congrArg RpcSlot.actualLen (hslots j hji)⟩
  · rw [hnext]
    exact Mem.Agree.refl _ _ _
  · cases (show s.link.recvs w = .packet d bytes from hd).symm.trans hr
  · have hz : (next o m s.link.client (.copy w i)).workers w =
        { s.link.client.workers w with pc := .waking i } := by
      rw [hnext]
      exact setWorker_self _ _ _
    rcases hj with hj | ⟨j, hj⟩ <;> cases (congrArg Worker.pc hz).symm.trans hj
  · have hz : (next o m s.link.client (.copy w i)).workers w =
        { s.link.client.workers w with pc := .waking i } := by
      rw [hnext]
      exact setWorker_self _ _ _
    obtain rfl : j = i := (WorkerPc.waking.inj ((congrArg Worker.pc hz).symm.trans hj)).symm
    obtain rfl : d = c := (RecvWr.handled.inj (hr.symm.trans hd)).symm
    rw [show ((systemNext o m s (.client (.copy w j))).link.client.slots j).actualLen = _ from hslot]
    exact hgot

/-- The call whose response it is is resumed. -/
theorem SystemInv.wake_step (hm : m < 2 ^ 32) (h : SystemInv o m s)
    (he : SystemEnabled s (.client (.wake w i k))) :
    SystemInv o m (systemNext o m s (.client (.wake w i k))) := by
  obtain ⟨hp, hk⟩ := he.2.1.2
  obtain ⟨hcarried, hwait⟩ := h.link.wakes hp hk
  obtain ⟨d, hr, hd, -, -⟩ := h.link.busy_carried (w := w) (by rw [hp]; rfl)
  obtain rfl : k = d := Option.some.inj (hcarried.symm.trans hd)
  have hi := (h.link.worker w).slot k i hr (Or.inr hp)
  have hgot := (h.worker w).copied k i hr hp
  obtain ⟨x, hx⟩ : ∃ x : Call, x = { s.link.client.calls k with
      pc := .resume, resumed := (s.link.client.calls k).resumed + 1 } := ⟨_, rfl⟩
  have hnext : next o m s.link.client (.wake w i k) = (s.link.client.setCall k x).setWorker w
      { s.link.client.workers w with pc := .post } := by
    show (s.link.client.resumed k).setWorker w _ = _
    unfold Client.resumed
    rw [if_pos hwait, hx]
  have hself : (next o m s.link.client (.wake w i k)).calls k = x := by
    rw [hnext]
    exact setCall_self _ _ _
  have hother : ∀ d, d ≠ k →
      (next o m s.link.client (.wake w i k)).calls d = s.link.client.calls d := fun d hd => by
    rw [hnext]
    exact setCall_of_ne _ hd _
  have hz : (next o m s.link.client (.wake w i k)).workers w =
      { s.link.client.workers w with pc := .post } := by
    rw [hnext]
    exact setWorker_self _ _ _
  have hslots : (next o m s.link.client (.wake w i k)).slots = s.link.client.slots := by
    rw [hnext]
    rfl
  have hlen : ∀ j, ((next o m s.link.client (.wake w i k)).slots j).actualLen =
      (s.link.client.slots j).actualLen := fun j => congrArg RpcSlot.actualLen (congrFun hslots j)
  have hdata : ∀ d, Keeps s (systemNext o m s (.client (.wake w i k))) d ∧
      KeepsBuffer s (systemNext o m s (.client (.wake w i k))) d := by
    intro d
    rcases eq_or_ne d k with rfl | hne
    · exact ⟨⟨(congrArg Call.reqData (hself.trans hx) :), (congrArg Call.reqId (hself.trans hx) :),
        rfl⟩, rfl, (congrArg Call.respBuffer (hself.trans hx) :)⟩
    · exact ⟨⟨congrArg Call.reqData (hother d hne), congrArg Call.reqId (hother d hne), rfl⟩, rfl,
        congrArg Call.respBuffer (hother d hne)⟩
  have hpool : (next o m s.link.client (.wake w i k)).sendBufferPool =
      s.link.client.sendBufferPool := (next_pools rfl).2
  refine h.workerStep hm he rfl ?_ (fun d => ?_) (fun d => (hdata d).1)
    (fun v d j _ _ _ => ⟨(hdata d).2, hlen j⟩) (fun v _ => ?_)
    ⟨(h.worker w).flushed, fun d bytes hd => ?_, fun d hd hj => ?_, fun d j hd hj => ?_⟩
  · rw [hnext]
    exact h.fault
  · rcases eq_or_ne d k with rfl | hne
    · have hself' : (systemNext o m s (.client (.wake w i d))).link.client.calls d = x := hself
      have hpc : x.pc = .resume := (congrArg Call.pc hx :)
      have hslot : x.slotIdx = (s.link.client.calls d).slotIdx := (congrArg Call.slotIdx hx :)
      have hgot' : Got (systemNext o m s (.client (.wake w i d))) d
          (s.link.client.slots i).actualLen := hgot.keeps (hdata d).1.reqData rfl (hdata d).2
      refine ⟨?_, ?_, (h.call d).sent, (h.call d).unhandled, Or.inr ⟨_, hgot'⟩, fun _ => ?_, ?_, ?_⟩
      · rw [(hdata d).1.reqData]
        exact (h.call d).size
      · rw [hself', hpc]
        exact fun hd => (hd.elim nofun nofun)
      · rw [hself', hslot, ← hi]
        rw [show ((systemNext o m s (.client (.wake w i d))).link.client.slots i).actualLen = _ from
          hlen i]
        exact hgot'
      · rw [hself', hpc]
        exact fun hd => (hd.elim nofun nofun)
      · have hcount := (h.call d).resumed
        rw [hwait] at hcount
        rw [hself', hpc, hx]
        exact congrArg (· + 1) hcount
    · refine (h.call d).frame (hother d hne) rfl id rfl rfl (fun _ => ?_) fun _ => hlen _
      rw [show (systemNext o m s (.client (.wake w i k))).link.client.sendBufferPool = _ from hpool]
      exact Mem.Agree.refl _ _ _
  · rw [hnext]
    exact Mem.Agree.refl _ _ _
  · cases (show s.link.recvs w = .packet d bytes from hd).symm.trans hr
  · rcases hj with hj | ⟨j, hj⟩ <;> cases (congrArg Worker.pc hz).symm.trans hj
  · cases (congrArg Worker.pc hz).symm.trans hj

/-- **Every statement of the client.** -/
theorem SystemInv.client_step (hm : m < 2 ^ 32) (h : SystemInv o m s) {a : Action}
    (he : SystemEnabled s (.client a)) : SystemInv o m (systemNext o m s (.client a)) := by
  cases a with
  | postRecv w ok => exact h.postRecv_step hm he
  | recvDone w packet => exact h.recvDone_step hm he
  | check w => exact h.check_step hm he
  | copy w i => exact h.copy_step hm he
  | wake w i k => exact h.wake_step hm he
  | _ => exact h.call_step hm he rfl

end Service

end Rpc
end Rdmapp
