/-
  File:      Rdmapp/Rpc/Answers.lean
  Subject:   EVERY CALL GETS THE ANSWER TO ITS OWN REQUEST.

  The statements of the server and the steps of the queue pair keep `SystemInv` too; so it holds in
  every state of client and server, and a call that has returned has the response to its request.
-/
import Rdmapp.Rpc.Service

namespace Rdmapp
namespace Rpc

open Lib

section Answers

variable {o : ByteOrder} {m k : Nat} {s t : System} {c d u v w : Nat}

/-! ## 1. Statements of the server -/

/-- Only server worker `v` moves, and of the calls only the one it serves. -/
structure ServerTurn (s t : System) (v : Nat) : Prop where
  link : t.link = s.link
  given : t.given = s.given
  workers : ∀ u, u ≠ v → t.server.workers u = s.server.workers u
  requests : ∀ u, u ≠ v → t.requests u = s.requests u
  replies : ∀ u, u ≠ v → t.replies u = s.replies u
  recv : ∀ u, u ≠ v → Mem.Agree s.server.recvBufferPool t.server.recvBufferPool
    (u * kSendBufferSize) kSendBufferSize
  send : ∀ u, u ≠ v → Mem.Agree s.server.sendBufferPool t.server.sendBufferPool
    (u * kRecvBufferSize) kRecvBufferSize
  handled : ∀ d, s.serving v ≠ some d → t.handled d = s.handled d
  serving : ∀ d, t.serving v = some d → s.serving v = some d

theorem ServerTurn.keeps (ht : ServerTurn s t v) (hd : t.handled d = s.handled d) :
    Keeps s t d := by
  refine ⟨?_, ?_, hd⟩
  · rw [ht.link]
  · rw [ht.link]

theorem ServerTurn.keepsBuffer (ht : ServerTurn s t v) : KeepsBuffer s t d := by
  refine ⟨congrFun ht.given d, ?_⟩
  rw [ht.link]

theorem ServerTurn.serving_eq (ht : ServerTurn s t v) (hs : t.serving u = some d) :
    s.serving u = some d := by
  rcases eq_or_ne u v with rfl | hne
  · exact ht.serving d hs
  · rw [← serving_congr (ht.requests u hne) (ht.workers u hne) (ht.replies u hne)]
    exact hs

/-- A call whose request the handler does not run on now. -/
theorem ServerTurn.call (ht : ServerTurn s t v) (h : CallInv o s d)
    (hd : t.handled d = s.handled d) : CallInv o t d := by
  refine h.frame ?_ ?_ (fun hdel => ?_) (congrFun ht.given d) hd (fun _ => ?_) fun _ => ?_
  · rw [ht.link]
  · rw [ht.link]
  · rw [ht.link] at hdel
    exact hdel
  · rw [ht.link]
    exact Mem.Agree.refl _ _ _
  · rw [ht.link]

/-- A statement of server worker `v` leaves every other place. -/
theorem SystemInv.serverTurn (h : SystemInv o m s) (ht : ServerTurn s t v)
    (hserver : ServerInv o t v) (hcall : ∀ d, s.serving v = some d → CallInv o t d) :
    SystemInv o m t where
  link := ht.link ▸ h.link
  error := ht.link ▸ h.error
  fault := ht.link ▸ h.fault
  call d := by
    by_cases hd : s.serving v = some d
    · exact hcall d hd
    · exact ht.call (h.call d) (ht.handled d hd)
  server u := by
    rcases eq_or_ne u v with rfl | hne
    · exact hserver
    · refine (h.server u).frame h.call (ht.workers u hne) (ht.requests u hne) (ht.replies u hne)
        (ht.recv u hne) (ht.send u hne) fun d hd => ht.keeps (ht.handled d fun hv => hne ?_)
      exact h.alone u v d hd hv
  worker w := by
    -- the response of a call that is served is not on its way
    have hother : ∀ d, s.link.carried w = some d → t.handled d = s.handled d := fun d hd =>
      ht.handled d fun hv => by
        cases (h.link.carried w d hd).1.symm.trans (h.serving v d hv).2
    refine (h.worker w).frame ?_ ?_ ?_ (fun d hd => ht.keeps (hother d hd))
      fun d i _ _ => ⟨ht.keepsBuffer, ?_⟩
    · rw [ht.link]
    · rw [ht.link]
    · rw [ht.link]
      exact Mem.Agree.refl _ _ _
    · rw [ht.link]
  serving u d hs := ht.link ▸ h.serving u d (ht.serving_eq hs)
  alone u u' d hs hs' := h.alone u u' d (ht.serving_eq hs) (ht.serving_eq hs')

/-- A statement of server worker `v` that is not the handler's. -/
theorem SystemInv.serverQuiet (h : SystemInv o m s) (ht : ServerTurn s t v)
    (hh : t.handled = s.handled) (hserver : ServerInv o t v) : SystemInv o m t :=
  h.serverTurn ht hserver fun d _ => ht.call (h.call d) (congrFun hh d)

/-- A worker that is not on its receive has none. -/
theorem ServerInv.not_receiving (h : ServerInv o s v) (hp : (s.server.workers v).pc ≠ .receiving) :
    s.requests v ≠ .posted ∧ (s.requests v).completion.isSome ≠ true :=
  not_or.mp fun hr => hp (h.receiving.mpr hr)

/-- A worker that is not on its send has none. -/
theorem ServerInv.not_sending (h : ServerInv o s v) (hp : (s.server.workers v).pc ≠ .sending) :
    s.replies v ≠ .posted ∧ s.replies v ≠ .done true :=
  not_or.mp fun hr => hp (h.sending.mpr hr)

/-- A worker between its receive and the post of its send. -/
theorem ServerInv.of_active {p : ServerPc} (hr : t.requests v = .handled c)
    (hp : (t.server.workers v).pc = p) (ha : p.active = true)
    (hs : t.replies v ≠ .posted ∧ t.replies v ≠ .done true)
    (hrequest : p = .schedule ∨ p = .handle →
      HeldAt o (t.link.client.calls c).reqId (t.link.client.calls c).reqData
        t.server.recvBufferPool (v * kSendBufferSize) ∧
      (t.server.workers v).nbytes = headerSize + (t.link.client.calls c).reqData.length ∧
      t.handled c = [])
    (hstamp : p = .stamp → ∃ response, Handled t c response ∧
      (RpcHeader.load o t.server.recvBufferPool (v * kSendBufferSize)).reqId =
        (t.link.client.calls c).reqId ∧
      (t.server.workers v).respPayloadLen = response.length ∧
      t.server.sendBufferPool.read (v * kRecvBufferSize + headerSize) response.length = response)
    (hreply : p = .send → ∃ response, Handled t c response ∧
      (t.server.workers v).respPayloadLen = response.length ∧
      HeldAt o (t.link.client.calls c).reqId response t.server.sendBufferPool
        (v * kRecvBufferSize)) : ServerInv o t v := by
  subst hp
  have hcall : ∀ d, t.requests v = .handled d → c = d := fun d hd =>
    RecvWr.handled.inj (hr.symm.trans hd)
  refine ⟨iff_of_false ?_ ?_, fun _ => ⟨c, hr⟩, iff_of_false ?_ (not_or.mpr hs), ?_,
    fun d hd => ?_, fun d hd => ?_, fun d hd hp => ?_⟩
  · intro hp
    rw [hp] at ha
    cases ha
  · rw [hr]
    exact (fun hr => hr.elim nofun nofun)
  · intro hp
    rw [hp] at ha
    cases ha
  · rw [hr]
    exact nofun
  · obtain rfl := hcall d hd
    exact hrequest
  · obtain rfl := hcall d hd
    exact hstamp
  · obtain rfl := hcall d hd
    exact hreply (hp.resolve_right hs.1)

/-- A worker before its receive or on it, with nothing received. -/
theorem ServerInv.of_idle (ha : (t.server.workers v).pc.active = false)
    (hreceiving : (t.server.workers v).pc = .receiving ↔ t.requests v = .posted)
    (hpacket : (t.requests v).completion.isSome = false)
    (hsending : (t.server.workers v).pc ≠ .sending)
    (hs : t.replies v ≠ .posted ∧ t.replies v ≠ .done true) : ServerInv o t v := by
  have hpc : ∀ {p : ServerPc}, p.active = true → (t.server.workers v).pc ≠ p := fun hp he => by
    rw [he, hp] at ha
    cases ha
  refine ⟨?_, ?_, iff_of_false hsending (not_or.mpr hs), fun d bytes hd => ?_, fun d _ hp => ?_,
    fun d _ hp => ?_, fun d _ hp => ?_⟩
  · rw [hpacket]
    exact hreceiving.trans (or_iff_left nofun).symm
  · rw [ha]
    exact nofun
  · rw [hd] at hpacket
    cases hpacket
  · exact (hp.elim (hpc rfl) (hpc rfl)).elim
  · exact absurd hp (hpc rfl)
  · exact (hp.elim (hpc rfl) hs.1).elim

theorem SystemInv.server_postRecv (h : SystemInv o m s)
    (he : SystemEnabled s (.server (.postRecv v))) :
    SystemInv o m (systemNext o m s (.server (.postRecv v))) := by
  have hp : (s.server.workers v).pc = .post := he.1
  have hr : (systemNext o m s (.server (.postRecv v))).requests v = .posted :=
    Function.update_self v _ s.requests
  have hz : (systemNext o m s (.server (.postRecv v))).server.workers v =
      { s.server.workers v with pc := .receiving } := Function.update_self v _ s.server.workers
  have hpc : ((systemNext o m s (.server (.postRecv v))).server.workers v).pc = .receiving :=
    congrArg ServerWorker.pc hz
  refine h.serverQuiet (v := v) ⟨rfl, rfl, fun u hu => Function.update_of_ne hu _ _,
    fun u hu => Function.update_of_ne hu _ _, fun _ _ => rfl, fun _ _ => Mem.Agree.refl _ _ _,
    fun _ _ => Mem.Agree.refl _ _ _, fun _ _ => rfl, fun d hd => ?_⟩ rfl
    (ServerInv.of_idle ?_ ?_ ?_ ?_ ((h.server v).not_sending ?_))
  · unfold System.serving at hd
    rw [hr] at hd
    cases hd
  · rw [hpc]
    rfl
  · exact iff_of_true hpc hr
  · rw [hr]
    rfl
  · rw [hpc]
    exact nofun
  · rw [hp]
    exact nofun

/-- The request is in the worker's buffer. -/
theorem SystemInv.server_recvDone (h : SystemInv o m s) {bytes : List UInt8}
    (he : SystemEnabled s (.server (.recvDone v bytes))) :
    SystemInv o m (systemNext o m s (.server (.recvDone v bytes))) := by
  obtain ⟨hp, hcompletion⟩ :
    (s.server.workers v).pc = .receiving ∧ (s.requests v).completion = some (some bytes) := he
  obtain ⟨c, hc⟩ : ∃ c, s.requests v = .packet c bytes := by
    cases hs : s.requests v <;> rw [hs] at hcompletion <;> cases hcompletion
    exact ⟨_, rfl⟩
  obtain ⟨hpacket, hun⟩ := (h.server v).packet c bytes hc
  have hlen : ¬ bytes.length < headerSize := by
    have hl := hpacket.length
    omega
  have hsize : bytes.length ≤ kSendBufferSize := by
    rw [hpacket.length]
    exact request_size (h.call c).size
  have hr : (systemNext o m s (.server (.recvDone v bytes))).requests v = .handled c := by
    refine (Function.update_self v _ s.requests).trans ?_
    rw [hc]
    rfl
  have hz : (systemNext o m s (.server (.recvDone v bytes))).server.workers v =
      { s.server.workers v with pc := .schedule, nbytes := bytes.length } := by
    refine (Function.update_self v _ s.server.workers).trans ?_
    rw [if_neg hlen]
  refine h.serverQuiet (v := v) ⟨rfl, rfl, fun u hu => Function.update_of_ne hu _ _,
    fun u hu => Function.update_of_ne hu _ _, fun _ _ => rfl,
    fun u hu => Mem.agree_write_block hu (Mem.within_start hsize),
    fun _ _ => Mem.Agree.refl _ _ _, fun _ _ => rfl, fun d hd => ?_⟩ rfl
    (ServerInv.of_active hr (congrArg ServerWorker.pc hz) rfl ((h.server v).not_sending ?_)
      (fun _ => ⟨hpacket.heldAt, ?_, hun⟩) nofun nofun)
  · rw [← (handled_of_serving hd hr).1]
    exact serving_of_packet hc
  · rw [hp]
    exact nofun
  · rw [hz]
    exact hpacket.length

/-- A statement between the receive and the send leaves the worker its call. -/
theorem serving_of_active (hr : t.requests v = s.requests v) (hs : t.replies v = s.replies v)
    (ha : (s.server.workers v).pc.active = true) (hd : t.serving v = some d) :
    s.serving v = some d := by
  unfold System.serving at hd ⊢
  rw [hr, hs] at hd
  cases hc : s.requests v with
  | handled c =>
    rw [hc] at hd
    dsimp only at hd ⊢
    rw [if_pos (Or.inl ha)]
    split_ifs at hd
    exact hd
  | packet c bytes =>
    rw [hc] at hd
    exact hd
  | _ =>
    rw [hc] at hd
    cases hd

theorem SystemInv.server_schedule (h : SystemInv o m s)
    (he : SystemEnabled s (.server (.schedule v))) :
    SystemInv o m (systemNext o m s (.server (.schedule v))) := by
  have hp : (s.server.workers v).pc = .schedule := he.1
  have ha : (s.server.workers v).pc.active = true := by rw [hp]; rfl
  obtain ⟨c, hr⟩ := (h.server v).active ha
  have hz : (systemNext o m s (.server (.schedule v))).server.workers v =
      { s.server.workers v with pc := .handle } := Function.update_self v _ s.server.workers
  obtain ⟨hheld, hn, hun⟩ := (h.server v).request c hr (Or.inl hp)
  refine h.serverQuiet (v := v) ⟨rfl, rfl, fun u hu => Function.update_of_ne hu _ _,
    fun _ _ => rfl, fun _ _ => rfl, fun _ _ => Mem.Agree.refl _ _ _,
    fun _ _ => Mem.Agree.refl _ _ _, fun _ _ => rfl, fun d => serving_of_active rfl rfl ha⟩ rfl
    (ServerInv.of_active hr (congrArg ServerWorker.pc hz) rfl ((h.server v).not_sending ?_)
      (fun _ => ⟨hheld, ?_, hun⟩) nofun nofun)
  · rw [hp]
    exact nofun
  · rw [hz]
    exact hn

/-- **The handler runs on the payload of the request**, once. -/
theorem SystemInv.server_handle (h : SystemInv o m s) {payload resp : List UInt8} {n : Nat}
    (he : SystemEnabled s (.server (.handle v payload resp n))) :
    SystemInv o m (systemNext o m s (.server (.handle v payload resp n))) := by
  obtain ⟨hp, hpayload, hmax, hn⟩ := he.1
  have ha : (s.server.workers v).pc.active = true := by rw [hp]; rfl
  obtain ⟨c, hr⟩ := (h.server v).active ha
  obtain ⟨hheld, hnbytes, hun⟩ := (h.server v).request c hr (Or.inr hp)
  have hserving : s.serving v = some c := serving_of_handled hr (Or.inl ha)
  have hread : s.server.payload v = (s.link.client.calls c).reqData := by
    unfold Server.payload
    rw [hnbytes, Nat.add_sub_cancel_left]
    exact hheld.payload
  have htake : (resp.take n).length = n := by
    rw [List.length_take]
    exact Nat.min_eq_left hn
  obtain ⟨t, ht⟩ : ∃ t, t = systemNext o m s (.server (.handle v payload resp n)) := ⟨_, rfl⟩
  have htell : s.tell (.handle v payload resp n) = { s with
      handled := Function.update s.handled c
        (s.handled c ++ [(s.server.payload v, resp.take n)]) } := by
    simp only [System.tell, hr]
  have hz : t.server.workers v =
      { s.server.workers v with pc := .stamp, respPayloadLen := n } := by
    rw [ht]
    exact Function.update_self v _ s.server.workers
  have hlink : t.link = s.link := by
    rw [ht]
    exact (congrArg System.link htell :)
  have hrequests : t.requests = s.requests := by
    rw [ht]
    exact (congrArg System.requests htell :)
  have hreplies : t.replies = s.replies := by
    rw [ht]
    exact (congrArg System.replies htell :)
  have hhandled : t.handled = Function.update s.handled c
      [((s.link.client.calls c).reqData, resp.take n)] := by
    rw [ht]
    refine (congrArg System.handled htell).trans ?_
    rw [hun, hread]
    rfl
  have hresp : Handled t c (resp.take n) := by
    constructor
    · rw [hhandled, Function.update_self, hlink]
    · omega
  have hturn : ServerTurn s t v := by
    refine ⟨hlink, ?_, fun u hu => ?_, fun u _ => congrFun hrequests u,
      fun u _ => congrFun hreplies u, fun u hu => ?_, fun u hu => ?_, fun d hd => ?_,
      fun d => serving_of_active (congrFun hrequests v) (congrFun hreplies v) ha⟩
    · rw [ht]
      exact (congrArg System.given htell :)
    · rw [ht]
      exact Function.update_of_ne hu _ _
    · rw [ht]
      refine Mem.agree_write_block hu (Mem.within_offset ?_)
      rw [hpayload, hread]
      exact request_size (h.call c).size
    · rw [ht]
      refine Mem.agree_write_block hu (Mem.within_offset ?_)
      unfold kRecvBufferSize
      omega
    · rw [hhandled]
      refine Function.update_of_ne (fun hdc => hd ?_) _ _
      rw [hdc]
      exact hserving
  refine ht ▸ h.serverTurn hturn (ServerInv.of_active ((congrFun hrequests v).trans hr)
    (congrArg ServerWorker.pc hz) rfl ?_ (fun hq => hq.elim nofun nofun)
    (fun _ => ⟨resp.take n, hresp, ?_, ?_, ?_⟩) nofun) fun d hd => ?_
  · rw [hreplies]
    refine (h.server v).not_sending ?_
    rw [hp]
    exact nofun
  · -- the handler does not reach the header of the request
    have hkeep : Mem.Agree s.server.recvBufferPool t.server.recvBufferPool (v * kSendBufferSize)
        headerSize := by
      rw [ht]
      exact Mem.agree_write (Or.inl (Nat.le_refl _))
    rw [load_agree hkeep (Nat.le_refl _), hheld.header, hlink]
  · rw [hz]
    exact htake.symm
  · have hwritten : t.server.sendBufferPool.read (v * kRecvBufferSize + headerSize) resp.length =
        resp := by
      rw [ht]
      exact Mem.read_write _ _ _
    rw [htake, ← Mem.read_take hn, hwritten]
  · -- nothing has been copied for this call yet
    obtain rfl : c = d := Option.some.inj (hserving.symm.trans hd)
    have hc := h.call c
    have hnot : ∀ {l : Nat}, ¬ Got s c l := fun hgot => hgot.handled hun
    have hdel := (h.serving v c hserving).1
    refine ⟨?_, fun hq => ?_, ?_, fun hq => ?_, ?_, fun hq => ?_, fun hq => ?_, ?_⟩
    · rw [hlink]
      exact hc.size
    · rw [hlink] at hq ⊢
      exact hc.request hq
    · rw [hlink]
      exact hc.sent
    · rw [hlink] at hq
      cases hdel.symm.trans hq
    · rw [hlink, hturn.given]
      exact Or.inl (hc.buffer.resolve_right fun ⟨l, hl⟩ => hnot hl)
    · rw [hlink] at hq
      exact absurd (hc.resume hq) hnot
    · rw [hlink] at hq
      exact absurd (hc.done hq) hnot
    · rw [hlink]
      exact hc.resumed

/-- The response gets the id of the request. -/
theorem SystemInv.server_stamp (h : SystemInv o m s)
    (he : SystemEnabled s (.server (.stamp v))) :
    SystemInv o m (systemNext o m s (.server (.stamp v))) := by
  have hp : (s.server.workers v).pc = .stamp := he.1
  have ha : (s.server.workers v).pc.active = true := by rw [hp]; rfl
  obtain ⟨c, hr⟩ := (h.server v).active ha
  obtain ⟨response, hresp, hid, hlen, hread⟩ := (h.server v).stamp c hr hp
  have hz : (systemNext o m s (.server (.stamp v))).server.workers v =
      { s.server.workers v with pc := .send } := Function.update_self v _ s.server.workers
  refine h.serverQuiet (v := v) ⟨rfl, rfl, fun u hu => Function.update_of_ne hu _ _,
    fun _ _ => rfl, fun _ _ => rfl, fun _ _ => Mem.Agree.refl _ _ _, fun u hu => agree_store _ ?_,
    fun _ _ => rfl, fun d => serving_of_active rfl rfl ha⟩ rfl
    (ServerInv.of_active hr (congrArg ServerWorker.pc hz) rfl ((h.server v).not_sending ?_)
      (fun hq => hq.elim nofun nofun) nofun fun _ => ⟨response, hresp, ?_, ?_⟩)
  · exact Mem.apart_of_blocks hu ⟨Nat.le_refl _, Nat.le_refl _⟩ (Mem.within_start (by decide))
  · rw [hp]
    exact nofun
  · rw [hz]
    exact hlen
  · have hheld : HeldAt o (s.link.client.calls c).reqId response
        (systemNext o m s (.server (.stamp v))).server.sendBufferPool (v * kRecvBufferSize) := by
      show HeldAt o _ response (RpcHeader.store o ⟨_, UInt32.ofNat _⟩ _ _) _
      rw [hid, hlen]
      exact heldAt_stamp hread
    exact hheld

theorem SystemInv.server_send (h : SystemInv o m s) (he : SystemEnabled s (.server (.send v))) :
    SystemInv o m (systemNext o m s (.server (.send v))) := by
  have hp : (s.server.workers v).pc = .send := he.1
  have ha : (s.server.workers v).pc.active = true := by rw [hp]; rfl
  obtain ⟨c, hr⟩ := (h.server v).active ha
  have hreply := (h.server v).reply c hr (Or.inl hp)
  have hserving : s.serving v = some c := serving_of_handled hr (Or.inl ha)
  have hz : (systemNext o m s (.server (.send v))).server.workers v =
      { s.server.workers v with pc := .sending } := Function.update_self v _ s.server.workers
  have hpc : ((systemNext o m s (.server (.send v))).server.workers v).pc = .sending :=
    congrArg ServerWorker.pc hz
  have hlen : ((systemNext o m s (.server (.send v))).server.workers v).respPayloadLen =
      (s.server.workers v).respPayloadLen := (congrArg ServerWorker.respPayloadLen hz :)
  have hs : (systemNext o m s (.server (.send v))).replies v = .posted :=
    Function.update_self v _ s.replies
  have hcall : ∀ d, s.requests v = .handled d → c = d := fun d hd =>
    RecvWr.handled.inj (hr.symm.trans hd)
  refine h.serverQuiet (v := v) ⟨rfl, rfl, fun u hu => Function.update_of_ne hu _ _,
    fun _ _ => rfl, fun u hu => Function.update_of_ne hu _ _, fun _ _ => Mem.Agree.refl _ _ _,
    fun _ _ => Mem.Agree.refl _ _ _, fun _ _ => rfl, fun d hd => ?_⟩ rfl
    ⟨?_, ?_, iff_of_true hpc (Or.inl hs), ?_, ?_, ?_, ?_⟩
  · rw [← (handled_of_serving hd hr).1]
    exact hserving
  · rw [hpc]
    exact iff_of_false nofun (not_or.mpr ((h.server v).not_receiving (by rw [hp]; exact nofun)))
  · rw [hpc]
    exact nofun
  · exact (h.server v).packet
  · rw [hpc]
    exact fun _ _ hq => hq.elim nofun nofun
  · rw [hpc]
    exact nofun
  · intro d hd _
    obtain rfl := hcall d hd
    rw [hlen]
    exact hreply

theorem SystemInv.server_sendDone (h : SystemInv o m s)
    (he : SystemEnabled s (.server (.sendDone v))) :
    SystemInv o m (systemNext o m s (.server (.sendDone v))) := by
  have hp : (s.server.workers v).pc = .sending := he.1
  have hpc : ((systemNext o m s (.server (.sendDone v))).server.workers v).pc = .post :=
    congrArg ServerWorker.pc (Function.update_self v _ s.server.workers)
  have hs : (systemNext o m s (.server (.sendDone v))).replies v = .dispatched true :=
    Function.update_self v _ s.replies
  obtain ⟨hposted, hnone⟩ := (h.server v).not_receiving (by rw [hp]; exact nofun)
  refine h.serverQuiet (v := v) ⟨rfl, rfl, fun u hu => Function.update_of_ne hu _ _,
    fun _ _ => rfl, fun u hu => Function.update_of_ne hu _ _, fun _ _ => Mem.Agree.refl _ _ _,
    fun _ _ => Mem.Agree.refl _ _ _, fun _ _ => rfl, fun d hd => ?_⟩ rfl
    (ServerInv.of_idle ?_ ?_ (Bool.eq_false_of_not_eq_true hnone) ?_ ?_)
  · -- the worker serves nobody any more
    unfold System.serving at hd ⊢
    cases hr : s.requests v with
    | packet c bytes => exact absurd (by rw [hr]; rfl) hnone
    | handled c =>
      rw [show (systemNext o m s (.server (.sendDone v))).requests v = _ from hr] at hd
      dsimp only at hd
      rw [hpc, hs] at hd
      cases hd
    | _ =>
      rw [show (systemNext o m s (.server (.sendDone v))).requests v = _ from hr] at hd
      cases hd
  · rw [hpc]
    rfl
  · rw [hpc]
    exact iff_of_false nofun hposted
  · rw [hpc]
    exact nofun
  · rw [hs]
    exact ⟨nofun, nofun⟩

/-- **Every statement of the server.** -/
theorem SystemInv.server_step (h : SystemInv o m s) {a : ServerAction}
    (he : SystemEnabled s (.server a)) : SystemInv o m (systemNext o m s (.server a)) := by
  cases a with
  | postRecv v => exact h.server_postRecv he
  | recvDone v bytes => exact h.server_recvDone he
  | schedule v => exact h.server_schedule he
  | handle v payload resp n => exact h.server_handle he
  | stamp v => exact h.server_stamp he
  | send v => exact h.server_send he
  | sendDone v => exact h.server_sendDone he

/-! ## 2. Steps of the queue pair -/

/-- What a step of the queue pair leaves. -/
structure NetTurn (s t : System) : Prop where
  client : t.link.client = s.link.client
  server : t.server = s.server
  given : t.given = s.given
  handled : t.handled = s.handled

theorem NetTurn.keeps (ht : NetTurn s t) : Keeps s t d := by
  refine ⟨?_, ?_, congrFun ht.handled d⟩
  · rw [ht.client]
  · rw [ht.client]

theorem NetTurn.keepsBuffer (ht : NetTurn s t) : KeepsBuffer s t d := by
  refine ⟨congrFun ht.given d, ?_⟩
  rw [ht.client]

theorem NetTurn.call (ht : NetTurn s t) (h : CallInv o s d)
    (hsends : t.link.sends d = s.link.sends d)
    (hdelivered : t.link.delivered d = false → s.link.delivered d = false) : CallInv o t d := by
  refine h.frame ?_ hsends hdelivered (congrFun ht.given d) (congrFun ht.handled d) (fun _ => ?_)
    fun _ => ?_
  · rw [ht.client]
  · rw [ht.client]
    exact Mem.Agree.refl _ _ _
  · rw [ht.client]

theorem NetTurn.serverInv (ht : NetTurn s t) (h : SystemInv o m s)
    (hr : t.requests u = s.requests u) (hs : t.replies u = s.replies u) : ServerInv o t u := by
  refine (h.server u).frame h.call ?_ hr hs ?_ ?_ fun _ _ => ht.keeps
  · rw [ht.server]
  · rw [ht.server]
    exact Mem.Agree.refl _ _ _
  · rw [ht.server]
    exact Mem.Agree.refl _ _ _

theorem NetTurn.workerInv (ht : NetTurn s t) (h : WorkerInv o s w)
    (hr : t.link.recvs w = s.link.recvs w) : WorkerInv o t w := by
  refine h.frame ?_ hr ?_ (fun _ _ => ht.keeps) fun d i _ _ => ⟨ht.keepsBuffer, ?_⟩
  · rw [ht.client]
  · rw [ht.client]
    exact Mem.Agree.refl _ _ _
  · rw [ht.client]

/-- A request that has not been handled is sent as the call put it together. -/
theorem SystemInv.request_packet (h : SystemInv o m s) (hp : s.link.sends c = .posted) :
    Packet o (s.link.client.calls c).reqId (s.link.client.calls c).reqData (s.request c) := by
  have hpc : (s.link.client.calls c).pc = .sending := (h.link.call c).sending.mpr (Or.inl hp)
  exact ((h.call c).request (Or.inr hpc)).packet

/-- A request reaches a server worker. -/
theorem SystemInv.deliver_step (hm : m < 2 ^ 32) (h : SystemInv o m s)
    (he : SystemEnabled s (.deliver c v)) : SystemInv o m (systemNext o m s (.deliver c v)) := by
  obtain ⟨hsends, hdel, hposted⟩ := he
  have hlink : LinkInv o m (linkNext o m s.link (.deliver c)) :=
    linkInv_step (a := .deliver c) hm h.link
      (Machine.guarded_step_eq_some.mpr ⟨⟨hsends, h.error⟩, rfl⟩)
  have ht : NetTurn s (systemNext o m s (.deliver c v)) := ⟨rfl, rfl, rfl, rfl⟩
  have hr : (systemNext o m s (.deliver c v)).requests v = .packet c (s.request c) :=
    Function.update_self v _ s.requests
  have hother : ∀ u, u ≠ v → (systemNext o m s (.deliver c v)).requests u = s.requests u :=
    fun u hu => Function.update_of_ne hu _ _
  have hpc : (s.server.workers v).pc = .receiving :=
    (h.server v).receiving.mpr (Or.inl hposted)
  have hpacket : Packet o (s.link.client.calls c).reqId (s.link.client.calls c).reqData
      (s.request c) := h.request_packet hsends
  have hdelivered : ∀ d, s.link.delivered d = true →
      (systemNext o m s (.deliver c v)).link.delivered d = true := by
    intro d hd
    show Function.update s.link.delivered c true d = true
    rcases eq_or_ne d c with rfl | hne
    · exact Function.update_self d _ _
    · rw [Function.update_of_ne hne]
      exact hd
  -- who is served: by `v` call `c`, by the others whom they served
  have hserving : ∀ u d, (systemNext o m s (.deliver c v)).serving u = some d →
      (u = v ∧ d = c) ∨ (u ≠ v ∧ s.serving u = some d ∧ d ≠ c) := by
    intro u d hu
    rcases eq_or_ne u v with rfl | hne
    · exact Or.inl ⟨rfl, Option.some.inj (hu.symm.trans (serving_of_packet hr))⟩
    · rw [serving_congr (hother u hne) rfl rfl] at hu
      refine Or.inr ⟨hne, hu, fun hdc => ?_⟩
      cases hdel.symm.trans (hdc ▸ (h.serving u d hu).1)
  refine ⟨hlink, h.error, h.fault, fun d => ht.call (h.call d) rfl fun hd => ?_, fun u => ?_,
    fun w => ht.workerInv (h.worker w) rfl, fun u d hu => ?_, fun u u' d hu hu' => ?_⟩
  · cases hdd : s.link.delivered d with
    | false => rfl
    | true => cases hd.symm.trans (hdelivered d hdd)
  · rcases eq_or_ne u v with rfl | hne
    · refine ⟨iff_of_true hpc (Or.inr ?_), fun ha => ?_, (h.server u).sending, fun d bytes hd => ?_,
        ?_, ?_, ?_⟩
      · rw [hr]
        rfl
      · cases (congrArg ServerPc.active hpc).symm.trans ha
      · obtain ⟨rfl, rfl⟩ := RecvWr.packet.inj (hr.symm.trans hd)
        exact ⟨hpacket, (h.call c).unhandled hdel⟩
      · rw [hr]
        exact nofun
      · rw [hr]
        exact nofun
      · rw [hr]
        exact nofun
    · exact ht.serverInv h (hother u hne) rfl
  · rcases hserving u d hu with ⟨-, rfl⟩ | ⟨-, hs, -⟩
    · refine ⟨Function.update_self d _ _, ?_⟩
      cases ha : s.link.answered d with
      | false => exact ha
      | true => cases hdel.symm.trans ((h.link.call d).answered ha)
    · exact ⟨hdelivered d (h.serving u d hs).1, (h.serving u d hs).2⟩
  · rcases hserving u d hu with ⟨rfl, hd⟩ | ⟨-, hs, hne⟩
    · rcases hserving u' d hu' with ⟨rfl, -⟩ | ⟨-, -, hne⟩
      · rfl
      · exact absurd hd hne
    · rcases hserving u' d hu' with ⟨-, hd⟩ | ⟨-, hs', -⟩
      · exact absurd hd hne
      · exact h.alone u u' d hs hs'

/-- The send of a request completes. -/
theorem SystemInv.completeSend_step (hm : m < 2 ^ 32) (h : SystemInv o m s)
    (he : SystemEnabled s (.completeSend c)) :
    SystemInv o m (systemNext o m s (.completeSend c)) := by
  obtain ⟨hsends, hdel⟩ := he
  have hlink : LinkInv o m (linkNext o m s.link (.completeSend c true)) :=
    linkInv_step (a := .completeSend c true) hm h.link
      (Machine.guarded_step_eq_some.mpr ⟨⟨hsends, hdel, h.error⟩, rfl⟩)
  have ht : NetTurn s (systemNext o m s (.completeSend c)) := ⟨rfl, rfl, rfl, rfl⟩
  refine ⟨hlink, h.error, h.fault, fun d => ?_, fun u => ht.serverInv h rfl rfl,
    fun w => ht.workerInv (h.worker w) rfl, h.serving, h.alone⟩
  rcases eq_or_ne d c with rfl | hne
  · have hd : (systemNext o m s (.completeSend d)).link.sends d = .done true :=
      Function.update_self d _ s.link.sends
    refine ⟨(h.call d).size, (h.call d).request, ?_, (h.call d).unhandled, (h.call d).buffer,
      (h.call d).resume, (h.call d).done, (h.call d).resumed⟩
    rw [hd]
    exact nofun
  · exact ht.call (h.call d) (Function.update_of_ne hne _ _) id

/-- A response reaches a client worker. -/
theorem SystemInv.answer_step (hm : m < 2 ^ 32) (h : SystemInv o m s)
    (he : SystemEnabled s (.answer c v w)) :
    SystemInv o m (systemNext o m s (.answer c v w)) := by
  obtain ⟨hs, hr, hw⟩ := he
  obtain ⟨response, hresp, hlen, hheld⟩ := (h.server v).reply c hr (Or.inr hs)
  have hserving : s.serving v = some c := serving_of_handled hr (Or.inr hs)
  obtain ⟨hdel, ha⟩ := h.serving v c hserving
  have hpacket : Packet o (s.link.client.calls c).reqId response (s.response v) := by
    unfold System.response
    rw [hlen]
    exact hheld.packet
  have hanswers : Answers o (s.response v) (s.link.client.calls c).reqId := by
    refine ⟨?_, ?_, congrArg RpcHeader.reqId hpacket.header⟩
    · rw [hpacket.length]
      exact Nat.le_add_right _ _
    · rw [hpacket.length]
      exact hresp.size
  have hlink : LinkInv o m (linkNext o m s.link (.answer c w (s.response v))) :=
    linkInv_step (a := .answer c w (s.response v)) hm h.link
      (Machine.guarded_step_eq_some.mpr ⟨⟨hdel, ha, h.error, hw, hanswers⟩, rfl⟩)
  have ht : NetTurn s (systemNext o m s (.answer c v w)) := ⟨rfl, rfl, rfl, rfl⟩
  have hpc : (s.server.workers v).pc = .sending := (h.server v).sending.mpr (Or.inl hs)
  have hdone : (systemNext o m s (.answer c v w)).replies v = .done true :=
    Function.update_self v _ s.replies
  have hother : ∀ u, u ≠ v → (systemNext o m s (.answer c v w)).replies u = s.replies u :=
    fun u hu => Function.update_of_ne hu _ _
  have hrecv : (systemNext o m s (.answer c v w)).link.recvs w = .packet c (s.response v) :=
    Function.update_self w _ s.link.recvs
  have hno : ∀ {p : ServerPc}, p ≠ .sending → (s.server.workers v).pc ≠ p := fun hp he =>
    hp (he.symm.trans hpc)
  -- worker `v` serves nobody any more, the others serve other calls
  have hserves : ∀ u d, (systemNext o m s (.answer c v w)).serving u = some d →
      s.serving u = some d ∧ d ≠ c := by
    intro u d hu
    rcases eq_or_ne u v with rfl | hne
    · obtain ⟨-, ha | hp⟩ := handled_of_serving hu hr
      · cases (congrArg ServerPc.active hpc).symm.trans ha
      · cases hdone.symm.trans hp
    · have hsame : (systemNext o m s (.answer c v w)).serving u = s.serving u :=
        serving_congr rfl rfl (hother u hne)
      have hsu : s.serving u = some d := hsame.symm.trans hu
      exact ⟨hsu, fun hdc => hne (h.alone u v c (hdc ▸ hsu) hserving)⟩
  refine ⟨hlink, h.error, h.fault, fun d => ht.call (h.call d) rfl id, fun u => ?_, fun u => ?_,
    fun u d hu => ?_, fun u u' d hu hu' => h.alone u u' d (hserves u d hu).1 (hserves u' d hu').1⟩
  · rcases eq_or_ne u v with rfl | hne
    · refine ⟨(h.server u).receiving, (h.server u).active, iff_of_true hpc (Or.inr hdone),
        (h.server u).packet, (h.server u).request, (h.server u).stamp, fun d _ hp => ?_⟩
      refine (hp.elim (hno nofun) fun hp => ?_).elim
      cases hdone.symm.trans hp
    · exact ht.serverInv h rfl (hother u hne)
  · rcases eq_or_ne u w with rfl | hne
    · refine ⟨?_, fun d bytes hd => ?_, ?_, ?_⟩
      · rw [hrecv]
        exact nofun
      · obtain ⟨rfl, rfl⟩ := RecvWr.packet.inj (hrecv.symm.trans hd)
        exact ⟨response, hresp, hpacket⟩
      · rw [hrecv]
        exact nofun
      · rw [hrecv]
        exact nofun
    · exact ht.workerInv (h.worker u) (Function.update_of_ne hne _ _)
  · obtain ⟨hsu, hne⟩ := hserves u d hu
    exact ⟨(h.serving u d hsu).1, (Function.update_of_ne hne _ _).trans (h.serving u d hsu).2⟩

/-- **Every step keeps the invariant**, of client, server and queue pair. -/
theorem systemInv_step (hm : m < 2 ^ 32) {a : SystemAction} (h : SystemInv o m s)
    (ht : (systemMachine o m).step s a = some t) : SystemInv o m t := by
  obtain ⟨he, rfl⟩ := Machine.guarded_step_eq_some.mp ht
  cases a with
  | client a => exact h.client_step hm he
  | server a => exact h.server_step he
  | deliver c v => exact h.deliver_step hm he
  | completeSend c => exact h.completeSend_step hm he
  | answer c v w => exact h.answer_step hm he

theorem systemInv_reach (hm : m < 2 ^ 32) (h : (systemMachine o m).Reach (System.start m k) s) :
    SystemInv o m s :=
  h.invariant (systemInv_start m k) fun _ _ _ hi _ ht => systemInv_step hm hi ht

/-! ## 3. The answers -/

theorem overwrite_take {buffer bytes : List UInt8} :
    (overwrite buffer bytes).take bytes.length = bytes := by
  unfold overwrite
  exact List.take_left' rfl

theorem overwrite_drop {buffer bytes : List UInt8} :
    (overwrite buffer bytes).drop bytes.length = buffer.drop bytes.length := by
  unfold overwrite
  exact List.drop_left' rfl

/-- What a call has got, byte by byte. -/
theorem Got.bytes {n : Nat} (h : Got s c n) : ∃ response, Handled s c response ∧
    n = min response.length (s.given c).length ∧
    (s.link.client.calls c).respBuffer.take n = response.take n ∧
    (s.link.client.calls c).respBuffer.drop n = (s.given c).drop n := by
  obtain ⟨response, hresp, hn, hb⟩ := h
  have hlen : (response.take n).length = n := by
    rw [List.length_take]
    omega
  have htake : (overwrite (s.given c) (response.take n)).take (response.take n).length =
      response.take n := overwrite_take
  have hdrop : (overwrite (s.given c) (response.take n)).drop (response.take n).length =
      (s.given c).drop (response.take n).length := overwrite_drop
  rw [hlen, ← hb] at htake hdrop
  exact ⟨response, hresp, hn, htake, hdrop⟩

end Answers

end Rpc
end Rdmapp
