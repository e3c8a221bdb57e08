/-
  File:      Rdmapp/Rpc/Exchange.lean
  Subject:   ONE CALL AND ITS ANSWER, as a run that can be put into any other.

  A call, a slot, a worker of the client and a worker of the server go through one exchange on their
  own: what is seen of them (`View`) is what the statements made of it, everybody else stays as they
  are (`Apart`). `Scene.exchanges` goes as far as it can with no completion of a send or of the
  response polled, `Scene.returns` polls the client's and goes on to the return.
-/
import Rdmapp.Rpc.Answers

namespace Rdmapp
namespace Rpc

open Lib

/-! ## 1. Statements of the server -/

section Server

variable {o : ByteOrder} {s : System} {v : Nat}

/-- The server worker a statement is of. -/
def ServerAction.worker : ServerAction → Nat
  | .postRecv v | .recvDone v _ | .schedule v | .handle v _ _ _ | .stamp v | .send v
  | .sendDone v => v

/-- Every other server worker stays where it is. -/
theorem serverNext_of_ne {s : Server} {a : ServerAction} (h : v ≠ a.worker) :
    (serverNext o s a).workers v = s.workers v := by
  cases a <;> exact Function.update_of_ne h _ _

/-- A server statement leaves the client and its side of the queue pair. -/
theorem System.tell_link (s : System) (a : ServerAction) : (s.tell a).link = s.link := by
  cases a with
  | handle v payload resp n =>
    simp only [System.tell]
    split <;> rfl
  | _ => rfl

theorem System.tell_handle (s : System) (v : Nat) (payload resp : List UInt8) (n : Nat) :
    (s.tell (.handle v payload resp n)).requests = s.requests ∧
      (s.tell (.handle v payload resp n)).replies = s.replies := by
  simp only [System.tell]
  split <;> exact ⟨rfl, rfl⟩

theorem System.tell_of_ne {a : ServerAction} (h : v ≠ a.worker) :
    (s.tell a).requests v = s.requests v ∧ (s.tell a).replies v = s.replies v := by
  cases a with
  | postRecv | recvDone => exact ⟨Function.update_of_ne h _ _, rfl⟩
  | send | sendDone => exact ⟨rfl, Function.update_of_ne h _ _⟩
  | handle u payload resp n =>
    obtain ⟨hrequests, hreplies⟩ := System.tell_handle s u payload resp n
    exact ⟨congrFun hrequests v, congrFun hreplies v⟩
  | schedule | stamp => exact ⟨rfl, rfl⟩

end Server

/-! ## 2. Who moves -/

/-- The receive without the bytes. -/
def RecvWr.bare : RecvWr → RecvWr
  | .packet c _ => .packet c []
  | wr => wr

theorem RecvWr.packet_of_bare {wr : RecvWr} {c : Nat} (h : wr.bare = .packet c []) :
    ∃ bytes, wr = .packet c bytes := by
  cases wr with
  | packet d bytes =>
    cases h
    exact ⟨bytes, rfl⟩
  | _ => cases h

theorem RecvWr.eq_of_bare {wr wr' : RecvWr} (h : wr.bare = wr') (hp : ∀ c, wr' ≠ .packet c []) :
    wr = wr' := by
  cases wr with
  | packet c bytes => exact absurd h.symm (hp c)
  | _ => exact h

/-- What is seen of a call, its slot, a server worker and a client worker. -/
structure View where
  call : CallPc
  slotIdx : Nat
  free : Bool
  send : SendWr
  delivered : Bool
  worker : WorkerPc
  recv : RecvWr
  server : ServerPc
  request : RecvWr
  reply : SendWr

def System.view (s : System) (c v w i : Nat) : View where
  call := (s.link.client.calls c).pc
  slotIdx := (s.link.client.calls c).slotIdx
  free := decide (i ∈ s.link.client.freeSlots)
  send := s.link.sends c
  delivered := s.link.delivered c
  worker := (s.link.client.workers w).pc
  recv := (s.link.recvs w).bare
  server := (s.server.workers v).pc
  request := (s.requests v).bare
  reply := s.replies v

def View.go (y : View) (p : CallPc) : View := { y with call := p }

/-- What is left of all others. -/
structure Apart (c v w i : Nat) (s t : System) : Prop where
  call : ∀ d, d ≠ c → (t.link.client.calls d).pc = (s.link.client.calls d).pc
  free : ∀ j, j ≠ i → j ∈ s.link.client.freeSlots → j ∈ t.link.client.freeSlots
  send : ∀ d, d ≠ c → t.link.sends d = s.link.sends d
  delivered : ∀ d, d ≠ c → t.link.delivered d = s.link.delivered d
  worker : ∀ x, x ≠ w → t.link.client.workers x = s.link.client.workers x
  recv : ∀ x, x ≠ w → t.link.recvs x = s.link.recvs x
  server : ∀ x, x ≠ v → t.server.workers x = s.server.workers x
  request : ∀ x, x ≠ v → t.requests x = s.requests x
  reply : ∀ x, x ≠ v → t.replies x = s.replies x

theorem Apart.refl (c v w i : Nat) (s : System) : Apart c v w i s s :=
  ⟨fun _ _ => rfl, fun _ _ h => h, fun _ _ => rfl, fun _ _ => rfl, fun _ _ => rfl, fun _ _ => rfl,
    fun _ _ => rfl, fun _ _ => rfl, fun _ _ => rfl⟩

theorem Apart.trans {c v w i : Nat} {s t u : System} (h : Apart c v w i s t)
    (h' : Apart c v w i t u) : Apart c v w i s u where
  call d hd := (h'.call d hd).trans (h.call d hd)
  free j hj hf := h'.free j hj (h.free j hj hf)
  send d hd := (h'.send d hd).trans (h.send d hd)
  delivered d hd := (h'.delivered d hd).trans (h.delivered d hd)
  worker x hx := (h'.worker x hx).trans (h.worker x hx)
  recv x hx := (h'.recv x hx).trans (h.recv x hx)
  server x hx := (h'.server x hx).trans (h.server x hx)
  request x hx := (h'.request x hx).trans (h.request x hx)
  reply x hx := (h'.reply x hx).trans (h.reply x hx)

/-- After a run of call `c`, slot `i`, server worker `v` and client worker `w` alone. -/
structure Scene (o : ByteOrder) (m : Nat) (s₀ : System) (c v w i : Nat) (y : View) (s : System) :
    Prop where
  reach : (systemMachine o m).Reach s₀ s
  fault : s.link.client.fault = none
  apart : Apart c v w i s₀ s
  view : s.view c v w i = y

section Scene

variable {o : ByteOrder} {m k : Nat} {s₀ s t : System} {c d v w i : Nat} {y z : View}

theorem Scene.start (h : s.link.client.fault = none) : Scene o m s c v w i (s.view c v w i) s :=
  ⟨.start, h, .refl c v w i s, rfl⟩

theorem Scene.act {a : SystemAction} (h : Scene o m s₀ c v w i y s) (he : SystemEnabled s a)
    (hf : (systemNext o m s a).link.client.fault = none)
    (ha : Apart c v w i s (systemNext o m s a)) (hv : (systemNext o m s a).view c v w i = z) :
    ∃ t, Scene o m s₀ c v w i z t :=
  ⟨_, .step a h.reach trivial (Machine.guarded_step_eq_some.mpr ⟨he, rfl⟩), hf, h.apart.trans ha, hv⟩

/-- A statement of the call. -/
theorem Scene.call {a : Action} {p : CallPc} {x : Nat} {f : Bool} {wr : SendWr}
    (h : Scene o m s₀ c v w i y s) (hs : a.sound = true) (he : Enabled s.link.client a)
    (hp : s.link.Permits a) (hw : a.worker = none) (hc : a.mover = some c) (hq : a.place = some p)
    (hslot : ((next o m s.link.client a).calls c).slotIdx = x)
    (hfree : decide (i ∈ (next o m s.link.client a).freeSlots) = f)
    (hothers : ∀ j, j ≠ i → j ∈ s.link.client.freeSlots →
      j ∈ (next o m s.link.client a).freeSlots)
    (hsend : (s.link.tell a).sends c = wr) :
    ∃ t, Scene o m s₀ c v w i { y with call := p, slotIdx := x, free := f, send := wr } t := by
  have hframe := next_callFrame (o := o) (m := m) (s := s.link.client) hw hc
  obtain ⟨hrecvs, hdelivered, -, hsends⟩ := tell_of_call (s := s.link) hw
  refine h.act (a := .client a) ⟨hs, ⟨h.fault, he⟩, hp⟩ (hframe.fault.trans h.fault) ?_ ?_
  · exact ⟨fun d hd => congrArg Call.pc (hframe.calls d hd), hothers,
      fun d hd => hsends d fun ha => hd (Option.some.inj (ha.symm.trans hc)),
      fun d _ => congrFun hdelivered d, fun x _ => congrFun hframe.workers x,
      fun x _ => congrFun hrecvs x, fun _ _ => rfl, fun _ _ => rfl, fun _ _ => rfl⟩
  · have hworkers : (next o m s.link.client a).workers = s.link.client.workers := hframe.workers
    rw [← h.view, ← next_place (o := o) (m := m) (s := s.link.client) hc hq, ← hslot, ← hfree,
      ← hsend]
    unfold System.view
    simp only [systemNext, linkNext, hworkers, hrecvs, hdelivered]

theorem slotIdx_of_update {u u' : Client} {x : Call} {n : Nat}
    (hu : u'.calls = Function.update u.calls c x) (hx : x.slotIdx = n) :
    (u'.calls c).slotIdx = n := by
  rw [hu, Function.update_self]
  exact hx

theorem Scene.pc (h : Scene o m s₀ c v w i y s) : (s.link.client.calls c).pc = y.call :=
  congrArg View.call h.view

theorem Scene.slot (h : Scene o m s₀ c v w i y s) : (s.link.client.calls c).slotIdx = y.slotIdx :=
  congrArg View.slotIdx h.view

theorem Scene.free (h : Scene o m s₀ c v w i y s) :
    decide (i ∈ s.link.client.freeSlots) = y.free :=
  congrArg View.free h.view

theorem Scene.send (h : Scene o m s₀ c v w i y s) : s.link.sends c = y.send :=
  congrArg View.send h.view

/-- The places from the counter to the message. -/
def Action.plain : Action → Bool
  | .fetchAdd _ | .storeWaiter _ | .storeBuffer _ | .storeId _ | .fill _ => true
  | _ => false

theorem Scene.plain {a : Action} {p q : CallPc} (h : Scene o m s₀ c v w i (y.go p) s)
    (ha : a.plain = true) (hc : a.mover = some c) (hq : a.place = some q)
    (he : (s.link.client.calls c).pc = p → Enabled s.link.client a) :
    ∃ t, Scene o m s₀ c v w i (y.go q) t := by
  cases a with
  | fetchAdd d | storeWaiter d | storeBuffer d | storeId d | fill d =>
    obtain rfl : d = c := Option.some.inj hc
    exact h.call rfl (he h.pc) trivial rfl hc hq
      (slotIdx_of_update (u := s.link.client) rfl h.slot) h.free (fun _ _ hj => hj) h.send
  | _ => cases ha

/-- **A call up to its post**, in slot `i`. -/
theorem Scene.posts (h : Scene o m s₀ c v w i y s) (hc : y.call = .idle) (hi : y.free = true) :
    ∃ t f, Scene o m s₀ c v w i
      { y with call := .sending, slotIdx := i, free := f, send := .posted } t := by
  obtain ⟨s₁, h₁⟩ : ∃ s₁, Scene o m s₀ c v w i { y with call := .dequeue, slotIdx := 0 } s₁ :=
    h.call (a := .call c [] []) rfl (h.pc.trans hc) trivial rfl rfl rfl
      (slotIdx_of_update (u := s.link.client) rfl rfl) h.free (fun _ _ hj => hj) h.send
  have hi₁ : i ∈ s₁.link.client.freeSlots := of_decide_eq_true (h₁.free.trans hi)
  obtain ⟨f, s₂, h₂⟩ : ∃ f s₂, Scene o m s₀ c v w i
      (View.go { y with slotIdx := i, free := f } .fetchAdd) s₂ :=
    ⟨_, h₁.call (a := .dequeue c i) rfl ⟨h₁.pc, hi₁⟩ trivial rfl rfl rfl
      (slotIdx_of_update (u := s₁.link.client) rfl rfl) rfl
      (fun j hj hf => (List.mem_erase_of_ne hj).mpr hf) h₁.send⟩
  obtain ⟨s₃, h₃⟩ := h₂.plain (a := .fetchAdd c) rfl rfl rfl id
  obtain ⟨s₄, h₄⟩ := h₃.plain (a := .storeWaiter c) rfl rfl rfl id
  obtain ⟨s₅, h₅⟩ := h₄.plain (a := .storeBuffer c) rfl rfl rfl id
  obtain ⟨s₆, h₆⟩ := h₅.plain (a := .storeId c) rfl rfl rfl id
  obtain ⟨s₇, h₇⟩ := h₆.plain (a := .fill c) rfl rfl rfl id
  obtain ⟨t, ht⟩ := h₇.call (a := .post c true) rfl h₇.pc trivial rfl rfl rfl
    (slotIdx_of_update (u := s₇.link.client) rfl h₇.slot) h₇.free (fun _ _ hj => hj)
    (Function.update_self _ _ _)
  exact ⟨t, f, ht⟩

/-- A statement of the server worker. -/
theorem Scene.server {a : ServerAction} {p : ServerPc} {wr : RecvWr} {rp : SendWr}
    (h : Scene o m s₀ c v w i y s) (he : ServerEnabled s.server a) (hp : s.Permits a)
    (hv : a.worker = v) (hpc : ((serverNext o s.server a).workers v).pc = p)
    (hrequest : ((s.tell a).requests v).bare = wr) (hreply : (s.tell a).replies v = rp) :
    ∃ t, Scene o m s₀ c v w i { y with server := p, request := wr, reply := rp } t := by
  have hlink : (systemNext o m s (.server a)).link = s.link := System.tell_link s a
  refine h.act (a := .server a) ⟨he, hp⟩ (hlink ▸ h.fault) ?_ ?_
  · refine ⟨?_, ?_, ?_, ?_, ?_, ?_, fun x hx => serverNext_of_ne (hv ▸ hx),
      fun x hx => (System.tell_of_ne (hv ▸ hx)).1, fun x hx => (System.tell_of_ne (hv ▸ hx)).2⟩
    all_goals rw [hlink]
    · exact fun _ _ => rfl
    · exact fun _ _ hj => hj
    all_goals exact fun _ _ => rfl
  · rw [← h.view, ← hpc, ← hrequest, ← hreply]
    unfold System.view
    rw [hlink]
    rfl

theorem pc_of_update {u u' : Server} {z : ServerWorker} {p : ServerPc}
    (hu : u'.workers = Function.update u.workers v z) (hz : z.pc = p) : (u'.workers v).pc = p := by
  rw [hu, Function.update_self]
  exact hz

theorem Scene.serverPc (h : Scene o m s₀ c v w i y s) : (s.server.workers v).pc = y.server :=
  congrArg View.server h.view

theorem Scene.request (h : Scene o m s₀ c v w i y s) : (s.requests v).bare = y.request :=
  congrArg View.request h.view

theorem Scene.reply (h : Scene o m s₀ c v w i y s) : s.replies v = y.reply :=
  congrArg View.reply h.view

theorem Scene.postsRecv (h : Scene o m s₀ c v w i y s) (hv : y.server = .post) :
    ∃ t, Scene o m s₀ c v w i { y with server := .receiving, request := .posted } t :=
  h.server (a := .postRecv v) (h.serverPc.trans hv) trivial rfl
    (pc_of_update (u := s.server) rfl rfl) (by
      show (Function.update s.requests v .posted v).bare = _
      rw [Function.update_self]
      rfl) h.reply

theorem Scene.delivers (h : Scene o m s₀ c v w i y s) (hs : y.send = .posted)
    (hd : y.delivered = false) (hr : y.request = .posted) :
    ∃ t, Scene o m s₀ c v w i { y with delivered := true, request := .packet c [] } t ∧
      t.server = s.server ∧ t.requests v = .packet c (s.request c) := by
  have hposted : s.requests v = .posted := RecvWr.eq_of_bare (h.request.trans hr) nofun
  have hnew : (systemNext o m s (.deliver c v)).requests v = .packet c (s.request c) :=
    Function.update_self _ _ _
  refine ⟨systemNext o m s (.deliver c v), ⟨.step (.deliver c v) h.reach trivial
    (Machine.guarded_step_eq_some.mpr ⟨⟨h.send.trans hs, ?_, hposted⟩, rfl⟩), h.fault, ?_, ?_⟩, rfl,
    hnew⟩
  · exact (congrArg View.delivered h.view).trans hd
  · exact h.apart.trans ⟨fun _ _ => rfl, fun _ _ hj => hj, fun _ _ => rfl,
      fun d hd => Function.update_of_ne hd _ _, fun _ _ => rfl, fun _ _ => rfl, fun _ _ => rfl,
      fun x hx => Function.update_of_ne hx _ _, fun _ _ => rfl⟩
  · have hdelivered : (systemNext o m s (.deliver c v)).link.delivered c = true :=
      Function.update_self _ _ _
    rw [← h.view]
    unfold System.view
    rw [hnew, hdelivered]
    rfl

/-- **The server worker takes the request and answers it.** -/
theorem Scene.serves (h : Scene o m s₀ c v w i y s) (hv : y.server = .receiving)
    (hr : y.request = .posted) (hs : y.send = .posted) (hd : y.delivered = false) :
    ∃ t, Scene o m s₀ c v w i
      { y with delivered := true, server := .sending, request := .handled c, reply := .posted } t := by
  obtain ⟨s₁, h₁, -, hbytes⟩ := h.delivers hs hd hr
  have hlen : ¬ (s.request c).length < headerSize := by
    unfold System.request
    rw [Mem.read_length]
    omega
  obtain ⟨s₂, h₂⟩ : ∃ s₂, Scene o m s₀ c v w i
      { y with delivered := true, server := .schedule, request := .handled c } s₂ :=
    h₁.server (a := .recvDone v (s.request c)) (h₁.serverPc.trans hv)
      (congrArg RecvWr.completion hbytes) rfl (pc_of_update (u := s₁.server) rfl (if_neg hlen)) (by
        show (Function.update s₁.requests v (s₁.requests v).dispatched v).bare = _
        rw [Function.update_self, hbytes]
        rfl) h₁.reply
  obtain ⟨s₃, h₃⟩ : ∃ s₃, Scene o m s₀ c v w i
      { y with delivered := true, server := .handle, request := .handled c } s₃ :=
    h₂.server (a := .schedule v) h₂.serverPc trivial rfl (pc_of_update (u := s₂.server) rfl rfl)
      h₂.request h₂.reply
  -- the handler writes one byte and leaves its payload
  obtain ⟨hrequests, hreplies⟩ := System.tell_handle s₃ v (s₃.server.payload v) [0] 1
  obtain ⟨s₄, h₄⟩ : ∃ s₄, Scene o m s₀ c v w i
      { y with delivered := true, server := .stamp, request := .handled c } s₄ :=
    h₃.server (a := .handle v (s₃.server.payload v) [0] 1)
      ⟨h₃.serverPc, rfl, by decide, Nat.le_refl 1⟩ trivial rfl
      (pc_of_update (u := s₃.server) rfl rfl)
      ((congrArg RecvWr.bare (congrFun hrequests v)).trans h₃.request)
      ((congrFun hreplies v).trans h₃.reply)
  obtain ⟨s₅, h₅⟩ : ∃ s₅, Scene o m s₀ c v w i
      { y with delivered := true, server := .send, request := .handled c } s₅ :=
    h₄.server (a := .stamp v) h₄.serverPc trivial rfl (pc_of_update (u := s₄.server) rfl rfl)
      h₄.request h₄.reply
  exact h₅.server (a := .send v) h₅.serverPc trivial rfl (pc_of_update (u := s₅.server) rfl rfl)
    h₅.request (Function.update_self _ _ _)

/-- The server worker takes the completion of its response. -/
theorem Scene.sent (h : Scene o m s₀ c v w i y s) (hv : y.server = .sending)
    (hr : y.reply = .done true) :
    ∃ t, Scene o m s₀ c v w i { y with server := .post, reply := .dispatched true } t :=
  h.server (a := .sendDone v) (h.serverPc.trans hv) (h.reply.trans hr) rfl
    (pc_of_update (u := s.server) rfl rfl) h.request (Function.update_self _ _ _)

theorem Scene.workerPc (h : Scene o m s₀ c v w i y s) :
    (s.link.client.workers w).pc = y.worker :=
  congrArg View.worker h.view

theorem Scene.recv (h : Scene o m s₀ c v w i y s) : (s.link.recvs w).bare = y.recv :=
  congrArg View.recv h.view

/-- A statement of the client worker. -/
theorem Scene.work {a : Action} {p : WorkerPc} {wr : RecvWr} (h : Scene o m s₀ c v w i y s)
    (hs : a.sound = true) (he : Enabled s.link.client a) (hp : s.link.Permits a)
    (hw : a.worker = some w) (hm : a.mover = none)
    (hf : (next o m s.link.client a).fault = none)
    (hpc : ((next o m s.link.client a).workers w).pc = p)
    (hrecv : ((s.link.tell a).recvs w).bare = wr) :
    ∃ t, Scene o m s₀ c v w i { y with worker := p, recv := wr } t := by
  obtain ⟨hsends, hdelivered, -, hrecvs⟩ := tell_of_worker (s := s.link) hw
  have hcall : ∀ d, ((next o m s.link.client a).calls d).pc = (s.link.client.calls d).pc ∧
      ((next o m s.link.client a).calls d).slotIdx = (s.link.client.calls d).slotIdx := fun d =>
    have hx := next_call (o := o) (m := m) (s := s.link.client) (a := a) (d := d) (by rw [hm]; nofun)
    ⟨hx.1, hx.2.1⟩
  have hfree : (next o m s.link.client a).freeSlots = s.link.client.freeSlots := (next_pools hw).1
  refine h.act (a := .client a) ⟨hs, ⟨h.fault, he⟩, hp⟩ hf ?_ ?_
  · refine ⟨fun d _ => (hcall d).1, fun j _ hj => ?_, fun d _ => congrFun hsends d,
      fun d _ => congrFun hdelivered d, fun x hx => next_worker fun hv => ?_,
      fun x hx => hrecvs x hx, fun _ _ => rfl, fun _ _ => rfl, fun _ _ => rfl⟩
    · show j ∈ (next o m s.link.client a).freeSlots
      rw [hfree]
      exact hj
    · exact hx (Option.some.inj (hv.symm.trans hw))
  · rw [← h.view, ← hpc, ← hrecv]
    unfold System.view
    simp only [systemNext, linkNext, (hcall c).1, (hcall c).2, hfree, hsends, hdelivered]

theorem workerPc_of_update {u u' : Client} {z : Worker} {p : WorkerPc}
    (hu : u'.workers = Function.update u.workers w z) (hz : z.pc = p) : (u'.workers w).pc = p := by
  rw [hu, Function.update_self]
  exact hz

theorem Scene.waits (h : Scene o m s₀ c v w i y s) (hw : y.worker = .post) :
    ∃ t, Scene o m s₀ c v w i { y with worker := .receiving, recv := .posted } t :=
  h.work (a := .postRecv w true) rfl (h.workerPc.trans hw) nofun rfl rfl h.fault
    (workerPc_of_update (u := s.link.client) rfl rfl) (by
      show (Function.update s.link.recvs w .posted w).bare = _
      rw [Function.update_self]
      rfl)

theorem Scene.completes (h : Scene o m s₀ c v w i y s) (hs : y.send = .posted)
    (hd : y.delivered = true) : ∃ t, Scene o m s₀ c v w i { y with send := .done true } t := by
  refine h.act (a := .completeSend c)
    ⟨h.send.trans hs, (congrArg View.delivered h.view).trans hd⟩ h.fault ?_ ?_
  · exact ⟨fun _ _ => rfl, fun _ _ hj => hj, fun d hd => Function.update_of_ne hd _ _,
      fun _ _ => rfl, fun _ _ => rfl, fun _ _ => rfl, fun _ _ => rfl, fun _ _ => rfl,
      fun _ _ => rfl⟩
  · have hdone : (systemNext o m s (.completeSend c)).link.sends c = .done true :=
      Function.update_self _ _ _
    rw [← h.view]
    unfold System.view
    rw [hdone]
    rfl

theorem Scene.answers (h : Scene o m s₀ c v w i y s) (hs : y.reply = .posted)
    (hr : y.request = .handled c) (hw : y.recv = .posted) :
    ∃ t, Scene o m s₀ c v w i { y with recv := .packet c [], reply := .done true } t := by
  refine h.act (a := .answer c v w) ⟨h.reply.trans hs, RecvWr.eq_of_bare (h.request.trans hr) nofun,
    RecvWr.eq_of_bare (h.recv.trans hw) nofun⟩ h.fault ?_ ?_
  · exact ⟨fun _ _ => rfl, fun _ _ hj => hj, fun _ _ => rfl, fun _ _ => rfl, fun _ _ => rfl,
      fun x hx => Function.update_of_ne hx _ _, fun _ _ => rfl, fun _ _ => rfl,
      fun x hx => Function.update_of_ne hx _ _⟩
  · have hrecv : (systemNext o m s (.answer c v w)).link.recvs w = .packet c (s.response v) :=
      Function.update_self _ _ _
    have hreply : (systemNext o m s (.answer c v w)).replies v = .done true :=
      Function.update_self _ _ _
    rw [← h.view]
    unfold System.view
    rw [hrecv, hreply]
    rfl

/-- **A call, up to the completions of its send, its response's receive and its response's send**,
    with nothing polled. -/
theorem Scene.exchanges (h : Scene o m s₀ c v w i y s) (hc : y.call = .idle) (hi : y.free = true)
    (hd : y.delivered = false) (hw : y.worker = .post) (hv : y.server = .post) :
    ∃ t f, Scene o m s₀ c v w i ⟨.sending, i, f, .done true, true, .receiving, .packet c [], .sending,
      .handled c, .done true⟩ t := by
  obtain ⟨s₁, f, h₁⟩ := h.posts hc hi
  obtain ⟨s₂, h₂⟩ := h₁.postsRecv hv
  obtain ⟨s₃, h₃⟩ := h₂.serves rfl rfl rfl hd
  obtain ⟨s₄, h₄⟩ := h₃.waits hw
  obtain ⟨s₅, h₅⟩ := h₄.completes rfl rfl
  obtain ⟨t, ht⟩ := h₅.answers rfl rfl rfl
  exact ⟨t, f, ht⟩

theorem Scene.inv (hm : m < 2 ^ 32) (h₀ : SystemInv o m s₀) (h : Scene o m s₀ c v w i y s) :
    SystemInv o m s :=
  h.reach.invariant h₀ fun _ _ _ hi _ ht => systemInv_step hm hi ht

/-- A statement of a worker that is the next one keeps the process alive. -/
theorem SystemInv.fault_next (hm : m < 2 ^ 32) (h : SystemInv o m s) {a : Action}
    (he : SystemEnabled s (.client a)) : (next o m s.link.client a).fault = none :=
  (systemInv_step (a := .client a) hm h (Machine.guarded_step_eq_some.mpr ⟨he, rfl⟩)).fault

/-- The client worker takes the response, finds it to be the call's and copies it. -/
theorem Scene.receives (hm : m < 2 ^ 32) (h₀ : SystemInv o m s₀) (h : Scene o m s₀ c v w i y s)
    (hslot : y.slotIdx = i) (hw : y.worker = .receiving) (hr : y.recv = .packet c []) :
    ∃ t, Scene o m s₀ c v w i { y with worker := .waking i, recv := .handled c } t := by
  obtain ⟨bytes, hbytes⟩ := RecvWr.packet_of_bare (h.recv.trans hr)
  obtain ⟨response, hresp, hpacket⟩ := ((h.inv hm h₀).worker w).packet c bytes hbytes
  have hlen : bytes.length ≤ kRecvBufferSize := hpacket.length ▸ hresp.size
  obtain ⟨s₁, h₁⟩ : ∃ s₁, Scene o m s₀ c v w i
      { y with worker := .received, recv := .handled c } s₁ :=
    h.work (a := .recvDone w (some bytes)) rfl
      ⟨h.workerPc.trans hw, fun b hb => Option.some.inj hb ▸ hlen⟩
      (congrArg RecvWr.completion hbytes) rfl rfl h.fault
      (workerPc_of_update (u := s.link.client) rfl rfl) (by
        show (Function.update s.link.recvs w (s.link.recvs w).dispatched w).bare = _
        rw [Function.update_self, hbytes]
        rfl)
  obtain ⟨d, hd, hverdict⟩ := (h₁.inv hm h₀).verdict hm h₁.workerPc
  obtain rfl : c = d := RecvWr.handled.inj ((RecvWr.eq_of_bare h₁.recv nofun).symm.trans hd)
  obtain ⟨s₂, h₂⟩ : ∃ s₂, Scene o m s₀ c v w i
      { y with worker := .matched i, recv := .handled c } s₂ :=
    h₁.work (a := .check w) rfl h₁.workerPc trivial rfl rfl
      ((h₁.inv hm h₀).fault_next hm ⟨rfl, ⟨h₁.fault, h₁.workerPc⟩, trivial⟩) (by
        show ((s₁.link.client.checked o m w).workers w).pc = _
        unfold Client.checked
        rw [hverdict, h₁.slot.trans hslot]
        exact congrArg Worker.pc (setWorker_self _ _ _)) h₁.recv
  exact h₂.work (a := .copy w i) rfl h₂.workerPc trivial rfl rfl
    ((h₂.inv hm h₀).fault_next hm ⟨rfl, ⟨h₂.fault, h₂.workerPc⟩, trivial⟩)
    (congrArg Worker.pc (setWorker_self _ _ _)) h₂.recv

/-- It resumes the call. -/
theorem Scene.wakes (h : Scene o m s₀ c v w i y s) (hw : y.worker = .waking i)
    (hc : y.call = .waiting) (hwaiter : (s.link.client.slots i).waiter = some c) :
    ∃ t, Scene o m s₀ c v w i { y with call := .resume, worker := .post } t := by
  have hpc := h.pc.trans hc
  have hnext : next o m s.link.client (.wake w i c) = (s.link.client.setCall c
      { s.link.client.calls c with
        pc := .resume, resumed := (s.link.client.calls c).resumed + 1 }).setWorker w
      { s.link.client.workers w with pc := .post } := by
    show (s.link.client.resumed c).setWorker w _ = _
    unfold Client.resumed
    rw [if_pos hpc]
  refine h.act (a := .client (.wake w i c)) ⟨rfl, ⟨h.fault, h.workerPc.trans hw, hwaiter⟩, trivial⟩
    ?_ ?_ ?_
  · show (next o m s.link.client (.wake w i c)).fault = none
    rw [hnext]
    exact h.fault
  · refine ⟨fun d hd => ?_, fun j _ hj => ?_, fun _ _ => rfl, fun _ _ => rfl, fun x hx => ?_,
      fun _ _ => rfl, fun _ _ => rfl, fun _ _ => rfl, fun _ _ => rfl⟩
    · show ((next o m s.link.client (.wake w i c)).calls d).pc = _
      rw [hnext]
      exact congrArg Call.pc (setCall_of_ne _ hd _)
    · show j ∈ (next o m s.link.client (.wake w i c)).freeSlots
      rw [hnext]
      exact hj
    · show (next o m s.link.client (.wake w i c)).workers x = _
      rw [hnext]
      exact setWorker_of_ne _ hx _
  · rw [← h.view]
    unfold System.view
    simp only [systemNext, linkNext, hnext, Client.setWorker, Client.setCall, Function.update_self]
    rfl

/-- **A call whose completions are polled returns**, and its slot is free. -/
theorem Scene.returns (hm : m < 2 ^ 32) (h₀ : SystemInv o m s₀) (h : Scene o m s₀ c v w i y s)
    (hc : y.call = .sending) (hslot : y.slotIdx = i) (hs : y.send = .done true)
    (hw : y.worker = .receiving) (hr : y.recv = .packet c []) :
    ∃ t, Scene o m s₀ c v w i
      { y with
        call := .returned
        free := true
        send := .dispatched true
        worker := .post
        recv := .handled c } t := by
  obtain ⟨s₁, h₁⟩ : ∃ s₁, Scene o m s₀ c v w i
      { y with call := .suspend, send := .dispatched true } s₁ :=
    h.call (a := .sendDone c true) rfl (h.pc.trans hc) (h.send.trans hs) rfl rfl rfl
      (slotIdx_of_update (u := s.link.client) rfl h.slot) h.free (fun _ _ hj => hj)
      (Function.update_self _ _ _)
  obtain ⟨s₂, h₂⟩ : ∃ s₂, Scene o m s₀ c v w i
      { y with call := .waiting, send := .dispatched true } s₂ :=
    h₁.call (a := .suspend c) rfl h₁.pc trivial rfl rfl rfl
      (slotIdx_of_update (u := s₁.link.client) rfl h₁.slot) h₁.free (fun _ _ hj => hj) h₁.send
  obtain ⟨s₃, h₃⟩ := h₂.receives hm h₀ hslot hw hr
  have hwaiter : (s₃.link.client.slots i).waiter = some c := by
    have hown := (h₃.inv hm h₀).link.client.own c (by rw [h₃.pc]; rfl)
    rw [h₃.slot.trans hslot] at hown
    exact hown.waiting h₃.pc
  obtain ⟨s₄, h₄⟩ := h₃.wakes rfl rfl hwaiter
  obtain ⟨s₅, h₅⟩ := h₄.call (a := .resume c) rfl h₄.pc trivial rfl rfl rfl
    (slotIdx_of_update (u := s₄.link.client) rfl h₄.slot) h₄.free (fun _ _ hj => hj) h₄.send
  exact h₅.call (a := .enqueue c) rfl h₅.pc trivial rfl rfl rfl
    (slotIdx_of_update (u := s₅.link.client) rfl h₅.slot)
    (decide_eq_true (List.mem_append_right _ (List.mem_singleton.mpr (h₅.slot.trans hslot).symm)))
    (fun _ _ hj => List.mem_append_left _ hj) h₅.send

end Scene

end Rpc
end Rdmapp
