/-
  File:      Rdmapp/Rpc/Link.lean
  Subject:   THE CLIENT ON A QUEUE PAIR, with a peer that answers each request once.

  The queue pair takes the client's sends and receives and completes them. A send may fail at any
  time before the peer has its request; once the peer has it, only in the error state, after which
  nothing succeeds any more. The peer answers a request it has with the request's id, at most once.

  A worker carries the answer of a call from its arrival to the resumption. As long as the call's
  send has not failed the call waits for it in its slot (`Live`); where it has, the slot has no
  waiter until the end (`Stale`). So a worker only ever resumes a call that waits, and the slots
  are conserved (`slots_conserved`).
-/
import Rdmapp.Rpc.Slots

namespace Rdmapp
namespace Rpc

open Lib

/-! ## 1. The queue pair and the peer -/

/-- The send of a call. -/
inductive SendWr where
  | idle
  | posted
  /-- Its completion is in the CQ. -/
  | done (ok : Bool)
  | dispatched (ok : Bool)
  deriving DecidableEq, Repr

/-- The receive of a worker. -/
inductive RecvWr where
  | idle
  | posted
  /-- The answer of call `c` is in the CQ. -/
  | packet (c : Nat) (bytes : List UInt8)
  /-- A flush error is in the CQ. -/
  | flushed
  /-- The answer of call `c` was given to the worker. -/
  | handled (c : Nat)
  deriving DecidableEq, Repr

structure Link where
  client : Client
  /-- The queue pair is in the error state. -/
  error : Bool
  sends : Nat → SendWr
  recvs : Nat → RecvWr
  /-- The peer has the request. -/
  delivered : Nat → Bool
  /-- The peer's answer has arrived. -/
  answered : Nat → Bool

def Link.start (m : Nat) : Link where
  client := Client.start m
  error := false
  sends _ := .idle
  recvs _ := .idle
  delivered _ := false
  answered _ := false

/-- What the CQ has for the worker: a packet, or an error. -/
def RecvWr.completion : RecvWr → Option (Option (List UInt8))
  | .packet _ bytes => some (some bytes)
  | .flushed => some none
  | _ => none

def RecvWr.dispatched : RecvWr → RecvWr
  | .packet c _ => .handled c
  | _ => .idle

inductive LinkAction where
  | client (a : Action)
  | deliver (c : Nat)
  | completeSend (c : Nat) (ok : Bool)
  | answer (c w : Nat) (bytes : List UInt8)
  | fail
  | flush (w : Nat)
  deriving DecidableEq, Repr

/-- The queue pair allows the client's statement. -/
def Link.Permits (s : Link) : Action → Prop
  | .sendDone c ok => s.sends c = .done ok
  | .postRecv _ ok => ok = false → s.error = true
  | .recvDone w packet => (s.recvs w).completion = some packet
  | _ => True

instance (s : Link) (a : Action) : Decidable (s.Permits a) :=
  match a with
  | .sendDone .. | .recvDone .. => inferInstanceAs (Decidable (_ = _))
  | .postRecv .. => inferInstanceAs (Decidable (_ → _))
  | .call .. | .dequeue .. | .fetchAdd .. | .storeWaiter .. | .storeBuffer .. | .storeId ..
  | .fill .. | .post .. | .suspend .. | .resume .. | .enqueue .. | .check .. | .copy ..
  | .wake .. => inferInstanceAs (Decidable True)

section Step

variable (o : ByteOrder) (m : Nat)

/-- A packet that answers the request `reqId`. -/
def Answers (bytes : List UInt8) (reqId : UInt64) : Prop :=
  headerSize ≤ bytes.length ∧ bytes.length ≤ kRecvBufferSize ∧
    UInt64.ofNat (memVal o (bytes.take 8)) = reqId

instance (bytes : List UInt8) (reqId : UInt64) : Decidable (Answers o bytes reqId) :=
  inferInstanceAs (Decidable (_ ∧ _ ∧ _))

def LinkEnabled (s : Link) : LinkAction → Prop
  | .client a => (s.client.fault = none ∧ Enabled s.client a) ∧ s.Permits a
  | .deliver c => s.sends c = .posted ∧ s.error = false
  | .completeSend c ok => s.sends c = .posted ∧
      if ok then s.delivered c = true ∧ s.error = false
      else s.delivered c = true → s.error = true
  | .answer c w bytes => s.delivered c = true ∧ s.answered c = false ∧ s.error = false ∧
      s.recvs w = .posted ∧ Answers o bytes (s.client.calls c).reqId
  | .fail => True
  | .flush w => s.error = true ∧ s.recvs w = .posted

instance (s : Link) (a : LinkAction) : Decidable (LinkEnabled o s a) :=
  match a with
  | .client .. | .deliver .. | .flush .. => inferInstanceAs (Decidable (_ ∧ _))
  | .completeSend .. => inferInstanceAs (Decidable (_ ∧ ite _ _ _))
  | .answer .. => inferInstanceAs (Decidable (_ ∧ _ ∧ _ ∧ _ ∧ _))
  | .fail => inferInstanceAs (Decidable True)

/-- What a client statement tells the queue pair. -/
def Link.tell (s : Link) : Action → Link
  | .post c ok => { s with sends := Function.update s.sends c (if ok then .posted else .idle) }
  | .sendDone c ok => { s with sends := Function.update s.sends c (.dispatched ok) }
  | .postRecv w ok => { s with recvs := Function.update s.recvs w (if ok then .posted else .idle) }
  | .recvDone w _ => { s with recvs := Function.update s.recvs w (s.recvs w).dispatched }
  | _ => s

def linkNext (s : Link) : LinkAction → Link
  | .client a => { s.tell a with client := next o m s.client a }
  | .deliver c => { s with delivered := Function.update s.delivered c true }
  | .completeSend c ok => { s with sends := Function.update s.sends c (.done ok) }
  | .answer c w bytes =>
    { s with
      answered := Function.update s.answered c true
      recvs := Function.update s.recvs w (.packet c bytes) }
  | .fail => { s with error := true }
  | .flush w => { s with recvs := Function.update s.recvs w .flushed }

/-- The client, the queue pair and the peer. -/
def linkMachine : Machine Link LinkAction := .guarded (LinkEnabled o) (linkNext o m)

end Step

theorem tell_error (s : Link) (a : Action) : (s.tell a).error = s.error := by
  cases a <;> rfl

/-! ## 2. Who carries which answer -/

/-- Before the post. -/
def CallPc.early : CallPc → Bool
  | .idle | .dequeue | .fetchAdd | .storeWaiter | .storeBuffer | .storeId | .fill | .post => true
  | _ => false

/-- Neither on the send nor on the response. -/
def CallPc.quiet : CallPc → Bool
  | .sending | .suspend | .waiting => false
  | _ => true

/-- The call waits for its answer, or will: its send has not failed. -/
def Live (p : CallPc) (wr : SendWr) : Prop :=
  (p = .sending ∧ wr ≠ .done false) ∨ p = .suspend ∨ p = .waiting

/-- A worker has a packet in hand. -/
def WorkerPc.busy : WorkerPc → Bool
  | .received | .matched _ | .waking _ => true
  | _ => false

/-- The call whose answer worker `w` carries, in the CQ or in hand. -/
def Link.carried (s : Link) (w : Nat) : Option Nat :=
  match s.recvs w with
  | .packet c _ => some c
  | .handled c => if (s.client.workers w).pc.busy then some c else none
  | _ => none

/-- Nothing succeeds any more, and the slot has no waiter and gets none. -/
structure Stale (s : Link) (i : Nat) : Prop where
  error : s.error = true
  waiter : (s.client.slots i).waiter = none
  holders : ∀ d, (s.client.calls d).held = some i →
    (s.client.calls d).pc ≠ .suspend ∧ (s.client.calls d).pc ≠ .waiting ∧ s.sends d ≠ .done true

/-- A call and its work request. -/
structure CallLink (s : Link) (c : Nat) : Prop where
  early : (s.client.calls c).pc.early = true → s.sends c = .idle ∧ s.delivered c = false
  sending : (s.client.calls c).pc = .sending ↔ s.sends c = .posted ∨ ∃ ok, s.sends c = .done ok
  awaiting : (s.client.calls c).pc = .suspend ∨ (s.client.calls c).pc = .waiting →
    s.delivered c = true
  succeeded : s.sends c = .done true → s.delivered c = true
  pending : s.delivered c = true → s.answered c = false → s.error = false →
    Live (s.client.calls c).pc (s.sends c)
  answered : s.answered c = true → s.delivered c = true

/-- A worker, its work request and the packet in its buffer. -/
structure WorkerLink (o : ByteOrder) (s : Link) (w : Nat) : Prop where
  receiving : (s.client.workers w).pc = .receiving ↔
    s.recvs w = .posted ∨ (s.recvs w).completion.isSome = true
  busy : (s.client.workers w).pc.busy = true → ∃ c, s.recvs w = .handled c ∧
    s.client.recvId o w = (s.client.calls c).reqId ∧ headerSize ≤ (s.client.workers w).nbytes
  slot : ∀ c i, s.recvs w = .handled c →
    ((s.client.workers w).pc = .matched i ∨ (s.client.workers w).pc = .waking i) →
    i = (s.client.calls c).slotIdx
  packet : ∀ c bytes, s.recvs w = .packet c bytes → Answers o bytes (s.client.calls c).reqId

/-- The invariant of client, queue pair and peer. -/
structure LinkInv (o : ByteOrder) (m : Nat) (s : Link) : Prop where
  client : Inv m s.client
  call : ∀ c, CallLink s c
  worker : ∀ w, WorkerLink o s w
  carried : ∀ w c, s.carried w = some c → s.answered c = true ∧
    (Live (s.client.calls c).pc (s.sends c) ∨ Stale s (s.client.calls c).slotIdx)
  once : ∀ w w' c, s.carried w = some c → s.carried w' = some c → w = w'
  fault : s.client.fault ≠ some .staleResume

section Invariant

variable {o : ByteOrder} {m : Nat} {s t : Link} {c d w i : Nat}

theorem linkInv_start (m : Nat) : LinkInv o m (Link.start m) where
  client := inv_start m
  call _ := ⟨fun _ => ⟨rfl, rfl⟩, iff_of_false nofun nofun, nofun, nofun, nofun, nofun⟩
  worker w := by
    refine ⟨iff_of_false ?_ ?_, ?_, nofun, nofun⟩
    · show (if w < m then WorkerPc.post else .exited) ≠ .receiving
      split <;> exact nofun
    · exact nofun
    · show (if w < m then WorkerPc.post else .exited).busy = true → _
      split <;> exact nofun
  carried _ _ h := nomatch h
  once _ _ _ h := nomatch h
  fault := nofun

/-- The answer of a call that has not posted its request is nowhere. -/
theorem LinkInv.not_carried (h : LinkInv o m s) (hc : (s.client.calls c).pc.early = true) (w : Nat) :
    s.carried w ≠ some c := by
  intro hw
  have ha := (h.call c).answered (h.carried w c hw).1
  rw [((h.call c).early hc).2] at ha
  cases ha

theorem carried_of_handled (hr : s.recvs w = .handled c)
    (hb : (s.client.workers w).pc.busy = true) : s.carried w = some c := by
  unfold Link.carried
  rw [hr]
  exact if_pos hb

theorem handled_of_carried (hd : s.carried w = some d) (hr : s.recvs w = .handled c) :
    c = d ∧ (s.client.workers w).pc.busy = true := by
  unfold Link.carried at hd
  rw [hr] at hd
  dsimp only at hd
  split_ifs at hd with hb
  exact ⟨Option.some.inj hd, hb⟩

theorem carried_of_packet {bytes : List UInt8} (hr : s.recvs w = .packet c bytes) :
    s.carried w = some c := by
  unfold Link.carried
  rw [hr]

theorem packet_of_completion {bytes : List UInt8}
    (hr : (s.recvs w).completion = some (some bytes)) : ∃ c, s.recvs w = .packet c bytes := by
  cases hs : s.recvs w <;> rw [hs] at hr <;> cases hr
  exact ⟨_, rfl⟩

theorem not_live_of_quiet {p : CallPc} {wr : SendWr} (hp : p.quiet = true) : ¬ Live p wr := by
  rintro (⟨rfl, -⟩ | rfl | rfl) <;> cases hp

/-! ## 3. Steps of one call -/

/-- Only call `c` moves. -/
structure CallTurn (s t : Link) (c : Nat) : Prop where
  calls : ∀ d, d ≠ c → t.client.calls d = s.client.calls d
  sends : ∀ d, d ≠ c → t.sends d = s.sends d
  workers : t.client.workers = s.client.workers
  pool : t.client.recvBufferPool = s.client.recvBufferPool
  recvs : t.recvs = s.recvs
  error : t.error = s.error
  delivered : t.delivered = s.delivered
  answered : t.answered = s.answered
  fault : t.client.fault = s.client.fault

theorem CallTurn.carried (ht : CallTurn s t c) (w : Nat) : t.carried w = s.carried w := by
  unfold Link.carried
  rw [ht.recvs, ht.workers]

theorem CallTurn.recvId (ht : CallTurn s t c) (w : Nat) :
    t.client.recvId o w = s.client.recvId o w := by
  unfold Client.recvId Client.header
  rw [ht.pool]

/-- The slot stays without a waiter, if the call does not bring one. -/
theorem CallTurn.stale (ht : CallTurn s t c) (hi : Stale s i)
    (hwaiter : (t.client.slots i).waiter = none)
    (hc : (t.client.calls c).held = some i → (t.client.calls c).pc ≠ .suspend ∧
      (t.client.calls c).pc ≠ .waiting ∧ t.sends c ≠ .done true) : Stale t i := by
  refine ⟨ht.error.trans hi.error, hwaiter, fun d hd => ?_⟩
  rcases eq_or_ne d c with rfl | hne
  · exact hc hd
  · rw [ht.calls d hne] at hd ⊢
    rw [ht.sends d hne]
    exact hi.holders d hd

theorem LinkInv.callTurn (h : LinkInv o m s) (ht : CallTurn s t c) (hinv : Inv m t.client)
    (hcall : CallLink t c)
    (hown : ∀ w, s.carried w = some c →
      (t.client.calls c).reqId = (s.client.calls c).reqId ∧
      (t.client.calls c).slotIdx = (s.client.calls c).slotIdx ∧
      (Live (t.client.calls c).pc (t.sends c) ∨ Stale t (t.client.calls c).slotIdx))
    (hstale : ∀ i, Stale s i → Stale t i) : LinkInv o m t where
  client := hinv
  call d := by
    rcases eq_or_ne d c with rfl | hne
    · exact hcall
    · have hd := h.call d
      refine ⟨?_, ?_, ?_, ?_, ?_, ?_⟩
      · rw [ht.calls d hne, ht.sends d hne, ht.delivered]
        exact hd.early
      · rw [ht.calls d hne, ht.sends d hne]
        exact hd.sending
      · rw [ht.calls d hne, ht.delivered]
        exact hd.awaiting
      · rw [ht.sends d hne, ht.delivered]
        exact hd.succeeded
      · rw [ht.calls d hne, ht.sends d hne, ht.delivered, ht.answered, ht.error]
        exact hd.pending
      · rw [ht.answered, ht.delivered]
        exact hd.answered
  worker w := by
    -- the call a worker deals with is another one, or has kept its id and slot
    have hsame : ∀ d, s.carried w = some d →
        (t.client.calls d).reqId = (s.client.calls d).reqId ∧
          (t.client.calls d).slotIdx = (s.client.calls d).slotIdx := by
      intro d hd
      rcases eq_or_ne d c with rfl | hne
      · exact ⟨(hown w hd).1, (hown w hd).2.1⟩
      · rw [ht.calls d hne]
        exact ⟨rfl, rfl⟩
    have hw := h.worker w
    refine ⟨?_, ?_, ?_, ?_⟩
    · rw [ht.workers, ht.recvs]
      exact hw.receiving
    · rw [ht.workers, ht.recvs, ht.recvId]
      intro hb
      obtain ⟨d, hr, hid, hn⟩ := hw.busy hb
      have hd := carried_of_handled hr hb
      exact ⟨d, hr, hid.trans (hsame d hd).1.symm, hn⟩
    · rw [ht.workers, ht.recvs]
      intro d i hr hp
      have hb : (s.client.workers w).pc.busy = true := by
        rcases hp with hp | hp <;> rw [hp] <;> rfl
      have hd := carried_of_handled hr hb
      exact (hw.slot d i hr hp).trans (hsame d hd).2.symm
    · rw [ht.recvs]
      intro d bytes hr
      have hd := carried_of_packet hr
      rw [(hsame d hd).1]
      exact hw.packet d bytes hr
  carried w d hd := by
    rw [ht.carried] at hd
    rw [ht.answered]
    refine ⟨(h.carried w d hd).1, ?_⟩
    rcases eq_or_ne d c with rfl | hne
    · exact (hown w hd).2.2
    · rw [ht.calls d hne, ht.sends d hne]
      exact (h.carried w d hd).2.imp_right (hstale _)
  once w w' d hw hw' := by
    rw [ht.carried] at hw hw'
    exact h.once w w' d hw hw'
  fault := by
    rw [ht.fault]
    exact h.fault

/-- A call that waits for nothing goes on to another such place. -/
theorem LinkInv.quiet (h : LinkInv o m s) (ht : CallTurn s t c) (hinv : Inv m t.client)
    (hp : (s.client.calls c).pc.quiet = true) (hq : (t.client.calls c).pc.quiet = true)
    (hearly : (t.client.calls c).pc.early = true → (s.client.calls c).pc.early = true)
    (hsends : t.sends c = s.sends c)
    (hid : (s.client.calls c).pc.early = false →
      (t.client.calls c).reqId = (s.client.calls c).reqId ∧
      (t.client.calls c).slotIdx = (s.client.calls c).slotIdx)
    (hwaiter : ∀ j, (s.client.slots j).waiter = none → (t.client.slots j).waiter = none) :
    LinkInv o m t := by
  have hc := h.call c
  have hnot : ∀ {q : CallPc}, q.quiet = true → q ≠ .sending ∧ q ≠ .suspend ∧ q ≠ .waiting := by
    intro q hq
    refine ⟨?_, ?_, ?_⟩ <;> rintro rfl <;> cases hq
  have hwr : ¬ (s.sends c = .posted ∨ ∃ ok, s.sends c = .done ok) :=
    fun hw => (hnot hp).1 (hc.sending.mpr hw)
  have hstale : ∀ i, Stale s i → Stale t i := fun i hi =>
    ht.stale hi (hwaiter i hi.waiter) fun _ =>
      ⟨(hnot hq).2.1, (hnot hq).2.2, fun hw => hwr (Or.inr ⟨true, hsends ▸ hw⟩)⟩
  refine h.callTurn ht hinv ?_ ?_ hstale
  · refine ⟨fun he => ?_, ?_, ?_, ?_, ?_, ?_⟩
    · rw [hsends, ht.delivered]
      exact hc.early (hearly he)
    · rw [hsends]
      exact iff_of_false (hnot hq).1 hwr
    · rintro (hw | hw)
      · exact absurd hw (hnot hq).2.1
      · exact absurd hw (hnot hq).2.2
    · rw [hsends, ht.delivered]
      exact hc.succeeded
    · rw [ht.delivered, ht.answered, ht.error]
      intro hd ha he
      exact absurd (hc.pending hd ha he) (not_live_of_quiet hp)
    · rw [ht.answered, ht.delivered]
      exact hc.answered
  · intro w hw
    cases hs : (s.client.calls c).pc.early with
    | true => exact absurd hw (h.not_carried hs w)
    | false =>
      obtain ⟨hreq, hslot⟩ := hid hs
      refine ⟨hreq, hslot, Or.inr ?_⟩
      rw [hslot]
      exact hstale _ ((h.carried w c hw).2.resolve_left (not_live_of_quiet hp))

/-- The request is posted. -/
theorem LinkInv.posted (h : LinkInv o m s) (ht : CallTurn s t c) (hinv : Inv m t.client)
    (hp : (s.client.calls c).pc = .post) (hq : (t.client.calls c).pc = .sending)
    (hsends : t.sends c = .posted) (hslots : t.client.slots = s.client.slots) :
    LinkInv o m t := by
  have hearly : (s.client.calls c).pc.early = true := by rw [hp]; rfl
  refine h.callTurn ht hinv ?_ (fun w hw => absurd hw (h.not_carried hearly w)) ?_
  · refine ⟨?_, ?_, ?_, ?_, ?_, ?_⟩
    · rw [hq]
      exact nofun
    · rw [hq, hsends]
      exact iff_of_true rfl (Or.inl rfl)
    · rw [hq]
      exact nofun
    · rw [hsends]
      exact nofun
    · rw [hq, hsends]
      exact fun _ _ _ => Or.inl ⟨rfl, nofun⟩
    · rw [ht.answered, ht.delivered]
      exact (h.call c).answered
  · intro i hi
    refine ht.stale hi (hslots ▸ hi.waiter) fun _ => ?_
    rw [hq, hsends]
    exact ⟨nofun, nofun, nofun⟩

/-- The completion of the send is dispatched: the call goes on, or gives up. -/
theorem LinkInv.sent (h : LinkInv o m s) (ht : CallTurn s t c) (hinv : Inv m t.client) {ok : Bool}
    (hp : (s.client.calls c).pc = .sending) (hw : s.sends c = .done ok)
    (hq : (t.client.calls c).pc = if ok then .suspend else .enqueue)
    (hsends : t.sends c = .dispatched ok) (hslots : t.client.slots = s.client.slots)
    (hreq : (t.client.calls c).reqId = (s.client.calls c).reqId)
    (hslot : (t.client.calls c).slotIdx = (s.client.calls c).slotIdx) : LinkInv o m t := by
  have hc := h.call c
  have hlive : Live (s.client.calls c).pc (s.sends c) → (t.client.calls c).pc = .suspend := by
    rw [hp, hw, hq]
    rintro (⟨-, hne⟩ | hc | hc)
    · rw [Bool.eq_true_of_not_eq_false fun hok => hne (congrArg SendWr.done hok)]
      rfl
    · cases hc
    · cases hc
  have hstale : ∀ i, Stale s i → Stale t i := by
    intro i hi
    refine ht.stale hi (hslots ▸ hi.waiter) fun hh => ?_
    have hh' : (s.client.calls c).held = some i := by
      rw [held_of_holds (by rw [hp]; rfl), ← hslot]
      exact congrArg some (held_eq_some.mp hh).2
    have hfail : ok = false := Bool.eq_false_of_not_eq_true fun hok =>
      (hi.holders c hh').2.2 (by rw [hw, hok])
    rw [hq, hsends, hfail]
    exact ⟨nofun, nofun, nofun⟩
  refine h.callTurn ht hinv ?_ ?_ hstale
  · refine ⟨?_, ?_, ?_, ?_, ?_, ?_⟩
    · rw [hq]
      cases ok <;> exact nofun
    · rw [hq, hsends]
      refine iff_of_false ?_ ?_
      · cases ok <;> exact nofun
      · rintro (hc | ⟨_, hc⟩) <;> cases hc
    · intro hs
      rw [ht.delivered]
      refine hc.succeeded (hw.trans (congrArg SendWr.done ?_))
      rw [hq] at hs
      cases ok with
      | true => rfl
      | false => rcases hs with hs | hs <;> cases hs
    · rw [hsends]
      exact nofun
    · rw [ht.delivered, ht.answered, ht.error]
      exact fun hd ha he => Or.inr (Or.inl (hlive (hc.pending hd ha he)))
    · rw [ht.answered, ht.delivered]
      exact hc.answered
  · intro w hw
    refine ⟨hreq, hslot, ?_⟩
    rcases (h.carried w c hw).2 with hl | hl
    · exact Or.inl (Or.inr (Or.inl (hlive hl)))
    · exact Or.inr (hslot ▸ hstale _ hl)

/-- The call waits in its slot. -/
theorem LinkInv.suspended (h : LinkInv o m s) (ht : CallTurn s t c) (hinv : Inv m t.client)
    (hp : (s.client.calls c).pc = .suspend) (hq : (t.client.calls c).pc = .waiting)
    (hsends : t.sends c = s.sends c)
    (hslots : ∀ j, j ≠ (s.client.calls c).slotIdx → t.client.slots j = s.client.slots j)
    (hreq : (t.client.calls c).reqId = (s.client.calls c).reqId)
    (hslot : (t.client.calls c).slotIdx = (s.client.calls c).slotIdx) : LinkInv o m t := by
  have hc := h.call c
  have hlive : Live (t.client.calls c).pc (t.sends c) := Or.inr (Or.inr hq)
  have hheld : (s.client.calls c).held = some (s.client.calls c).slotIdx :=
    held_of_holds (by rw [hp]; rfl)
  refine h.callTurn ht hinv ?_ (fun w _ => ⟨hreq, hslot, Or.inl hlive⟩) ?_
  · refine ⟨?_, ?_, ?_, ?_, fun _ _ _ => hlive, ?_⟩
    · rw [hq]
      exact nofun
    · rw [hq, hsends]
      refine iff_of_false nofun fun hs => ?_
      rw [hc.sending.mpr hs] at hp
      cases hp
    · rw [ht.delivered]
      exact fun _ => hc.awaiting (Or.inl hp)
    · rw [hsends, ht.delivered]
      exact hc.succeeded
    · rw [ht.answered, ht.delivered]
      exact hc.answered
  · intro i hi
    -- a stale slot is not this call's
    have hne : i ≠ (s.client.calls c).slotIdx := by
      rintro rfl
      exact (hi.holders c hheld).1 hp
    refine ht.stale hi ?_ fun hh => absurd ?_ hne
    · rw [hslots i hne]
      exact hi.waiter
    · rw [← hslot, (held_eq_some.mp hh).2]

/-- The call is resumed, and its answer is in nobody's hands any more. -/
theorem LinkInv.resumed (h : LinkInv o m s) (ht : CallTurn s t c) (hinv : Inv m t.client)
    (hp : (s.client.calls c).pc = .waiting) (hq : (t.client.calls c).pc = .resume)
    (hsends : t.sends c = s.sends c) (hslots : t.client.slots = s.client.slots)
    (hslot : (t.client.calls c).slotIdx = (s.client.calls c).slotIdx)
    (ha : s.answered c = true) (hgone : ∀ w, s.carried w ≠ some c) : LinkInv o m t := by
  have hc := h.call c
  have hheld : (s.client.calls c).held = some (s.client.calls c).slotIdx :=
    held_of_holds (by rw [hp]; rfl)
  refine h.callTurn ht hinv ?_ (fun w hw => absurd hw (hgone w)) fun i hi => ?_
  · refine ⟨?_, ?_, ?_, ?_, ?_, ?_⟩
    · rw [hq]
      exact nofun
    · rw [hq, hsends]
      refine iff_of_false nofun fun hs => ?_
      cases hp.symm.trans (hc.sending.mpr hs)
    · rw [hq]
      rintro (hs | hs) <;> cases hs
    · rw [hsends, ht.delivered]
      exact hc.succeeded
    · rw [ht.answered, ha]
      exact nofun
    · rw [ht.answered, ht.delivered]
      exact hc.answered
  · refine ht.stale hi (hslots ▸ hi.waiter) fun hh => absurd hp ?_
    have hi' : (s.client.calls c).slotIdx = i := hslot.symm.trans (held_eq_some.mp hh).2
    exact (hi.holders c (hi' ▸ hheld)).2.1

/-- The queue pair completes the send. -/
theorem LinkInv.completed (h : LinkInv o m s) (ht : CallTurn s t c)
    (hclient : t.client = s.client) {ok : Bool} (hw : s.sends c = .posted)
    (hsends : t.sends c = .done ok)
    (hok : if ok then s.delivered c = true ∧ s.error = false
      else s.delivered c = true → s.error = true) : LinkInv o m t := by
  have hc := h.call c
  have hp : (s.client.calls c).pc = .sending := hc.sending.mpr (Or.inl hw)
  have hheld : (s.client.calls c).held = some (s.client.calls c).slotIdx :=
    held_of_holds (by rw [hp]; rfl)
  refine h.callTurn ht (hclient ▸ h.client) ?_ ?_ ?_
  · refine ⟨?_, ?_, ?_, ?_, ?_, ?_⟩
    · rw [hclient, hp]
      exact nofun
    · rw [hclient, hp, hsends]
      exact iff_of_true rfl (Or.inr ⟨ok, rfl⟩)
    · rw [hclient, hp]
      rintro (hs | hs) <;> cases hs
    · rw [hsends, ht.delivered]
      rintro ⟨⟩
      exact hok.1
    · rw [hclient, hp, hsends, ht.delivered, ht.error]
      intro hd _ he
      cases ok with
      | true => exact Or.inl ⟨rfl, nofun⟩
      | false => exact absurd (hok hd) (by rw [he]; exact nofun)
    · rw [ht.answered, ht.delivered]
      exact hc.answered
  · intro w hcw
    refine ⟨by rw [hclient], by rw [hclient], ?_⟩
    rw [hclient, hp, hsends]
    cases ok with
    | true => exact Or.inl (Or.inl ⟨rfl, nofun⟩)
    | false =>
      refine Or.inr ⟨?_, ?_, fun d hd => ?_⟩
      · rw [ht.error]
        exact hok (hc.answered (h.carried w c hcw).1)
      · rw [hclient]
        exact (h.client.own c (by rw [hp]; rfl)).cleared (by rw [hp]; rfl)
      · rw [hclient] at hd ⊢
        obtain rfl : d = c := h.client.pool.inj d c _ hd hheld
        rw [hp, hsends]
        exact ⟨nofun, nofun, nofun⟩
  · intro i hi
    refine ht.stale hi (hclient ▸ hi.waiter) fun _ => ?_
    rw [hclient, hp, hsends]
    refine ⟨nofun, nofun, fun hs => ?_⟩
    rw [SendWr.done.injEq] at hs
    rw [hs] at hok
    exact absurd hi.error (by rw [hok.2]; exact nofun)

/-! ## 4. Steps of one worker -/

/-- Only worker `w` moves; the calls keep their places. -/
structure WorkerTurn (o : ByteOrder) (s t : Link) (w : Nat) : Prop where
  calls : ∀ d, (t.client.calls d).pc = (s.client.calls d).pc ∧
    (t.client.calls d).slotIdx = (s.client.calls d).slotIdx ∧
    (t.client.calls d).reqId = (s.client.calls d).reqId
  slots : ∀ j, (t.client.slots j).waiter = (s.client.slots j).waiter
  workers : ∀ v, v ≠ w → t.client.workers v = s.client.workers v
  recvId : ∀ v, v ≠ w → t.client.recvId o v = s.client.recvId o v
  recvs : ∀ v, v ≠ w → t.recvs v = s.recvs v
  sends : t.sends = s.sends
  error : t.error = s.error
  delivered : t.delivered = s.delivered
  fault : t.client.fault ≠ some .staleResume

theorem LinkInv.workerTurn (h : LinkInv o m s) (ht : WorkerTurn o s t w) (hinv : Inv m t.client)
    (hworker : WorkerLink o t w)
    (hanswered : ∀ d, t.answered d = true ↔ s.answered d = true ∨ t.carried w = some d)
    (hcarried : ∀ d, t.carried w = some d → s.carried w = some d ∨
      (s.delivered d = true ∧ Live (s.client.calls d).pc (s.sends d) ∧
        ∀ v, s.carried v ≠ some d)) : LinkInv o m t := by
  have hother : ∀ v, v ≠ w → t.carried v = s.carried v := by
    intro v hv
    unfold Link.carried
    rw [ht.recvs v hv, ht.workers v hv]
  have hheld : ∀ d, (t.client.calls d).held = (s.client.calls d).held := by
    intro d
    unfold Call.held
    rw [(ht.calls d).1, (ht.calls d).2.1]
  have hstale : ∀ i, Stale s i → Stale t i := by
    refine fun i hi => ⟨ht.error.trans hi.error, (ht.slots i).trans hi.waiter, fun d hd => ?_⟩
    rw [(ht.calls d).1, ht.sends]
    exact hi.holders d (hheld d ▸ hd)
  refine ⟨hinv, fun d => ?_, fun v => ?_, ?_, ?_, ht.fault⟩
  · have hd := h.call d
    refine ⟨?_, ?_, ?_, ?_, ?_, ?_⟩
    · rw [(ht.calls d).1, ht.sends, ht.delivered]
      exact hd.early
    · rw [(ht.calls d).1, ht.sends]
      exact hd.sending
    · rw [(ht.calls d).1, ht.delivered]
      exact hd.awaiting
    · rw [ht.sends, ht.delivered]
      exact hd.succeeded
    · rw [(ht.calls d).1, ht.sends, ht.delivered, ht.error]
      intro hdel ha he
      refine hd.pending hdel ?_ he
      exact Bool.eq_false_of_not_eq_true fun hs => by
        rw [(hanswered d).mpr (Or.inl hs)] at ha
        cases ha
    · rw [ht.delivered, hanswered]
      rintro (ha | ha)
      · exact hd.answered ha
      · rcases hcarried d ha with hs | hs
        · exact hd.answered (h.carried w d hs).1
        · exact hs.1
  · rcases eq_or_ne v w with rfl | hv
    · exact hworker
    · have hw := h.worker v
      refine ⟨?_, ?_, ?_, ?_⟩
      · rw [ht.workers v hv, ht.recvs v hv]
        exact hw.receiving
      · rw [ht.workers v hv, ht.recvs v hv, ht.recvId v hv]
        intro hb
        obtain ⟨d, hr, hid, hn⟩ := hw.busy hb
        exact ⟨d, hr, hid.trans (ht.calls d).2.2.symm, hn⟩
      · rw [ht.workers v hv, ht.recvs v hv]
        exact fun d i hr hp => (hw.slot d i hr hp).trans (ht.calls d).2.1.symm
      · rw [ht.recvs v hv]
        intro d bytes hr
        rw [(ht.calls d).2.2]
        exact hw.packet d bytes hr
  · intro v d hv
    rw [hanswered, (ht.calls d).1, (ht.calls d).2.1, ht.sends]
    rcases eq_or_ne v w with rfl | hne
    · refine ⟨Or.inr hv, ?_⟩
      rcases hcarried d hv with hs | hs
      · exact (h.carried v d hs).2.imp_right (hstale _)
      · exact Or.inl hs.2.1
    · rw [hother v hne] at hv
      exact ⟨Or.inl (h.carried v d hv).1, (h.carried v d hv).2.imp_right (hstale _)⟩
  · intro v v' d hv hv'
    -- a packet that has just arrived is carried by nobody else
    have hnew : ∀ x, x ≠ w → s.carried x = some d → t.carried w = some d → x = w := by
      intro x hx hs hw
      rcases hcarried d hw with hs' | hs'
      · exact h.once x w d hs hs'
      · exact absurd hs (hs'.2.2 x)
    by_cases hvw : v = w <;> by_cases hvw' : v' = w
    · rw [hvw, hvw']
    · rw [hvw] at hv ⊢
      rw [hother v' hvw'] at hv'
      exact (hnew v' hvw' hv' hv).symm
    · rw [hvw'] at hv' ⊢
      rw [hother v hvw] at hv
      exact hnew v hvw hv hv'
    · rw [hother v hvw] at hv
      rw [hother v' hvw'] at hv'
      exact h.once v v' d hv hv'

/-- A worker that takes up no new answer. -/
theorem LinkInv.workerKeeps (h : LinkInv o m s) (ht : WorkerTurn o s t w) (hinv : Inv m t.client)
    (hworker : WorkerLink o t w) (hanswered : t.answered = s.answered)
    (hcarried : ∀ d, t.carried w = some d → s.carried w = some d) : LinkInv o m t := by
  refine h.workerTurn ht hinv hworker (fun d => ?_) fun d hd => Or.inl (hcarried d hd)
  rw [hanswered]
  exact (or_iff_left_of_imp fun hd => (h.carried w d (hcarried d hd)).1).symm

/-- The header in the buffer is that of the packet. -/
theorem recvId_write_self {s' : Client} {bytes : List UInt8} (hb : headerSize ≤ bytes.length)
    {pool : Mem} (hpool : s'.recvBufferPool = pool.write (w * kRecvBufferSize) bytes) :
    s'.recvId o w = UInt64.ofNat (memVal o (bytes.take 8)) := by
  have hlen : 8 ≤ bytes.length := le_trans (by decide) hb
  show UInt64.ofNat (memVal o (s'.recvBufferPool.read _ 8)) = _
  rw [hpool, ← Mem.read_take hlen, Mem.read_write]

/-- The call whose answer a worker has in hand has an id with its slot. -/
theorem LinkInv.slotOf_handled (h : LinkInv o m s) (hm : m < 2 ^ 32) (hd : s.delivered c = true) :
    slotOf (s.client.calls c).reqId = (s.client.calls c).slotIdx := by
  have hearly : (s.client.calls c).pc.early = false := Bool.eq_false_of_not_eq_true fun he => by
    rw [((h.call c).early he).2] at hd
    cases hd
  have hnum : (s.client.calls c).pc.numbered = true := by
    revert hearly
    cases (s.client.calls c).pc <;> first | exact fun _ => rfl | exact nofun
  obtain ⟨hid, hlt⟩ := h.client.numbered c hnum
  rw [hid, slotOf_encodeReqId _ (hlt.trans hm)]

/-- The worker with a packet in hand carries an answer. -/
theorem LinkInv.busy_carried (h : LinkInv o m s) (hb : (s.client.workers w).pc.busy = true) :
    ∃ c, s.recvs w = .handled c ∧ s.carried w = some c ∧
      s.client.recvId o w = (s.client.calls c).reqId ∧
      headerSize ≤ (s.client.workers w).nbytes := by
  obtain ⟨c, hr, hid, hn⟩ := (h.worker w).busy hb
  exact ⟨c, hr, carried_of_handled hr hb, hid, hn⟩

/-- The packet of a call that has its id in its slot passes the check. -/
theorem LinkInv.verdict (hm : m < 2 ^ 32) (h : LinkInv o m s) (hr : s.recvs w = .handled c)
    (hb : (s.client.workers w).pc.busy = true)
    (hp : (s.client.calls c).pc.identified = true) :
    s.client.verdict o m w = .ok (.matched (s.client.calls c).slotIdx) := by
  obtain ⟨d, hd, hcarried, hid, hn⟩ := h.busy_carried hb
  obtain rfl : c = d := RecvWr.handled.inj (hr.symm.trans hd)
  have hslot := h.slotOf_handled hm ((h.call c).answered (h.carried w c hcarried).1)
  have hh := holds_of_identified hp
  have hown := (h.client.own c hh).identified hp
  have hlt := h.client.slot_lt hh
  rw [← hid] at hslot hown
  rw [← hslot] at hlt hown
  unfold Client.verdict
  rw [if_neg (Nat.not_lt.mpr hn), if_neg (Nat.not_le.mpr hlt), if_neg (not_not.mpr hown), hslot]

/-- A worker that wakes a call wakes the one it carries the answer of, which waits. -/
theorem LinkInv.wakes (h : LinkInv o m s) {k : Nat} (hp : (s.client.workers w).pc = .waking i)
    (hk : (s.client.slots i).waiter = some k) :
    s.carried w = some k ∧ (s.client.calls k).pc = .waiting := by
  have hb : (s.client.workers w).pc.busy = true := by rw [hp]; rfl
  obtain ⟨c, hr, hc, -, -⟩ := h.busy_carried hb
  have hi := (h.worker w).slot c i hr (Or.inr hp)
  subst hi
  rcases (h.carried w c hc).2 with hl | hl
  · -- until it waits the slot has no waiter
    have hcleared : (s.client.calls c).pc.cleared = true → False := by
      intro hcl
      have hh : (s.client.calls c).pc.holds = true := by
        revert hcl
        cases (s.client.calls c).pc <;> first | exact fun _ => rfl | exact nofun
      rw [(h.client.own c hh).cleared hcl] at hk
      cases hk
    rcases hl with ⟨hs, -⟩ | hs | hs
    · exact absurd (by rw [hs]; rfl) hcleared
    · exact absurd (by rw [hs]; rfl) hcleared
    · rw [(h.client.own c (by rw [hs]; rfl)).waiting hs, Option.some.injEq] at hk
      subst hk
      exact ⟨hc, hs⟩
  · rw [hl.waiter] at hk
    cases hk

/-! ## 5. Every step keeps it -/

/-- The statements of a call that the queue pair has no part in, up to the post and after the
    response. -/
theorem LinkInv.local_step (h : LinkInv o m s) {x : Call} {t' : Client}
    (hinv : Inv m t') (hcalls : t'.calls = Function.update s.client.calls c x)
    (hworkers : t'.workers = s.client.workers)
    (hpool : t'.recvBufferPool = s.client.recvBufferPool) (hfault : t'.fault = s.client.fault)
    (hp : (s.client.calls c).pc.quiet = true) (hq : x.pc.quiet = true)
    (hearly : x.pc.early = true → (s.client.calls c).pc.early = true)
    (hid : (s.client.calls c).pc.early = false →
      x.reqId = (s.client.calls c).reqId ∧ x.slotIdx = (s.client.calls c).slotIdx)
    (hwaiter : ∀ j, (s.client.slots j).waiter = none → (t'.slots j).waiter = none) :
    LinkInv o m { s with client := t' } := by
  have hx : t'.calls c = x := by rw [hcalls, Function.update_self]
  refine h.quiet (c := c) ⟨fun d hd => ?_, fun _ _ => rfl, hworkers, hpool, rfl, rfl, rfl, rfl,
    hfault⟩ hinv hp ?_ ?_ rfl ?_ hwaiter
  · exact (congrFun hcalls d).trans (Function.update_of_ne hd _ _)
  · exact hx ▸ hq
  · exact hx ▸ hearly
  · exact hx ▸ hid

/-- A receive is posted, or its post fails. -/
theorem LinkInv.postRecv_step (h : LinkInv o m s) {ok : Bool}
    (hinv : Inv m (next o m s.client (.postRecv w ok))) (hf : s.client.fault = none) :
    LinkInv o m (linkNext o m s (.client (.postRecv w ok))) := by
  have hz : (linkNext o m s (.client (.postRecv w ok))).client.workers w =
      { s.client.workers w with pc := if ok then .receiving else .exited } :=
    Function.update_self w _ s.client.workers
  have hr : (linkNext o m s (.client (.postRecv w ok))).recvs w =
      if ok then .posted else .idle := Function.update_self w _ s.recvs
  refine h.workerKeeps (w := w) ⟨fun _ => ⟨rfl, rfl, rfl⟩, fun _ => rfl,
    fun v hv => Function.update_of_ne hv _ _, fun _ _ => rfl,
    fun v hv => Function.update_of_ne hv _ _, rfl, rfl, rfl, fun hc => nomatch hf.symm.trans hc⟩
    hinv ?_ rfl ?_
  · refine ⟨?_, ?_, ?_, ?_⟩
    · rw [hz, hr]
      cases ok with
      | true => exact iff_of_true rfl (Or.inl rfl)
      | false => exact iff_of_false nofun nofun
    · rw [hz]
      cases ok <;> exact nofun
    · rw [hr]
      cases ok <;> exact nofun
    · rw [hr]
      cases ok <;> exact nofun
  · unfold Link.carried
    rw [hr]
    cases ok <;> exact nofun

/-- A flush error ends the worker. -/
theorem LinkInv.flushed_step (h : LinkInv o m s) (hinv : Inv m (next o m s.client (.recvDone w none)))
    (hf : s.client.fault = none) (hr : (s.recvs w).completion = some none) :
    LinkInv o m (linkNext o m s (.client (.recvDone w none))) := by
  have hz : (linkNext o m s (.client (.recvDone w none))).client.workers w =
      { s.client.workers w with pc := .exited } := Function.update_self w _ s.client.workers
  have hr' : (linkNext o m s (.client (.recvDone w none))).recvs w = .idle := by
    refine (Function.update_self w _ s.recvs).trans ?_
    cases hs : s.recvs w <;> rw [hs] at hr <;> first | rfl | cases hr
  refine h.workerKeeps (w := w) ⟨fun _ => ⟨rfl, rfl, rfl⟩, fun _ => rfl,
    fun v hv => Function.update_of_ne hv _ _, fun _ _ => rfl,
    fun v hv => Function.update_of_ne hv _ _, rfl, rfl, rfl, fun hc => nomatch hf.symm.trans hc⟩
    hinv ?_ rfl ?_
  · refine ⟨?_, ?_, ?_, ?_⟩
    · rw [hz, hr']
      exact iff_of_false nofun nofun
    · rw [hz]
      exact nofun
    · rw [hr']
      exact nofun
    · rw [hr']
      exact nofun
  · unfold Link.carried
    rw [hr']
    exact nofun

/-- An answer is given to the worker. -/
theorem LinkInv.recvDone_step (h : LinkInv o m s) {bytes : List UInt8}
    (hinv : Inv m (next o m s.client (.recvDone w (some bytes)))) (hf : s.client.fault = none)
    (hr : (s.recvs w).completion = some (some bytes)) :
    LinkInv o m (linkNext o m s (.client (.recvDone w (some bytes)))) := by
  obtain ⟨c, hc⟩ := packet_of_completion hr
  obtain ⟨hmin, hmax, hid⟩ := (h.worker w).packet c bytes hc
  have hz : (linkNext o m s (.client (.recvDone w (some bytes)))).client.workers w =
      ⟨.received, bytes.length⟩ := Function.update_self w _ s.client.workers
  have hr' : (linkNext o m s (.client (.recvDone w (some bytes)))).recvs w = .handled c := by
    refine (Function.update_self w _ s.recvs).trans ?_
    rw [hc]
    rfl
  refine h.workerKeeps (w := w) ⟨fun _ => ⟨rfl, rfl, rfl⟩, fun _ => rfl,
    fun v hv => Function.update_of_ne hv _ _,
    fun v hv => congrArg RpcHeader.reqId (header_write_of_ne hmax hv),
    fun v hv => Function.update_of_ne hv _ _, rfl, rfl, rfl, fun hc => nomatch hf.symm.trans hc⟩
    hinv ?_ rfl ?_
  · refine ⟨?_, fun _ => ⟨c, hr', ?_, ?_⟩, ?_, ?_⟩
    · rw [hz, hr']
      exact iff_of_false nofun nofun
    · exact (recvId_write_self hmin rfl).trans hid
    · rw [hz]
      exact hmin
    · rw [hz]
      rintro d i - (hp | hp) <;> cases hp
    · rw [hr']
      exact nofun
  · intro d hd
    rw [carried_of_handled hr' (by rw [hz]; rfl), Option.some.injEq] at hd
    rw [← hd]
    exact carried_of_packet hc

/-- The worker has checked its packet. -/
theorem LinkInv.check_step (hm : m < 2 ^ 32) (h : LinkInv o m s)
    (hinv : Inv m (next o m s.client (.check w))) (hf : s.client.fault = none)
    (hp : (s.client.workers w).pc = .received) :
    LinkInv o m (linkNext o m s (.client (.check w))) := by
  obtain ⟨c, hr, hc, hid, hn⟩ := h.busy_carried (w := w) (by rw [hp]; rfl)
  have hslot := h.slotOf_handled hm ((h.call c).answered (h.carried w c hc).1)
  rw [← hid] at hslot
  have hcheck := checked_spec (o := o) (m := m) s.client w
  have hnext : linkNext o m s (.client (.check w)) = { s with client := s.client.checked o m w } :=
    rfl
  have hinv' : Inv m (s.client.checked o m w) := hinv
  rw [hnext]
  generalize s.client.checked o m w = t at hcheck hinv'
  -- the worker goes on to `p`, if it does
  have step : ∀ p : WorkerPc, p ≠ .receiving →
      (∀ i, p = .matched i → i = slotOf (s.client.recvId o w)) → (∀ i, p ≠ .waking i) →
      Inv m (s.client.setWorker w { s.client.workers w with pc := p }) →
      LinkInv o m { s with
        client := s.client.setWorker w { s.client.workers w with pc := p } } := by
    intro p hrecv hmatch hwake hinv
    have hz : (s.client.setWorker w { s.client.workers w with pc := p }).workers w =
        { s.client.workers w with pc := p } := Function.update_self w _ s.client.workers
    refine h.workerKeeps (w := w) ⟨fun _ => ⟨rfl, rfl, rfl⟩, fun _ => rfl,
      fun v hv => Function.update_of_ne hv _ _, fun _ _ => rfl, fun _ _ => rfl, rfl, rfl, rfl,
      fun hc => nomatch hf.symm.trans hc⟩ hinv ?_ rfl ?_
    · refine ⟨?_, fun _ => ⟨c, hr, hid, ?_⟩, ?_, (h.worker w).packet⟩
      · show (Function.update s.client.workers w _ w).pc = _ ↔ s.recvs w = _ ∨ _
        rw [Function.update_self, hr]
        exact iff_of_false hrecv nofun
      · exact (congrArg Worker.nbytes hz).symm ▸ hn
      · intro d i hd hi
        rw [show s.recvs w = .handled d from hd] at hr
        rw [RecvWr.handled.inj hr]
        rw [show _ = p from congrArg Worker.pc hz] at hi
        exact (hmatch i (hi.resolve_right (hwake i))).trans hslot
    · intro d hd
      rw [hc, (handled_of_carried hd hr).1]
  cases hcheck with
  | skip => exact step .post nofun nofun nofun hinv'
  | mismatch =>
    refine h.workerKeeps (w := w) ⟨fun _ => ⟨rfl, rfl, rfl⟩, fun _ => rfl, fun _ _ => rfl,
      fun _ _ => rfl, fun _ _ => rfl, rfl, rfl, rfl, nofun⟩ hinv' ?_ rfl fun _ hd => hd
    exact ⟨(h.worker w).receiving, (h.worker w).busy, (h.worker w).slot, (h.worker w).packet⟩
  | matched =>
    exact step _ nofun (fun i hi => (WorkerPc.matched.inj hi).symm) nofun hinv'

/-- The answer is in the caller's buffer. -/
theorem LinkInv.copy_step (h : LinkInv o m s) (hinv : Inv m (next o m s.client (.copy w i)))
    (hf : s.client.fault = none) (hp : (s.client.workers w).pc = .matched i) :
    LinkInv o m (linkNext o m s (.client (.copy w i))) := by
  obtain ⟨c, hr, hc, hid, hn⟩ := h.busy_carried (w := w) (by rw [hp]; rfl)
  obtain ⟨f, hcopy, hcalls⟩ := copied_eq (o := o) s.client w i
  have hnext : linkNext o m s (.client (.copy w i)) = { s with
      client := (Client.setSlot { s.client with calls := f } i
        { s.client.slots i with actualLen := s.client.copyLen o w i }).setWorker w
          { s.client.workers w with pc := .waking i } } := by
    rw [← hcopy]
    rfl
  have hinv' := hnext ▸ (show Inv m (linkNext o m s (.client (.copy w i))).client from hinv)
  rw [hnext]
  have hz : Function.update s.client.workers w { s.client.workers w with pc := .waking i } w =
      { s.client.workers w with pc := .waking i } := Function.update_self w _ s.client.workers
  refine h.workerKeeps (w := w) ⟨fun d => ?_, fun j => ?_, fun v hv => Function.update_of_ne hv _ _,
    fun _ _ => rfl, fun _ _ => rfl, rfl, rfl, rfl, fun hc => nomatch hf.symm.trans hc⟩ hinv' ?_ rfl ?_
  · obtain ⟨b, hb, -⟩ := hcalls d
    show (f d).pc = _ ∧ (f d).slotIdx = _ ∧ (f d).reqId = _
    rw [hb]
    exact ⟨rfl, rfl, rfl⟩
  · show (Function.update s.client.slots i _ j).waiter = _
    rcases eq_or_ne j i with rfl | hne
    · rw [Function.update_self]
    · rw [Function.update_of_ne hne]
  · obtain ⟨b, hb, -⟩ := hcalls c
    refine ⟨?_, fun _ => ⟨c, hr, ?_, ?_⟩, ?_, ?_⟩
    · show (Function.update s.client.workers w _ w).pc = _ ↔ s.recvs w = _ ∨ _
      rw [hz, hr]
      exact iff_of_false nofun nofun
    · show s.client.recvId o w = (f c).reqId
      rw [hb, hid]
    · show _ ≤ (Function.update s.client.workers w _ w).nbytes
      rw [hz]
      exact hn
    · intro d j hd hj
      rw [show s.recvs w = .handled d from hd] at hr
      have hpc := congrArg Worker.pc hz
      have hj' : j = i := by
        rcases hj with hj | hj
        · cases hpc.symm.trans hj
        · exact (WorkerPc.waking.inj (hpc.symm.trans hj)).symm
      show j = (f d).slotIdx
      rw [RecvWr.handled.inj hr, hb, hj']
      exact (h.worker w).slot c i (hd.trans (congrArg _ (RecvWr.handled.inj hr))) (Or.inl hp)
    · intro d bytes hd
      rw [show s.recvs w = .packet d bytes from hd] at hr
      cases hr
  · intro d hd
    rw [hc, (handled_of_carried hd hr).1]

/-- The call is resumed. -/
theorem LinkInv.wake_step (h : LinkInv o m s) {k : Nat}
    (hinv : Inv m (next o m s.client (.wake w i k))) (hf : s.client.fault = none)
    (hp : (s.client.workers w).pc = .waking i) (hk : (s.client.slots i).waiter = some k) :
    LinkInv o m (linkNext o m s (.client (.wake w i k))) := by
  obtain ⟨hc, hw⟩ := h.wakes hp hk
  have hz : Function.update s.client.workers w { s.client.workers w with pc := .post } w =
      { s.client.workers w with pc := .post } := Function.update_self w _ s.client.workers
  -- the worker has put the packet down
  have hput : LinkInv o m { s with
      client := s.client.setWorker w { s.client.workers w with pc := .post } } := by
    obtain ⟨c, hr⟩ : ∃ c, s.recvs w = .handled c :=
      (h.busy_carried (w := w) (by rw [hp]; rfl)).imp fun _ hr => hr.1
    refine h.workerKeeps (w := w) ⟨fun _ => ⟨rfl, rfl, rfl⟩, fun _ => rfl,
      fun v hv => Function.update_of_ne hv _ _, fun _ _ => rfl, fun _ _ => rfl, rfl, rfl, rfl,
      fun hc => nomatch hf.symm.trans hc⟩
      (h.client.congr rfl (fun _ => ⟨rfl, rfl, rfl, rfl⟩) fun _ => ⟨rfl, rfl, rfl⟩) ?_ rfl ?_
    · refine ⟨?_, fun hb => ?_, fun d j _ hj => ?_, fun d bytes hd => ?_⟩
      · show (Function.update s.client.workers w _ w).pc = _ ↔ s.recvs w = _ ∨ _
        rw [hz, hr]
        exact iff_of_false nofun nofun
      · cases (congrArg (fun z : Worker => z.pc.busy) hz).symm.trans hb
      · rcases hj with hj | hj <;> cases (congrArg Worker.pc hz).symm.trans hj
      · rw [show s.recvs w = .packet d bytes from hd] at hr
        cases hr
    · intro d hd
      cases (congrArg (fun z : Worker => z.pc.busy) hz).symm.trans (handled_of_carried hd hr).2
  have hnext : linkNext o m s (.client (.wake w i k)) = { s with
      client := (s.client.setWorker w { s.client.workers w with pc := .post }).setCall k
        { s.client.calls k with pc := .resume, resumed := (s.client.calls k).resumed + 1 } } := by
    show Link.mk ((s.client.resumed k).setWorker w _) _ _ _ _ _ = _
    unfold Client.resumed
    rw [if_pos hw]
    rfl
  have hinv' := hnext ▸ (show Inv m (linkNext o m s (.client (.wake w i k))).client from hinv)
  rw [hnext]
  have hx : Function.update s.client.calls k
      { s.client.calls k with pc := .resume, resumed := (s.client.calls k).resumed + 1 } k =
      { s.client.calls k with pc := .resume, resumed := (s.client.calls k).resumed + 1 } :=
    Function.update_self k _ s.client.calls
  refine hput.resumed (c := k) ⟨fun d hd => Function.update_of_ne hd _ _, fun _ _ => rfl, rfl, rfl,
    rfl, rfl, rfl, rfl, rfl⟩ hinv' hw (congrArg Call.pc hx) rfl rfl (congrArg Call.slotIdx hx :)
    (h.carried w k hc).1 fun v hv => ?_
  -- its answer was in no other hands
  rcases eq_or_ne v w with rfl | hne
  · obtain ⟨c, hr, -⟩ := h.busy_carried (w := v) (by rw [hp]; rfl)
    cases (congrArg (fun z : Worker => z.pc.busy) hz).symm.trans (handled_of_carried hv hr).2
  · refine hne (h.once v w k ?_ hc)
    rw [← hv]
    unfold Link.carried
    rw [show (s.client.setWorker w _).workers v = s.client.workers v from
      Function.update_of_ne hne _ _]

theorem LinkInv.client_step (hm : m < 2 ^ 32) (h : LinkInv o m s) {a : Action}
    (he : LinkEnabled o s (.client a)) : LinkInv o m (linkNext o m s (.client a)) := by
  obtain ⟨⟨hf, he⟩, hpermit⟩ := he
  have hinv : Inv m (next o m s.client a) :=
    inv_step h.client (Machine.guarded_step_eq_some.mpr ⟨⟨hf, he⟩, rfl⟩)
  -- a store into one slot: the others keep theirs
  have hstore : ∀ {i : Nat} {y : RpcSlot},
      ((s.client.slots i).waiter = none → y.waiter = none) → ∀ j,
      (s.client.slots j).waiter = none → (Function.update s.client.slots i y j).waiter = none := by
    intro i y hy j hj
    rcases eq_or_ne j i with rfl | hne
    · rw [Function.update_self]
      exact hy hj
    · rw [Function.update_of_ne hne]
      exact hj
  cases a with
  | call c reqData respBuffer =>
    have hp : (s.client.calls c).pc = .idle := he
    exact h.local_step hinv rfl rfl rfl rfl (by rw [hp]; rfl) rfl (fun _ => by rw [hp]; rfl)
      (fun hn => by rw [hp] at hn; cases hn) fun _ hj => hj
  | dequeue c i =>
    have hp : (s.client.calls c).pc = .dequeue := he.1
    exact h.local_step hinv rfl rfl rfl rfl (by rw [hp]; rfl) rfl (fun _ => by rw [hp]; rfl)
      (fun hn => by rw [hp] at hn; cases hn) fun _ hj => hj
  | fetchAdd c =>
    have hp : (s.client.calls c).pc = .fetchAdd := he
    exact h.local_step hinv rfl rfl rfl rfl (by rw [hp]; rfl) rfl (fun _ => by rw [hp]; rfl)
      (fun hn => by rw [hp] at hn; cases hn) fun _ hj => hj
  | storeWaiter c =>
    have hp : (s.client.calls c).pc = .storeWaiter := he
    exact h.local_step hinv rfl rfl rfl rfl (by rw [hp]; rfl) rfl (fun _ => by rw [hp]; rfl)
      (fun hn => by rw [hp] at hn; cases hn) (hstore fun _ => rfl)
  | storeBuffer c =>
    have hp : (s.client.calls c).pc = .storeBuffer := he
    exact h.local_step hinv rfl rfl rfl rfl (by rw [hp]; rfl) rfl (fun _ => by rw [hp]; rfl)
      (fun hn => by rw [hp] at hn; cases hn) (hstore fun hj => hj)
  | storeId c =>
    have hp : (s.client.calls c).pc = .storeId := he
    exact h.local_step hinv rfl rfl rfl rfl (by rw [hp]; rfl) rfl (fun _ => by rw [hp]; rfl)
      (fun hn => by rw [hp] at hn; cases hn) (hstore fun hj => hj)
  | fill c =>
    have hp : (s.client.calls c).pc = .fill := he
    exact h.local_step hinv rfl rfl rfl rfl (by rw [hp]; rfl) rfl (fun _ => by rw [hp]; rfl)
      (fun hn => by rw [hp] at hn; cases hn) fun _ hj => hj
  | resume c =>
    have hp : (s.client.calls c).pc = .resume := he
    exact h.local_step hinv rfl rfl rfl rfl (by rw [hp]; rfl) rfl nofun (fun _ => ⟨rfl, rfl⟩)
      fun _ hj => hj
  | enqueue c =>
    have hp : (s.client.calls c).pc = .enqueue := he
    exact h.local_step hinv rfl rfl rfl rfl (by rw [hp]; rfl) rfl nofun (fun _ => ⟨rfl, rfl⟩)
      fun _ hj => hj
  | post c ok =>
    have hp : (s.client.calls c).pc = .post := he
    have hsends : ∀ {x : SendWr} d, d ≠ c → Function.update s.sends c x d = s.sends d :=
      fun d hd => Function.update_of_ne hd _ _
    have hcalls : ∀ {x : Call} d, d ≠ c →
        Function.update s.client.calls c x d = s.client.calls d :=
      fun d hd => Function.update_of_ne hd _ _
    cases ok with
    | true =>
      refine h.posted (c := c) ⟨hcalls, hsends, rfl, rfl, rfl, rfl, rfl, rfl, rfl⟩ hinv hp ?_ ?_ rfl
      · exact congrArg Call.pc (Function.update_self c _ s.client.calls)
      · exact Function.update_self c _ s.sends
    | false =>
      have hself : (next o m s.client (.post c false)).calls c =
          { s.client.calls c with pc := .enqueue } := Function.update_self c _ s.client.calls
      have hidle : s.sends c = .idle := ((h.call c).early (by rw [hp]; rfl)).1
      refine h.quiet (c := c) ⟨hcalls, hsends, rfl, rfl, rfl, rfl, rfl, rfl, rfl⟩ hinv
        (by rw [hp]; rfl) ?_ (fun _ => by rw [hp]; rfl) ?_ (fun hn => by rw [hp] at hn; cases hn)
        fun _ hj => hj
      · exact congrArg (fun x : Call => x.pc.quiet) hself
      · exact (Function.update_self c _ s.sends).trans hidle.symm
  | sendDone c ok =>
    have hself : (next o m s.client (.sendDone c ok)).calls c =
        { s.client.calls c with pc := if ok then .suspend else .enqueue } :=
      Function.update_self c _ s.client.calls
    refine h.sent (c := c) ⟨fun d hd => Function.update_of_ne hd _ _,
      fun d hd => Function.update_of_ne hd _ _, rfl, rfl, rfl, rfl, rfl, rfl, rfl⟩ hinv he hpermit
      ?_ ?_ rfl ?_ ?_
    · exact congrArg Call.pc hself
    · exact Function.update_self c _ s.sends
    · exact (congrArg Call.reqId hself :)
    · exact (congrArg Call.slotIdx hself :)
  | suspend c =>
    have hself : (next o m s.client (.suspend c)).calls c =
        { s.client.calls c with pc := .waiting } := Function.update_self c _ s.client.calls
    refine h.suspended (c := c) ⟨fun d hd => Function.update_of_ne hd _ _, fun _ _ => rfl, rfl,
      rfl, rfl, rfl, rfl, rfl, rfl⟩ hinv he ?_ rfl ?_ ?_ ?_
    · exact congrArg Call.pc hself
    · exact fun j hj => Function.update_of_ne hj _ _
    · exact (congrArg Call.reqId hself :)
    · exact (congrArg Call.slotIdx hself :)
  | postRecv w ok => exact h.postRecv_step hinv hf
  | recvDone w packet =>
    cases packet with
    | none => exact h.flushed_step hinv hf hpermit
    | some bytes => exact h.recvDone_step hinv hf hpermit
  | check w => exact h.check_step hm hinv hf he
  | copy w i => exact h.copy_step hinv hf he
  | wake w i k => exact h.wake_step hinv hf he.1 he.2

/-- The peer has the request. -/
theorem LinkInv.deliver_step (h : LinkInv o m s) (hw : s.sends c = .posted) :
    LinkInv o m (linkNext o m s (.deliver c)) := by
  have hp : (s.client.calls c).pc = .sending := (h.call c).sending.mpr (Or.inl hw)
  refine ⟨h.client, fun d => ?_, fun w => ?_, ?_, h.once, h.fault⟩
  · have hd := h.call d
    rcases eq_or_ne d c with rfl | hne
    · have hself : (linkNext o m s (.deliver d)).delivered d = true := by
        show Function.update s.delivered d true d = true
        rw [Function.update_self]
      refine ⟨fun he => ?_, hd.sending, fun _ => hself, fun _ => hself, fun _ _ _ => ?_,
        fun _ => hself⟩
      · cases (congrArg CallPc.early hp).symm.trans he
      · exact Or.inl ⟨hp, by
          rw [show (linkNext o m s (.deliver d)).sends d = .posted from hw]
          exact nofun⟩
    · have hother : (linkNext o m s (.deliver c)).delivered d = s.delivered d :=
        Function.update_of_ne hne _ _
      refine ⟨?_, hd.sending, ?_, ?_, ?_, ?_⟩
      · rw [hother]
        exact hd.early
      · rw [hother]
        exact hd.awaiting
      · rw [hother]
        exact hd.succeeded
      · rw [hother]
        exact hd.pending
      · rw [hother]
        exact hd.answered
  · exact ⟨(h.worker w).receiving, (h.worker w).busy, (h.worker w).slot, (h.worker w).packet⟩
  · intro w d hd
    exact (h.carried w d hd).imp_right fun hl => hl.imp_right fun hi => ⟨hi.error, hi.waiter, hi.holders⟩

/-- The queue pair enters the error state. -/
theorem LinkInv.fail_step (h : LinkInv o m s) : LinkInv o m (linkNext o m s .fail) := by
  refine ⟨h.client, fun d => ?_, fun w => ?_, ?_, h.once, h.fault⟩
  · have hd := h.call d
    exact ⟨hd.early, hd.sending, hd.awaiting, hd.succeeded, fun _ _ he => (nomatch he), hd.answered⟩
  · exact ⟨(h.worker w).receiving, (h.worker w).busy, (h.worker w).slot, (h.worker w).packet⟩
  · intro w d hd
    exact (h.carried w d hd).imp_right fun hl => hl.imp_right fun hi => ⟨rfl, hi.waiter, hi.holders⟩

/-- A receive is flushed. -/
theorem LinkInv.flush_step (h : LinkInv o m s) (hw : s.recvs w = .posted) :
    LinkInv o m (linkNext o m s (.flush w)) := by
  have hr : (linkNext o m s (.flush w)).recvs w = .flushed := Function.update_self w _ s.recvs
  have hp : (s.client.workers w).pc = .receiving := (h.worker w).receiving.mpr (Or.inl hw)
  refine h.workerKeeps (w := w) ⟨fun _ => ⟨rfl, rfl, rfl⟩, fun _ => rfl, fun _ _ => rfl,
    fun _ _ => rfl, fun v hv => Function.update_of_ne hv _ _, rfl, rfl, rfl, h.fault⟩ h.client ?_ rfl
    fun d hd => ?_
  · refine ⟨?_, fun hb => ?_, ?_, ?_⟩
    · rw [hr]
      exact iff_of_true hp (Or.inr rfl)
    · cases (congrArg WorkerPc.busy hp).symm.trans hb
    · rw [hr]
      exact nofun
    · rw [hr]
      exact nofun
  · unfold Link.carried at hd
    rw [hr] at hd
    cases hd

/-- The peer's answer arrives. -/
theorem LinkInv.answer_step (h : LinkInv o m s) {bytes : List UInt8}
    (hdel : s.delivered c = true) (ha : s.answered c = false) (he : s.error = false)
    (hw : s.recvs w = .posted) (hb : Answers o bytes (s.client.calls c).reqId) :
    LinkInv o m (linkNext o m s (.answer c w bytes)) := by
  have hr : (linkNext o m s (.answer c w bytes)).recvs w = .packet c bytes :=
    Function.update_self w _ s.recvs
  have hcarried : (linkNext o m s (.answer c w bytes)).carried w = some c := carried_of_packet hr
  have hp : (s.client.workers w).pc = .receiving := (h.worker w).receiving.mpr (Or.inl hw)
  refine h.workerTurn (w := w) ⟨fun _ => ⟨rfl, rfl, rfl⟩, fun _ => rfl, fun _ _ => rfl,
    fun _ _ => rfl, fun v hv => Function.update_of_ne hv _ _, rfl, rfl, rfl, h.fault⟩ h.client ?_
    (fun d => ?_) fun d hd => ?_
  · refine ⟨?_, fun hb => ?_, ?_, ?_⟩
    · rw [hr]
      exact iff_of_true hp (Or.inr rfl)
    · cases (congrArg WorkerPc.busy hp).symm.trans hb
    · rw [hr]
      exact nofun
    · rw [hr]
      intro d bytes' hd
      obtain ⟨rfl, rfl⟩ := RecvWr.packet.inj hd
      exact hb
  · rw [hcarried, Option.some.injEq]
    show Function.update s.answered c true d = true ↔ _
    rcases eq_or_ne d c with rfl | hne
    · rw [Function.update_self]
      exact iff_of_true rfl (Or.inr rfl)
    · rw [Function.update_of_ne hne]
      exact (or_iff_left hne.symm).symm
  · rw [hcarried, Option.some.injEq] at hd
    subst hd
    refine Or.inr ⟨hdel, (h.call c).pending hdel ha he, fun v hv => ?_⟩
    cases (h.carried v c hv).1.symm.trans ha

/-- **The invariant is kept by every step**, of client, queue pair and peer. -/
theorem linkInv_step (hm : m < 2 ^ 32) {a : LinkAction} (h : LinkInv o m s)
    (ht : (linkMachine o m).step s a = some t) : LinkInv o m t := by
  obtain ⟨he, rfl⟩ := Machine.guarded_step_eq_some.mp ht
  cases a with
  | client a => exact h.client_step hm he
  | deliver c => exact h.deliver_step he.1
  | completeSend c ok =>
    exact h.completed (c := c) ⟨fun _ _ => rfl, fun d hd => Function.update_of_ne hd _ _, rfl, rfl,
      rfl, rfl, rfl, rfl, rfl⟩ rfl he.1 (Function.update_self c _ s.sends) he.2
  | answer c w bytes =>
    obtain ⟨hdel, ha, herr, hw, hb⟩ := he
    exact h.answer_step hdel ha herr hw hb
  | fail => exact h.fail_step
  | flush w => exact h.flush_step he.2

end Invariant

end Rpc
end Rdmapp
