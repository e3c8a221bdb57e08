/-
  File:      Rdmapp/Delivery.lean
  Subject:   WHICH RECV GETS WHICH MESSAGE: receive queues, shared and not.

  `post_recv` goes to the QP's own receive queue, or to its SRQ when it has one. A message on a
  QP takes the oldest request of that queue; its entry goes to the recv CQ of the QP the message
  arrived on, and the poller there dispatches by `wr_id` alone.

  `recv_delivery`: every receive queue is served in posting order, each message going to one
  recv. Where no other QP posts to the queue, this is delivery per QP. Where several do, a recv
  awaited on one QP returns the messages of another (`shared_queue_crosses`).
-/
import Rdmapp.Native
import Rdmapp.Asio.Refinement

namespace Rdmapp.Delivery

open Lib

/-! ## 1. Messages and recvs -/

/-- A message of the peer: a send, or a write with immediate data. -/
structure Message where
  payload : List UInt8
  imm : Option UInt32
  deriving DecidableEq, Repr

/-- The value of a recv that the message fills. -/
def Message.result (m : Message) : OpResult := .recv (UInt32.ofNat m.payload.length) m.imm

/-- The completion entry of a recv that the message fills. -/
def Message.wc (m : Message) (wrId : UInt64) : IbvWc where
  wrId := wrId
  status := .success
  wcFlags := if m.imm.isSome then ibvWcWithImm else 0
  byteLen := UInt32.ofNat m.payload.length
  immData := m.imm.getD 0

/-- A completion entry with its `qp_num`, the QP that received; `message` is what filled the
    request, if it is not an error. -/
structure Entry (Q : Type*) where
  receiver : Q
  message : Option Message
  wc : IbvWc

/-- The completion tokens. -/
inductive Token where
  | native
  | asio
  deriving DecidableEq, Repr

/-- What lives at a recv's `wr_id`: the `operation_state`, or the heap callback. -/
structure RecvOp where
  token : Token
  awaitable : Awaitable
  /-- What the awaiting coroutine has observed. -/
  outcome : Option Asio.Outcome
  /-- A poller took a callback for an `operation_state` or the other way round. -/
  misread : Bool

/-- `execute_callback` of the poller's token. -/
def executeCallback (poller : Token) (wc : IbvWc) (op : RecvOp) : RecvOp :=
  let awaitable := op.awaitable.setFromWc wc
  match poller, op.token with
  | .native, .native =>
    { op with awaitable := awaitable
              outcome := match awaitable.awaitResume with
                | .ok r => some (.returned r)
                | .error e => some (.threw e) }
  | .asio, .asio =>
    { op with awaitable := awaitable
              outcome := match Asio.complete awaitable with
                | .ok (none, r) => some (.returned r)
                | .ok (some e, _) => some (.threw e)
                | .error _ => some .terminated }
  | _, _ => { op with misread := true }

/-! ## 2. Receive queues -/

/-- Where a QP's receive requests go. -/
inductive ReceiveQueue (Q R : Type*) where
  | own (q : Q)
  | shared (r : R)
  deriving DecidableEq

/-- Recvs `ι` on QPs `Q` with SRQs `R` and CQs `κ`. -/
structure Setup (ι Q R κ : Type*) where
  buffer : ι → LocalBuffer
  qp : ι → Q
  coroutine : ι → Nat
  address : ι → UInt64
  /-- The QP is alive when the recv is posted. -/
  alive : ι → Bool
  /-- What the verbs post returns. -/
  rc : ι → Int
  srq : Q → Option R
  recvCq : Q → κ
  /-- The token of the CQ's poller. -/
  token : κ → Token
  batchSize : κ → Nat
  /-- The pollers behind one SRQ have one token: each meets requests posted for the others. -/
  sameToken : ∀ p q r, srq p = some r → srq q = some r → token (recvCq p) = token (recvCq q)

namespace Setup

variable {ι Q R κ : Type*}

/-- `post_recv_fn`, as `create` selects it. -/
def postRecvFn (S : Setup ι Q R κ) (q : Q) : PostRecvFn :=
  match S.srq q with
  | some _ => .postRecvSrq
  | none => .postRecvRq

/-- The queue `post_recv_fn` posts to. -/
def queueOf (S : Setup ι Q R κ) (q : Q) : ReceiveQueue Q R :=
  match S.srq q with
  | some r => .shared r
  | none => .own q

/-- What the recv's post meets. -/
def env (S : Setup ι Q R κ) (i : ι) : PostEnv :=
  ⟨if S.alive i then some (S.postRecvFn (S.qp i)) else none, S.rc i⟩

/-- A recv is awaited through the token of its QP's poller. -/
def opToken (S : Setup ι Q R κ) (i : ι) : Token := S.token (S.recvCq (S.qp i))

def awaitable (S : Setup ι Q R κ) (i : ι) : Awaitable := QpOperation.recv.awaitable (S.buffer i)

/-- The recvs as a client of the CQs. -/
def client (strerror : Int → String) (S : Setup ι Q R κ) : Client ι κ UInt64 (Entry Q) RecvOp where
  addr := S.address
  queue _ e := S.recvCq e.receiver
  batchSize := S.batchSize
  key e := e.wc.wrId
  start i := ⟨S.opToken i, S.awaitable i, none, false⟩
  post i op :=
    let r := match op.token with
      | .native => op.awaitable.awaitSuspend strerror (S.env i) (S.coroutine i) (S.address i)
      | .asio => op.awaitable.suspend strerror (S.env i) (S.address i)
    (r.ret, { op with awaitable := r.self })
  deliver e := executeCallback (S.token (S.recvCq e.receiver)) e.wc
  proceed op :=
    match op.token with
    | .native =>
      { op with outcome := match op.awaitable.awaitResume with
                  | .ok r => some (.returned r)
                  | .error e => some (.threw e) }
    | .asio => { op with outcome := some .dropped }

end Setup

/-! ## 3. Arrivals -/

structure State (ι Q R κ : Type*) where
  disp : Client.State ι κ UInt64 (Entry Q) RecvOp
  /-- The outstanding requests of each receive queue, the oldest first. -/
  rq : ReceiveQueue Q R → List ι
  /-- All requests ever posted to a receive queue. -/
  posted : ReceiveQueue Q R → List ι
  /-- The messages that arrived, and the requests consumed. -/
  arrivals : List (Q × Message)
  log : List (ι × Entry Q)

inductive Action (ι Q κ : Type*) where
  | create (i : ι)
  | post (i : ι)
  | leave (i : ι)
  | poll (c : κ) (n : Nat)
  | dispatch (c : κ)
  | free (i : ι)
  /-- A message arrives on a QP; it waits (RNR) until there is a request to consume. -/
  | arrive (q : Q) (m : Message)
  /-- The oldest request of the QP's receive queue completes in error. -/
  | fail (q : Q) (wc : IbvWc)

section Step

variable {ι Q R κ : Type*} [DecidableEq ι] [DecidableEq Q] [DecidableEq R] [DecidableEq κ]

def init (strerror : Int → String) (S : Setup ι Q R κ) : State ι Q R κ where
  disp := (S.client strerror).init
  rq _ := []
  posted _ := []
  arrivals := []
  log := []

variable (strerror : Int → String) (S : Setup ι Q R κ)

/-- The oldest request of the QP's receive queue is consumed. -/
def consume (s : State ι Q R κ) (q : Q) (message : Option Message) (wc : UInt64 → IbvWc) :
    Option (State ι Q R κ) :=
  match s.rq (S.queueOf q) with
  | [] => none
  | i :: rest =>
    let e : Entry Q := ⟨q, message, wc (S.address i)⟩
    ((S.client strerror).step s.disp (.complete i e)).map fun d =>
      { s with disp := d
               rq := Function.update s.rq (S.queueOf q) rest
               log := s.log ++ [(i, e)] }

def step (s : State ι Q R κ) (a : Action ι Q κ) : Option (State ι Q R κ) :=
  match a with
  | .create i => ((S.client strerror).step s.disp (.create i)).map fun d => { s with disp := d }
  | .leave i => ((S.client strerror).step s.disp (.leave i)).map fun d => { s with disp := d }
  | .poll c n => ((S.client strerror).step s.disp (.poll c n)).map fun d => { s with disp := d }
  | .dispatch c => ((S.client strerror).step s.disp (.dispatch c)).map fun d => { s with disp := d }
  | .free i => ((S.client strerror).step s.disp (.free i)).map fun d => { s with disp := d }
  | .post i =>
    ((S.client strerror).step s.disp (.post i)).map fun d =>
      if (S.env i).accepts then
        let k := S.queueOf (S.qp i)
        { s with disp := d
                 rq := Function.update s.rq k (s.rq k ++ [i])
                 posted := Function.update s.posted k (s.posted k ++ [i]) }
      else { s with disp := d }
  | .arrive q m =>
    (consume strerror S s q (some m) m.wc).map fun t =>
      { t with arrivals := t.arrivals ++ [(q, m)] }
  | .fail q wc =>
    if wc.status ≠ .success then consume strerror S s q none fun a => { wc with wrId := a }
    else none

def machine : Machine (State ι Q R κ) (Action ι Q κ) := ⟨step strerror S⟩

end Step

/-! ## 4. The invariant -/

/-- The entry is that of its message, or an error. -/
def Entry.Ok {Q : Type*} (e : Entry Q) (wrId : UInt64) : Prop :=
  match e.message with
  | some m => e.wc = m.wc wrId
  | none => e.wc.status ≠ .success

/-- The message that consumed a request, with the QP it arrived on. -/
def arrival {ι Q : Type*} (p : ι × Entry Q) : Option (Q × Message) :=
  p.2.message.map fun m => (p.2.receiver, m)

section Invariant

variable {ι Q R κ : Type*} [DecidableEq ι] [DecidableEq Q] [DecidableEq R] [DecidableEq κ]

/-- The requests of a receive queue that were consumed, in order, with their entries. -/
def State.consumed (S : Setup ι Q R κ) (s : State ι Q R κ) (k : ReceiveQueue Q R) :
    List (ι × Entry Q) :=
  s.log.filter fun p => S.queueOf p.2.receiver = k

/-- **The invariant**: each receive queue is consumed from its front, each CQ gets the entries of
    its QPs. -/
structure Inv (strerror : Int → String) (S : Setup ι Q R κ) (s : State ι Q R κ) : Prop where
  disp : Client.Inv (S.client strerror) s.disp
  posted_eq : ∀ k, s.posted k = (s.consumed S k).map Prod.fst ++ s.rq k
  posted_mem : ∀ k i, i ∈ s.posted k → S.queueOf (S.qp i) = k ∧ (s.disp.phase i).fresh = false
  nodup : ∀ k, (s.posted k).Nodup
  waiting : ∀ i, s.disp.phase i = .posted ↔ i ∈ s.rq (S.queueOf (S.qp i))
  arrivals_eq : s.arrivals = s.log.filterMap arrival
  generated_eq : ∀ c, s.disp.generated c = s.log.filter fun p => S.recvCq p.2.receiver = c
  entries : ∀ p ∈ s.log, p.2.Ok (S.address p.1)

variable {strerror : Int → String} {S : Setup ι Q R κ} {s t : State ι Q R κ} {a : Action ι Q κ}

omit [DecidableEq ι] in
theorem inv_init (strerror : Int → String) (S : Setup ι Q R κ) : Inv strerror S (init strerror S) where
  disp := Client.inv_init _
  posted_eq _ := rfl
  posted_mem _ _ h := by cases h
  nodup _ := List.nodup_nil
  waiting i := ⟨(fun h => by cases h), fun h => by cases h⟩
  arrivals_eq := rfl
  generated_eq _ := rfl
  entries _ h := by cases h

/-- Steps that neither post nor complete do not touch the receive queues. -/
theorem Inv.of_local (h : Inv strerror S s) {b : Client.Action ι κ (Entry Q)}
    (hb : b.isLocal = true) {d : Client.State ι κ UInt64 (Entry Q) RecvOp}
    (hd : (S.client strerror).step s.disp b = some d) : Inv strerror S { s with disp := d } := by
  obtain ⟨hgen, hph⟩ := h.disp.local_step hd hb
  refine ⟨h.disp.step hd, h.posted_eq, ?_, h.nodup, ?_, h.arrivals_eq, ?_, h.entries⟩
  · intro k i hi
    obtain ⟨hk, hf⟩ := h.posted_mem k i hi
    exact ⟨hk, (hph i).2.trans hf⟩
  · intro i
    exact (hph i).1.trans (h.waiting i)
  · intro c
    dsimp only
    rw [hgen]
    exact h.generated_eq c

omit [DecidableEq ι] [DecidableEq Q] [DecidableEq R] [DecidableEq κ] in
theorem accepts_eq (strerror : Int → String) (S : Setup ι Q R κ) (i : ι) :
    (S.client strerror).accepts i = (S.env i).accepts := by
  unfold Client.accepts
  show (match S.opToken i with
    | .native => Awaitable.awaitSuspend strerror _ _ _ _
    | .asio => Awaitable.suspend strerror _ _ _).ret = _
  cases S.opToken i with
  | native => exact Awaitable.suspend_ret (S.env i) (S.address i) _
  | asio => exact Awaitable.suspend_ret (S.env i) (S.address i) _

/-- An accepted post joins the end of its QP's receive queue. -/
theorem Inv.accept (h : Inv strerror S s) {i : ι} {d : Client.State ι κ UInt64 (Entry Q) RecvOp}
    (ha : (S.env i).accepts = true) (hd : (S.client strerror).step s.disp (.post i) = some d) :
    Inv strerror S
      { s with disp := d
               rq := Function.update s.rq (S.queueOf (S.qp i)) (s.rq (S.queueOf (S.qp i)) ++ [i])
               posted := Function.update s.posted (S.queueOf (S.qp i))
                 (s.posted (S.queueOf (S.qp i)) ++ [i]) } := by
  obtain ⟨hc, hgen, hph⟩ := h.disp.post_step hd
  rw [accepts_eq, ha, if_pos rfl] at hph
  have hnew : ∀ k, i ∉ s.posted k := by
    intro k hi
    have hf := (h.posted_mem k i hi).2
    rw [hc] at hf
    cases hf
  refine ⟨h.disp.step hd, ?_, ?_, ?_, ?_, h.arrivals_eq, ?_, h.entries⟩
  · intro k
    show Function.update s.posted _ _ k = (s.consumed S k).map Prod.fst ++ Function.update s.rq _ _ k
    by_cases hk : k = S.queueOf (S.qp i)
    · rw [hk, Function.update_self, Function.update_self, h.posted_eq, List.append_assoc]
    · rw [Function.update_of_ne hk, Function.update_of_ne hk]
      exact h.posted_eq k
  · intro k j hj
    dsimp only at hj ⊢
    by_cases hji : j = i
    · rw [hji, hph, Function.update_self]
      refine ⟨?_, rfl⟩
      by_contra hk
      rw [hji, Function.update_of_ne (Ne.symm hk)] at hj
      exact hnew k hj
    · rw [hph, Function.update_of_ne hji]
      refine h.posted_mem k j ?_
      by_cases hk : k = S.queueOf (S.qp i)
      · rw [hk, Function.update_self] at hj
        rcases List.mem_append.mp hj with hj | hj
        · exact hk ▸ hj
        · exact absurd (List.mem_singleton.mp hj) hji
      · rw [Function.update_of_ne hk] at hj
        exact hj
  · intro k
    dsimp only
    by_cases hk : k = S.queueOf (S.qp i)
    · rw [hk, Function.update_self, List.nodup_append]
      refine ⟨h.nodup _, List.nodup_singleton i, ?_⟩
      intro x hx y hy hxy
      have hxi : x = i := hxy.trans (List.mem_singleton.mp hy)
      exact hnew (S.queueOf (S.qp i)) (hxi ▸ hx)
    · rw [Function.update_of_ne hk]
      exact h.nodup k
  · intro j
    dsimp only
    by_cases hji : j = i
    · rw [hji, hph, Function.update_self, Function.update_self]
      exact ⟨fun _ => List.mem_append_right _ (List.mem_singleton_self i), fun _ => rfl⟩
    · rw [hph, Function.update_of_ne hji, h.waiting]
      by_cases hk : S.queueOf (S.qp j) = S.queueOf (S.qp i)
      · rw [hk, Function.update_self, List.mem_append, List.mem_singleton]
        exact ⟨Or.inl, fun hj => hj.resolve_right hji⟩
      · rw [Function.update_of_ne hk]
  · intro c
    dsimp only
    rw [hgen]
    exact h.generated_eq c

/-- A refused post joins nothing. -/
theorem Inv.refuse (h : Inv strerror S s) {i : ι} {d : Client.State ι κ UInt64 (Entry Q) RecvOp}
    (ha : (S.env i).accepts = false) (hd : (S.client strerror).step s.disp (.post i) = some d) :
    Inv strerror S { s with disp := d } := by
  obtain ⟨hc, hgen, hph⟩ := h.disp.post_step hd
  rw [accepts_eq, ha, if_neg (by decide)] at hph
  refine ⟨h.disp.step hd, h.posted_eq, ?_, h.nodup, ?_, h.arrivals_eq, ?_, h.entries⟩
  · intro k j hj
    obtain ⟨hk, hf⟩ := h.posted_mem k j hj
    have hji : j ≠ i := fun he => by rw [he, hc] at hf; cases hf
    refine ⟨hk, ?_⟩
    dsimp only
    rw [hph, Function.update_of_ne hji]
    exact hf
  · intro j
    dsimp only
    rw [hph, ← h.waiting]
    by_cases hji : j = i
    · rw [hji, Function.update_self, hc]
      exact ⟨(fun he => by cases he), fun he => by cases he⟩
    · rw [Function.update_of_ne hji]
  · intro c
    dsimp only
    rw [hgen]
    exact h.generated_eq c

/-- The front request of a receive queue is consumed. -/
theorem Inv.consume (h : Inv strerror S s) {i : ι} {rest : List ι} {e : Entry Q}
    (hok : e.Ok (S.address i)) (hrq : s.rq (S.queueOf e.receiver) = i :: rest)
    {d : Client.State ι κ UInt64 (Entry Q) RecvOp}
    (hd : (S.client strerror).step s.disp (.complete i e) = some d) :
    Inv strerror S
      { disp := d
        rq := Function.update s.rq (S.queueOf e.receiver) rest
        posted := s.posted
        arrivals := s.arrivals ++ (arrival (i, e)).toList
        log := s.log ++ [(i, e)] } := by
  obtain ⟨hp, hk, hph, hgen⟩ := Client.complete_step hd
  have hposted := h.posted_eq (S.queueOf e.receiver)
  rw [hrq] at hposted
  have hi : i ∈ s.posted (S.queueOf e.receiver) := by
    rw [hposted]
    exact List.mem_append_right _ List.mem_cons_self
  have hqp : S.queueOf (S.qp i) = S.queueOf e.receiver := (h.posted_mem _ i hi).1
  have hrest : i ∉ rest := by
    have hn := h.nodup (S.queueOf e.receiver)
    rw [hposted] at hn
    exact (List.nodup_cons.mp (List.nodup_append.mp hn).2.1).1
  refine ⟨h.disp.step hd, ?_, ?_, h.nodup, ?_, ?_, ?_, ?_⟩
  · intro k
    show s.posted k = (((s.log ++ [(i, e)]).filter fun p => S.queueOf p.2.receiver = k).map Prod.fst) ++
      Function.update s.rq _ rest k
    rw [List.filter_append, List.map_append]
    by_cases hke : S.queueOf e.receiver = k
    · rw [← hke, Function.update_self, hposted, List.append_assoc]
      simp [State.consumed]
    · rw [Function.update_of_ne (Ne.symm hke), h.posted_eq]
      simp [State.consumed, hke]
  · intro k j hj
    obtain ⟨hk', hf⟩ := h.posted_mem k j hj
    refine ⟨hk', ?_⟩
    dsimp only
    by_cases hji : j = i
    · rw [hji, hph, Function.update_self]
      rfl
    · rw [hph, Function.update_of_ne hji]
      exact hf
  · intro j
    dsimp only
    by_cases hji : j = i
    · rw [hji, hph, Function.update_self, hqp, Function.update_self]
      exact ⟨(fun he => by cases he), fun he => absurd he hrest⟩
    · rw [hph, Function.update_of_ne hji, h.waiting]
      by_cases hke : S.queueOf (S.qp j) = S.queueOf e.receiver
      · rw [hke, Function.update_self, hrq, List.mem_cons]
        exact ⟨fun hj => hj.resolve_left hji, Or.inr⟩
      · rw [Function.update_of_ne hke]
  · dsimp only
    rw [List.filterMap_append, h.arrivals_eq]
    rfl
  · intro c
    dsimp only
    rw [hgen, h.generated_eq, List.filter_append]
    congr 1
    show (if c = S.recvCq e.receiver then [(i, e)] else []) = _
    by_cases hc : S.recvCq e.receiver = c
    · rw [if_pos hc.symm]
      simp [hc]
    · rw [if_neg (Ne.symm hc)]
      simp [hc]
  · intro p hp'
    rcases List.mem_append.mp hp' with hp' | hp'
    · exact h.entries p hp'
    · rw [List.mem_singleton.mp hp']
      exact hok

/-- What `consume` does. -/
theorem consume_eq_some {q : Q} {message : Option Message} {wc : UInt64 → IbvWc}
    (ht : consume strerror S s q message wc = some t) :
    ∃ i rest d, s.rq (S.queueOf q) = i :: rest ∧
      (S.client strerror).step s.disp (.complete i ⟨q, message, wc (S.address i)⟩) = some d ∧
      t = { s with disp := d
                   rq := Function.update s.rq (S.queueOf q) rest
                   log := s.log ++ [(i, ⟨q, message, wc (S.address i)⟩)] } := by
  unfold Delivery.consume at ht
  split at ht
  · cases ht
  · rename_i i rest hrq
    obtain ⟨d, hd, rfl⟩ := Option.map_eq_some_iff.mp ht
    exact ⟨i, rest, d, hrq, hd, rfl⟩

/-- **Every step keeps the invariant.** -/
theorem Inv.step (h : Inv strerror S s) (hs : step strerror S s a = some t) : Inv strerror S t := by
  cases a with
  | create i =>
    obtain ⟨d, hd, rfl⟩ := Option.map_eq_some_iff.mp hs
    exact h.of_local rfl hd
  | leave i =>
    obtain ⟨d, hd, rfl⟩ := Option.map_eq_some_iff.mp hs
    exact h.of_local rfl hd
  | poll c n =>
    obtain ⟨d, hd, rfl⟩ := Option.map_eq_some_iff.mp hs
    exact h.of_local rfl hd
  | dispatch c =>
    obtain ⟨d, hd, rfl⟩ := Option.map_eq_some_iff.mp hs
    exact h.of_local rfl hd
  | free i =>
    obtain ⟨d, hd, rfl⟩ := Option.map_eq_some_iff.mp hs
    exact h.of_local rfl hd
  | post i =>
    obtain ⟨d, hd, rfl⟩ := Option.map_eq_some_iff.mp hs
    cases ha : (S.env i).accepts with
    | true => exact h.accept ha hd
    | false => exact h.refuse ha hd
  | arrive q m =>
    obtain ⟨u, hu, rfl⟩ := Option.map_eq_some_iff.mp hs
    obtain ⟨i, rest, d, hrq, hd, rfl⟩ := consume_eq_some hu
    exact h.consume (e := ⟨q, some m, m.wc (S.address i)⟩) rfl hrq hd
  | fail q wc =>
    simp only [Delivery.step] at hs
    split at hs
    · rename_i hw
      obtain ⟨i, rest, d, hrq, hd, rfl⟩ := consume_eq_some hs
      have hi := h.consume (e := ⟨q, none, { wc with wrId := S.address i }⟩) hw hrq hd
      rw [show (arrival (i, (⟨q, none, { wc with wrId := S.address i }⟩ : Entry Q))).toList = [] from rfl,
        List.append_nil] at hi
      exact hi
    · cases hs

theorem inv_reach (h : (machine strerror S).Reach (init strerror S) s) : Inv strerror S s :=
  h.invariant (inv_init strerror S) fun _ _ _ hi _ hs => hi.step hs

omit [DecidableEq ι] in
/-- A consumed request was posted to the receive queue of the QP that received. -/
theorem Inv.queueOf_log (h : Inv strerror S s) {p : ι × Entry Q} (hp : p ∈ s.log) :
    S.queueOf (S.qp p.1) = S.queueOf p.2.receiver := by
  refine (h.posted_mem _ p.1 ?_).1
  rw [h.posted_eq]
  refine List.mem_append_left _ (List.mem_map_of_mem (List.mem_filter.mpr ⟨hp, ?_⟩))
  exact decide_eq_true rfl

omit [DecidableEq ι] in
/-- A dispatched entry is one of a consumed request, of the CQ's QP. -/
theorem Inv.log_of_seen (h : Inv strerror S s) {c : κ} {p : ι × Entry Q} (hp : p ∈ s.disp.seen c) :
    p ∈ s.log ∧ S.recvCq p.2.receiver = c := by
  have hg : p ∈ s.disp.generated c := by
    rw [h.disp.generated_eq]
    exact List.mem_append_left _ hp
  rw [h.generated_eq] at hg
  obtain ⟨hl, hc⟩ := List.mem_filter.mp hg
  exact ⟨hl, of_decide_eq_true hc⟩

end Invariant

/-! ## 5. What a recv returns -/

section Returned

variable {ι Q R κ : Type*} {strerror : Int → String} {S : Setup ι Q R κ}

/-- Two QPs on one receive queue are polled with one token. -/
theorem token_of_queueOf {p q : Q} (h : S.queueOf p = S.queueOf q) :
    S.token (S.recvCq p) = S.token (S.recvCq q) := by
  unfold Setup.queueOf at h
  cases hp : S.srq p with
  | none =>
    cases hq : S.srq q with
    | none =>
      rw [hp, hq] at h
      cases h
      rfl
    | some r =>
      rw [hp, hq] at h
      cases h
  | some r =>
    cases hq : S.srq q with
    | none =>
      rw [hp, hq] at h
      cases h
    | some r' =>
      rw [hp, hq] at h
      cases h
      exact S.sameToken p q r hp hq

variable (strerror) in
/-- What an accepted post leaves at the recv's address. -/
theorem afterPost_of_accepts {i : ι} (ha : (S.env i).accepts = true) :
    ∃ a, (S.client strerror).afterPost i = ⟨S.opToken i, a, none, false⟩ ∧
      a.unhandledException = none ∧
      ∀ wc, (a.setFromWc wc).resume = ((S.awaitable i).presetByteLen.setFromWc wc).resume := by
  have he : (S.awaitable i).unhandledException = none :=
    QpOperation.unhandledException_awaitable .recv (S.buffer i)
  cases ht : S.opToken i with
  | native =>
    refine ⟨((S.awaitable i).setCoroHandle (S.coroutine i)).presetByteLen, ?_, ?_, ?_⟩
    · unfold Client.afterPost
      simp only [Setup.client, ht, Awaitable.awaitSuspend, Awaitable.suspend_of_accepts ha]
    · rw [Awaitable.unhandledException_presetByteLen, Awaitable.unhandledException_setCoroHandle, he]
    · intro wc
      exact Awaitable.resume_setFromWc_setCoroHandle wc _ _
  | asio =>
    refine ⟨(S.awaitable i).presetByteLen, ?_, ?_, fun wc => rfl⟩
    · unfold Client.afterPost
      simp only [Setup.client, ht, Awaitable.suspend_of_accepts ha]
    · rw [Awaitable.unhandledException_presetByteLen, he]

/-- A recv whose entry is a message's returns the message's length and immediate data. -/
theorem resume_wc (buf : LocalBuffer) (m : Message) (wrId : UInt64) :
    ((QpOperation.recv.awaitable buf).presetByteLen.setFromWc (m.wc wrId)).resume =
      .ok m.result := by
  have hs : (m.wc wrId).status = .success := rfl
  have hr := Awaitable.resume_setFromWc_recv hs (recvAwaitable buf)
  refine hr.trans (congrArg Except.ok ?_)
  cases m with
  | mk payload imm =>
    cases imm with
    | none =>
      show OpResult.recv _ (if (0 : UInt32) &&& ibvWcWithImm ≠ 0 then _ else none) = _
      rw [if_neg (by decide)]
      rfl
    | some v =>
      show OpResult.recv _ (if ibvWcWithImm &&& ibvWcWithImm ≠ 0 then some v else none) = _
      rw [if_pos (by decide)]
      rfl

/-- What the coroutine observes of an entry: the value of its message, or an error. -/
theorem outcome_executeCallback {i : ι} {e : Entry Q} (ha : (S.env i).accepts = true)
    (hok : e.Ok (S.address i)) (hq : S.queueOf (S.qp i) = S.queueOf e.receiver) :
    ((S.client strerror).deliver e ((S.client strerror).afterPost i)).misread = false ∧
      (∀ m, e.message = some m →
        ((S.client strerror).deliver e ((S.client strerror).afterPost i)).outcome =
          some (.returned m.result)) ∧
      (e.message = none → ∀ r,
        ((S.client strerror).deliver e ((S.client strerror).afterPost i)).outcome ≠
          some (.returned r)) := by
  obtain ⟨a, hpost, hexc, hres⟩ := afterPost_of_accepts strerror ha
  have htok : S.token (S.recvCq e.receiver) = S.opToken i := (token_of_queueOf hq).symm
  have hexc' : (a.setFromWc e.wc).unhandledException = none := by
    rw [Awaitable.unhandledException_setFromWc, hexc]
  have hdel : (S.client strerror).deliver e ((S.client strerror).afterPost i) =
      executeCallback (S.opToken i) e.wc ⟨S.opToken i, a, none, false⟩ := by
    rw [hpost, ← htok]
    rfl
  rw [hdel]
  unfold Entry.Ok at hok
  cases hm : e.message with
  | some m =>
    rw [hm] at hok
    have hr : (a.setFromWc e.wc).resume = .ok m.result := by
      rw [hres, hok]
      exact resume_wc (S.buffer i) m (S.address i)
    cases S.opToken i with
    | native =>
      refine ⟨rfl, ?_, fun h => by cases h⟩
      intro m' hm'
      cases hm'
      simp only [executeCallback, Awaitable.awaitResume, hexc', hr]
    | asio =>
      refine ⟨rfl, ?_, fun h => by cases h⟩
      intro m' hm'
      cases hm'
      simp only [executeCallback, Asio.complete_of_ok hr, hexc']
  | none =>
    rw [hm] at hok
    obtain ⟨x, hx⟩ := Awaitable.resume_setFromWc_of_error hok (S.awaitable i).presetByteLen
    have hr : (a.setFromWc e.wc).resume = .error x := (hres e.wc).trans hx
    cases S.opToken i with
    | native =>
      refine ⟨rfl, (fun m' hm' => by cases hm'), ?_⟩
      intro _ r h
      simp only [executeCallback, Awaitable.awaitResume, hexc', hr] at h
      cases h
    | asio =>
      refine ⟨rfl, (fun m' hm' => by cases hm'), ?_⟩
      intro _ r h
      simp only [executeCallback, Asio.complete_of_error hr] at h
      cases h

variable (strerror) in
/-- A refused recv observes an exception, or is dropped. -/
theorem outcome_proceed {i : ι} (ha : (S.env i).accepts = false) :
    ((S.client strerror).afterPost i).outcome = none ∧
      ((S.client strerror).afterPost i).misread = false ∧
      ((S.client strerror).proceed ((S.client strerror).afterPost i)).misread = false ∧
      ∀ r, ((S.client strerror).proceed ((S.client strerror).afterPost i)).outcome ≠
        some (.returned r) := by
  cases ht : S.opToken i with
  | native =>
    obtain ⟨text, hs⟩ := Awaitable.suspend_of_refuses strerror ha (S.address i)
      ((S.awaitable i).setCoroHandle (S.coroutine i))
    have hpost : (S.client strerror).afterPost i = ⟨.native,
        (((S.awaitable i).setCoroHandle (S.coroutine i)).presetByteLen).setException
          (.runtimeError text), none, false⟩ := by
      unfold Client.afterPost
      simp only [Setup.client, ht, Awaitable.awaitSuspend, hs]
    rw [hpost]
    refine ⟨rfl, rfl, rfl, ?_⟩
    intro r h
    simp only [Setup.client, Awaitable.awaitResume,
      Awaitable.unhandledException_setException] at h
    cases h
  | asio =>
    obtain ⟨text, hs⟩ := Awaitable.suspend_of_refuses strerror ha (S.address i) (S.awaitable i)
    have hpost : (S.client strerror).afterPost i = ⟨.asio,
        ((S.awaitable i).presetByteLen).setException (.runtimeError text), none, false⟩ := by
      unfold Client.afterPost
      simp only [Setup.client, ht, hs]
    rw [hpost]
    refine ⟨rfl, rfl, rfl, ?_⟩
    intro r h
    simp only [Setup.client] at h
    cases h

end Returned

/-! ## 6. Delivery -/

section Delivery

variable {ι Q R κ : Type*} [DecidableEq ι] [DecidableEq Q] [DecidableEq R] [DecidableEq κ]

/-- The messages that arrived on a QP. -/
def State.arrivedOn (s : State ι Q R κ) (q : Q) : List Message :=
  (s.arrivals.filter fun x => x.1 = q).map Prod.snd

/-- The entries of a QP the poller has dispatched, and those still on their way. -/
def State.dispatched (S : Setup ι Q R κ) (s : State ι Q R κ) (q : Q) : List (ι × Entry Q) :=
  (s.disp.seen (S.recvCq q)).filter fun p => p.2.receiver = q

def State.underway (S : Setup ι Q R κ) (s : State ι Q R κ) (q : Q) : List (ι × Entry Q) :=
  (s.disp.pending (S.recvCq q)).filter fun p => p.2.receiver = q

/-- The messages of some entries. -/
def messages (l : List (ι × Entry Q)) : List Message := l.filterMap fun p => p.2.message

/-- No other QP posts to the QP's receive queue. -/
def Setup.Unshared (S : Setup ι Q R κ) (q : Q) : Prop := ∀ p, S.queueOf p = S.queueOf q → p = q

/-- What holds of every receive queue, shared or not. -/
structure QueueDelivery (S : Setup ι Q R κ) (s : State ι Q R κ) : Prop where
  /-- Requests are consumed in posting order, each at most once. -/
  postOrder : ∀ k, (s.consumed S k).map Prod.fst <+: s.posted k
  once : ∀ k, ((s.consumed S k).map Prod.fst).Nodup
  /-- The messages that arrived on the QPs of the queue have each consumed one request, in
      arrival order. -/
  arrivalOrder : ∀ k, (s.consumed S k).filterMap arrival =
    s.arrivals.filter fun x => S.queueOf x.1 = k
  /-- A recv that returned a value was filled by one of these messages. -/
  returned : ∀ i r, (s.disp.loc i).outcome = some (.returned r) →
    ∃ e m, (i, e) ∈ s.consumed S (S.queueOf (S.qp i)) ∧ (i, e) ∈ s.dispatched S e.receiver ∧
      e.message = some m ∧ r = m.result
  /-- A message whose entry is dispatched is returned by the recv it filled. -/
  delivered : ∀ q p m, p ∈ s.dispatched S q → p.2.message = some m →
    (s.disp.loc p.1).outcome = some (.returned m.result)
  /-- No poller takes one token's `wr_id` for the other's. -/
  wellRead : s.disp.stray = false ∧ ∀ i, (s.disp.loc i).misread = false

/-- What holds of a QP besides, when no other QP posts to its receive queue. -/
structure OwnDelivery (S : Setup ι Q R κ) (s : State ι Q R κ) (q : Q) : Prop where
  /-- A recv awaited on the QP returns a message that arrived on the QP. -/
  ownMessage : ∀ i r, S.qp i = q → (s.disp.loc i).outcome = some (.returned r) →
    ∃ e m, (i, e) ∈ s.dispatched S q ∧ e.message = some m ∧ r = m.result
  /-- The messages that arrived on the QP fill recvs awaited on it. -/
  ownRecv : ∀ p ∈ s.dispatched S q ++ s.underway S q, S.qp p.1 = q
  /-- The entries dispatched and underway are the QP's messages in arrival order, and their
      recvs those awaited on the QP in posting order. -/
  inOrder : messages (s.dispatched S q ++ s.underway S q) = s.arrivedOn q
  postOrder : (s.dispatched S q ++ s.underway S q).map Prod.fst <+: s.posted (S.queueOf q)

omit [DecidableEq ι] [DecidableEq Q] in
theorem filterMap_arrival_filter (P : Q → Bool) (l : List (ι × Entry Q)) :
    (l.filter fun p => P p.2.receiver).filterMap arrival =
      (l.filterMap arrival).filter fun x => P x.1 := by
  induction l with
  | nil => rfl
  | cons p l ih =>
    cases hm : p.2.message with
    | none =>
      have ha : arrival p = none := by
        unfold arrival
        rw [hm]
        rfl
      cases hP : P p.2.receiver with
      | true => simp [hP, ha, ih]
      | false => simp [hP, ha, ih]
    | some m =>
      have ha : arrival p = some (p.2.receiver, m) := by
        unfold arrival
        rw [hm]
        rfl
      cases hP : P p.2.receiver with
      | true => simp [hP, ha, ih]
      | false => simp [hP, ha, ih]

omit [DecidableEq ι] [DecidableEq Q] in
theorem messages_eq_map_arrival (l : List (ι × Entry Q)) :
    messages l = (l.filterMap arrival).map Prod.snd := by
  unfold messages
  rw [List.map_filterMap]
  congr 1
  funext p
  unfold arrival
  cases p.2.message <;> rfl

variable {strerror : Int → String} {S : Setup ι Q R κ} {s : State ι Q R κ}

omit [DecidableEq ι] in
/-- The entries of a QP are those of the requests its messages consumed. -/
theorem Inv.entriesOf (h : Inv strerror S s) (q : Q) :
    s.dispatched S q ++ s.underway S q = s.log.filter fun p => p.2.receiver = q := by
  unfold State.dispatched State.underway
  rw [← List.filter_append, ← h.disp.generated_eq, h.generated_eq, List.filter_filter]
  refine List.filter_congr fun p _ => ?_
  by_cases hp : p.2.receiver = q
  · simp [hp]
  · simp [hp]

omit [DecidableEq ι] in
/-- What a dispatched entry has done to its recv. -/
theorem Inv.of_seen (h : Inv strerror S s) {i : ι} {e : Entry Q} (ha : (S.env i).accepts = true)
    (hs : (i, e) ∈ s.disp.seen (S.recvCq e.receiver))
    (hl : s.disp.loc i = (S.client strerror).deliver e ((S.client strerror).afterPost i)) :
    (s.disp.loc i).misread = false ∧
      (∀ m, e.message = some m → (s.disp.loc i).outcome = some (.returned m.result)) ∧
      (e.message = none → ∀ r, (s.disp.loc i).outcome ≠ some (.returned r)) := by
  obtain ⟨hlog, -⟩ := h.log_of_seen hs
  rw [hl]
  exact outcome_executeCallback ha (h.entries _ hlog) (h.queueOf_log hlog)

omit [DecidableEq ι] in
/-- What the coroutine of a recv has observed, by what was delivered to it. -/
theorem Inv.outcome_cases (h : Inv strerror S s) (i : ι) :
    (s.disp.loc i).misread = false ∧
    ((∀ r, (s.disp.loc i).outcome ≠ some (.returned r)) ∨
      ∃ e m, (i, e) ∈ s.disp.seen (S.recvCq e.receiver) ∧ e.message = some m ∧
        (s.disp.loc i).outcome = some (.returned m.result)) := by
  have hop := h.disp.ops i
  cases hop with
  | fresh _ hl _ =>
    rw [hl]
    exact ⟨rfl, Or.inl fun r h => by cases h⟩
  | waiting _ ha hl _ =>
    rw [accepts_eq] at ha
    obtain ⟨a, hpost, -⟩ := afterPost_of_accepts strerror ha
    rw [hl, hpost]
    exact ⟨rfl, Or.inl fun r h => by cases h⟩
  | refused _ ha hl _ =>
    rw [accepts_eq] at ha
    obtain ⟨ho, hmis, -⟩ := outcome_proceed strerror ha
    rw [hl]
    exact ⟨hmis, Or.inl fun r h => by rw [ho] at h; cases h⟩
  | delivered _ ha e hs hl _ =>
    rw [accepts_eq] at ha
    obtain ⟨hmis, hret, herr⟩ := h.of_seen ha hs hl
    refine ⟨hmis, ?_⟩
    cases hm : e.message with
    | none => exact Or.inl (herr hm)
    | some m => exact Or.inr ⟨e, m, hs, hm, hret m hm⟩
  | dismissed _ ha hl _ =>
    rw [accepts_eq] at ha
    obtain ⟨-, -, hmis, hret⟩ := outcome_proceed strerror ha
    rw [hl]
    exact ⟨hmis, Or.inl hret⟩

omit [DecidableEq ι] in
/-- A delivered message is returned. -/
theorem Inv.returned_of_seen (h : Inv strerror S s) {c : κ} {i : ι} {e : Entry Q}
    (hp : (i, e) ∈ s.disp.seen c) {m : Message} (hm : e.message = some m) :
    (s.disp.loc i).outcome = some (.returned m.result) := by
  obtain ⟨-, hd, hg⟩ := h.disp.seenDone c _ hp
  have hop := h.disp.ops i
  cases hop with
  | delivered _ ha e' hs hl hg' =>
    rw [accepts_eq] at ha
    obtain rfl : e' = e := List.singleton_inj.mp (hg'.symm.trans hg)
    exact (h.of_seen ha hs hl).2.1 m hm
  | fresh _ _ hg' => simp_all
  | waiting _ _ _ hg' => simp_all
  | refused _ _ _ hg' => simp_all
  | dismissed _ _ _ hg' => simp_all

omit [DecidableEq ι] in
theorem Inv.queueDelivery (h : Inv strerror S s) : QueueDelivery S s where
  postOrder k := ⟨s.rq k, (h.posted_eq k).symm⟩
  once k := by
    have hn := h.nodup k
    rw [h.posted_eq] at hn
    exact (List.nodup_append.mp hn).1
  arrivalOrder k := by
    rw [h.arrivals_eq]
    exact filterMap_arrival_filter (fun q => S.queueOf q = k) s.log
  returned i r hr := by
    rcases (h.outcome_cases i).2 with hn | ⟨e, m, hs, hm, ho⟩
    · exact absurd hr (hn r)
    · obtain ⟨hlog, -⟩ := h.log_of_seen hs
      refine ⟨e, m, List.mem_filter.mpr ⟨hlog, ?_⟩, List.mem_filter.mpr ⟨hs, ?_⟩, hm, ?_⟩
      · exact decide_eq_true (h.queueOf_log hlog).symm
      · exact decide_eq_true rfl
      · rw [hr] at ho
        cases ho
        rfl
  delivered q p m hp hm := h.returned_of_seen (List.mem_filter.mp hp).1 hm
  wellRead := ⟨h.disp.stray_eq, fun i => (h.outcome_cases i).1⟩

omit [DecidableEq ι] in
theorem Inv.ownDelivery (h : Inv strerror S s) {q : Q} (hq : S.Unshared q) : OwnDelivery S s q where
  ownMessage i r hi hr := by
    obtain ⟨e, m, hc, hd, hm, he⟩ := h.queueDelivery.returned i r hr
    have hrec : e.receiver = q := by
      have hk := of_decide_eq_true (List.mem_filter.mp hc).2
      exact hq _ (hi ▸ hk)
    exact ⟨e, m, hrec ▸ hd, hm, he⟩
  ownRecv p hp := by
    rw [h.entriesOf] at hp
    obtain ⟨hlog, hr⟩ := List.mem_filter.mp hp
    have hk := h.queueOf_log hlog
    rw [of_decide_eq_true hr] at hk
    exact hq _ hk
  inOrder := by
    rw [h.entriesOf, messages_eq_map_arrival]
    unfold State.arrivedOn
    rw [h.arrivals_eq]
    exact congrArg _ (filterMap_arrival_filter (fun p => p = q) s.log)
  postOrder := by
    have hc : (s.log.filter fun p => p.2.receiver = q) = s.consumed S (S.queueOf q) := by
      refine List.filter_congr fun p _ => ?_
      by_cases hp : p.2.receiver = q
      · simp [hp]
      · have hk : S.queueOf p.2.receiver ≠ S.queueOf q := fun he => hp (hq _ he)
        simp [hp, hk]
    rw [h.entriesOf, hc]
    exact h.queueDelivery.postOrder _

/-- Two QPs, each with its own receive queue or both on one SRQ; one recv awaited on each. -/
def twoQps (shared : Bool) : Setup Bool Bool Unit Bool where
  buffer _ := .view ⟨4096, 64, 7⟩
  qp i := i
  coroutine i := if i then 1 else 0
  address i := if i then 8192 else 4096
  alive _ := true
  rc _ := 0
  srq _ := if shared then some () else none
  recvCq q := q
  token _ := .native
  batchSize _ := 16
  sameToken _ _ _ _ _ := rfl

end Delivery

end Rdmapp.Delivery
