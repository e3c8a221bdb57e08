/-
  File:      Rdmapp/Immediate.lean
  Subject:   IMMEDIATE DATA from `write_with_imm` to the peer's recv.

  `imm_` is put into the work request as it is, and read out of the completion entry as it is. The
  field is four bytes in network order, but neither side converts; so the peer reads the number
  with its own order of bytes (`carried`). Each recv reports the immediate data of its own message
  and of no other; it is the value that was passed exactly if the two hosts have one byte order or
  the value reads the same in both (`imm_delivered_iff`).
-/
import Rdmapp.Delivery
import Rdmapp.Lib.Memory

namespace Rdmapp.Delivery

open Lib

/-! ## 1. What the peer issues -/

/-- The operations that take a receive request at the other side. -/
inductive PeerOp where
  | send
  | writeWithImm (remoteMr : MrView) (imm : UInt32)
  deriving DecidableEq, Repr

def PeerOp.operation : PeerOp → QpOperation
  | .send => .send
  | .writeWithImm remoteMr imm => .writeWithImm remoteMr imm

/-- The value passed, if one was. -/
def PeerOp.imm : PeerOp → Option UInt32
  | .send => none
  | .writeWithImm _ imm => some imm

/-- An operation with its buffer, the memory the buffer lies in, and its `wr_id`. -/
structure Issued where
  op : PeerOp
  buffer : LocalBuffer
  memory : Mem
  wrId : UInt64

/-- What its `suspend` posts. -/
def Issued.workRequest (x : Issued) : WorkRequest :=
  (x.op.operation.awaitable x.buffer).workRequest x.wrId

/-- Four bytes written by a host of order `o`, read by a host of order `o'`. -/
def carried (o o' : ByteOrder) (v : UInt32) : UInt32 :=
  UInt32.ofNat (memVal o' (memBytes o 4 v.toNat))

/-- The bytes of the request's scatter/gather entry. -/
def gather (memory : Mem) (sge : Option IbvSge) : List UInt8 :=
  match sge with
  | some sge => memory.read sge.addr.toNat sge.length.toNat
  | none => []

/-- The message a request makes at the other side: `imm_data` goes with a write with immediate data
    and with no other. -/
def messageOf (o o' : ByteOrder) (memory : Mem) : WorkRequest → Message
  | .send wr => ⟨gather memory wr.sgList,
      if wr.opcode = .rdmaWriteWithImm then some (carried o o' wr.immData) else none⟩
  | .recv _ => ⟨[], none⟩

def Issued.message (o o' : ByteOrder) (x : Issued) : Message :=
  messageOf o o' x.memory x.workRequest

/-- What the recv it fills should return. -/
def Issued.expected (x : Issued) : OpResult :=
  .recv x.buffer.localMrView.length.toUInt32 x.op.imm

/-- Its immediate data, if any, reads the same at the other host. -/
def Issued.SameAtPeer (o o' : ByteOrder) (x : Issued) : Prop :=
  o = o' ∨ ∀ v ∈ x.op.imm, (leBytes 4 v.toNat).reverse = leBytes 4 v.toNat

section Carried

variable {o o' : ByteOrder}

/-- **The four bytes are the same number for both hosts** if these have one order of bytes, or the
    bytes read the same backwards. -/
theorem carried_eq_iff (o o' : ByteOrder) (v : UInt32) :
    carried o o' v = v ↔ o = o' ∨ (leBytes 4 v.toNat).reverse = leBytes 4 v.toNat := by
  have hlt : v.toNat < 256 ^ 4 := v.toNat_lt
  have hval : leVal (leBytes 4 v.toNat) = v.toNat := by
    rw [leVal_leBytes, Nat.mod_eq_of_lt hlt]
  have hback : UInt32.ofNat (leVal (leBytes 4 v.toNat).reverse) = v ↔
      (leBytes 4 v.toNat).reverse = leBytes 4 v.toNat := by
    have hr : (leBytes 4 v.toNat).reverse.length = 4 := by
      rw [List.length_reverse, leBytes_length]
    have hsize : leVal (leBytes 4 v.toNat).reverse < 2 ^ 32 := byteSwap_lt 4 v.toNat
    constructor
    · intro h
      have hn := congrArg UInt32.toNat h
      rw [UInt32.toNat_ofNat_of_lt' hsize] at hn
      rw [← leBytes_leVal_of_length hr, hn]
    · intro h
      rw [h, hval]
      exact UInt32.ofNat_toNat
  rcases eq_or_ne o o' with rfl | hne
  · refine iff_of_true ?_ (Or.inl rfl)
    unfold carried
    rw [memVal_memBytes, Nat.mod_eq_of_lt hlt, UInt32.ofNat_toNat]
  · rw [or_iff_right hne]
    unfold carried
    -- one of the two reads backwards
    cases o <;> cases o'
    · exact absurd rfl hne
    · exact hback
    · exact hback
    · exact absurd rfl hne

/-- The request has the bytes of the buffer, and the immediate data that was passed. -/
theorem message_eq (o o' : ByteOrder) (x : Issued) :
    x.message o o' = ⟨gather x.memory (some (fillLocalSge x.buffer.localMrView)),
      x.op.imm.map (carried o o')⟩ := by
  cases x with
  | mk op buffer memory wrId => cases op <;> rfl

/-- **The recv returns the bytes and the immediate data, as its own host reads it.** -/
theorem result_eq (o o' : ByteOrder) (x : Issued) :
    (x.message o o').result =
      .recv x.buffer.localMrView.length.toUInt32 (x.op.imm.map (carried o o')) := by
  rw [message_eq]
  unfold Message.result gather
  dsimp only
  rw [Mem.read_length]
  exact congrArg (OpResult.recv · _) UInt32.ofNat_toNat

theorem result_eq_expected_iff (x : Issued) :
    (x.message o o').result = x.expected ↔ x.SameAtPeer o o' := by
  rw [result_eq]
  unfold Issued.expected Issued.SameAtPeer
  rw [OpResult.recv.injEq, and_iff_right rfl]
  cases x.op.imm with
  | none => exact iff_of_true rfl (Or.inr fun _ h => by cases h)
  | some v =>
    rw [Option.map_some, Option.some.injEq, carried_eq_iff]
    simp

end Carried

/-! ## 2. The recvs of a queue pair -/

section Immediate

variable {ι Q R κ : Type*} [DecidableEq ι] [DecidableEq Q] [DecidableEq R] [DecidableEq κ]

/-- The recvs that messages on the QP have filled, with their messages, in order. -/
def State.fills (S : Setup ι Q R κ) (s : State ι Q R κ) (q : Q) : List (ι × Message) :=
  (s.dispatched S q).filterMap fun p => p.2.message.map fun m => (p.1, m)

def State.filled (S : Setup ι Q R κ) (s : State ι Q R κ) (q : Q) : List ι :=
  (s.fills S q).map Prod.fst

/-- Every recv dispatched on the QP was filled by a message. -/
def State.NoneFailed (S : Setup ι Q R κ) (s : State ι Q R κ) (q : Q) : Prop :=
  ∀ p ∈ s.dispatched S q, p.2.message ≠ none

variable {strerror : Int → String} {S : Setup ι Q R κ} {s : State ι Q R κ} {q : Q} {i : ι}
  {m : Message} {n : Nat}

omit [DecidableEq ι] [DecidableEq R] [DecidableEq κ] in
theorem mem_fills : (i, m) ∈ s.fills S q ↔ ∃ e, (i, e) ∈ s.dispatched S q ∧ e.message = some m := by
  unfold State.fills
  rw [List.mem_filterMap]
  constructor
  · rintro ⟨⟨j, e⟩, hp, he⟩
    obtain ⟨m', hm, hpair⟩ := Option.map_eq_some_iff.mp he
    cases hpair
    exact ⟨e, hp, hm⟩
  · rintro ⟨e, hp, he⟩
    refine ⟨(i, e), hp, ?_⟩
    dsimp only
    rw [he]
    rfl

omit [DecidableEq ι] [DecidableEq R] [DecidableEq κ] in
theorem fills_messages : (s.fills S q).map Prod.snd = messages (s.dispatched S q) := by
  unfold State.fills messages
  rw [List.map_filterMap]
  congr 1
  funext p
  cases p.2.message <;> rfl

/-- The recvs among some entries that messages filled. -/
theorem fills_sublist {ι Q : Type*} (l : List (ι × Entry Q)) :
    ((l.filterMap fun p => p.2.message.map fun m => (p.1, m)).map Prod.fst).Sublist
      (l.map Prod.fst) ∧
    ((∀ p ∈ l, p.2.message ≠ none) →
      (l.filterMap fun p => p.2.message.map fun m => (p.1, m)).map Prod.fst = l.map Prod.fst) := by
  induction l with
  | nil => exact ⟨List.Sublist.refl _, fun _ => rfl⟩
  | cons p l ih =>
    cases hm : p.2.message with
    | none =>
      simp only [List.filterMap_cons, hm, Option.map_none, List.map_cons]
      exact ⟨ih.1.cons _, fun h => absurd hm (h p List.mem_cons_self)⟩
    | some m =>
      simp only [List.filterMap_cons, hm, Option.map_some, List.map_cons]
      refine ⟨ih.1.cons_cons _, fun h => ?_⟩
      rw [ih.2 fun p hp => h p (List.mem_cons_of_mem _ hp)]

/-- **Each recv reports the immediate data of its own message, and that is the value its operation
    passed exactly if it reads the same at both hosts.** A QP has its own receive queue, and the
    messages that arrived on it are those of the peer's operations `ops`, in their order. Then its
    recvs are filled in the order of their posts (all of them, if none failed); the `n`-th one
    filled is that of the `n`-th operation and returns what that passed exactly if
    `SameAtPeer`; and what a recv of the QP returns comes from the operation that filled it. -/
theorem imm_delivered_iff (strerror : Int → String) (S : Setup ι Q R κ) (s : State ι Q R κ)
    (hs : (machine strerror S).Reach (init strerror S) s) (q : Q) (hq : S.Unshared q)
    (o o' : ByteOrder) (ops : List Issued)
    (hops : s.arrivedOn q <+: ops.map (Issued.message o o')) :
    ((s.filled S q).Sublist (s.posted (S.queueOf q)) ∧
      (s.NoneFailed S q → s.filled S q <+: s.posted (S.queueOf q))) ∧
    (∀ (n : Nat) (i : ι), (s.filled S q)[n]? = some i → ∃ x : Issued, ops[n]? = some x ∧ S.qp i = q ∧
      ((s.disp.loc i).outcome = some (.returned x.expected) ↔ x.SameAtPeer o o')) ∧
    ∀ (i : ι) (r : OpResult), S.qp i = q → (s.disp.loc i).outcome = some (.returned r) →
      ∃ (n : Nat) (x : Issued), (s.filled S q)[n]? = some i ∧ ops[n]? = some x ∧
        r = (x.message o o').result := by
  have hinv := inv_reach hs
  have hown := hinv.ownDelivery hq
  -- the `n`-th recv filled is that of the `n`-th operation
  have hnth : ∀ (n : Nat) (i : ι) (m : Message), (s.fills S q)[n]? = some (i, m) →
      ∃ x : Issued, ops[n]? = some x ∧ x.message o o' = m := by
    intro n i m hn
    have hmsg : (messages (s.dispatched S q))[n]? = some m := by
      rw [← fills_messages, List.getElem?_map, hn]
      rfl
    have harr : (s.arrivedOn q)[n]? = some m := by
      rw [← hown.inOrder]
      unfold messages
      rw [List.filterMap_append]
      obtain ⟨hlt, -⟩ := List.getElem?_eq_some_iff.mp hmsg
      exact (List.getElem?_append_left hlt).trans hmsg
    obtain ⟨hlt, -⟩ := List.getElem?_eq_some_iff.mp harr
    obtain ⟨rest, hrest⟩ := hops
    have hmap : (ops.map (Issued.message o o'))[n]? = some m := by
      rw [← hrest, List.getElem?_append_left hlt]
      exact harr
    rw [List.getElem?_map] at hmap
    exact Option.map_eq_some_iff.mp hmap
  refine ⟨⟨?_, fun hf => ?_⟩, fun n i hi => ?_, fun i r hi hr => ?_⟩
  · refine (fills_sublist (s.dispatched S q)).1.trans ?_
    have hpre := hown.postOrder.sublist
    rw [List.map_append] at hpre
    exact (List.sublist_append_left _ _).trans hpre
  · have hall : s.filled S q = (s.dispatched S q).map Prod.fst := (fills_sublist _).2 hf
    have hpre := hown.postOrder
    rw [List.map_append, ← hall] at hpre
    exact (List.prefix_append _ _).trans hpre
  · unfold State.filled at hi
    rw [List.getElem?_map] at hi
    obtain ⟨⟨j, m⟩, hn, rfl⟩ := Option.map_eq_some_iff.mp hi
    obtain ⟨x, hx, hm⟩ := hnth n j m hn
    obtain ⟨e, he, hem⟩ := mem_fills.mp (List.mem_of_getElem? hn)
    refine ⟨x, hx, hown.ownRecv _ (List.mem_append_left _ he), ?_⟩
    rw [hinv.queueDelivery.delivered q _ m he hem, Option.some.injEq, Asio.Outcome.returned.injEq,
      ← hm]
    exact result_eq_expected_iff x
  · obtain ⟨e, m, he, hem, rfl⟩ := hown.ownMessage i r hi hr
    obtain ⟨n, hn⟩ := List.mem_iff_getElem?.mp (mem_fills.mpr ⟨e, he, hem⟩)
    obtain ⟨x, hx, hm⟩ := hnth n i m hn
    refine ⟨n, x, ?_, hx, by rw [hm]⟩
    unfold State.filled
    rw [List.getElem?_map, hn]
    rfl

end Immediate

/-- A write of one byte with immediate data. -/
def Issued.ofImm (imm : UInt32) : Issued :=
  ⟨.writeWithImm ⟨65536, 1, 9⟩ imm, .view ⟨4096, 1, 7⟩, fun _ => 5, 8⟩

/-- Two hosts of one byte order. -/
theorem imm_delivered_iff_same : ∃ s,
    (machine (fun _ => "") (twoQps false)).Reach (init (fun _ => "") (twoQps false)) s ∧
      (s.disp.loc true).outcome = some (.returned (.recv 1 (some 1))) := by
  have hr : (machine (fun _ => "") (twoQps false)).Reach (init (fun _ => "") (twoQps false)) _ :=
    Machine.reach_of_run [.create true, .post true, .arrive true ⟨[5], some 1⟩, .poll true 1,
      .dispatch true] rfl
  have hops := imm_delivered_iff (fun _ => "") (twoQps false) _ hr true
    (fun p hp => by cases hp; rfl) .little .little [.ofImm 1] ⟨[], rfl⟩
  obtain ⟨x, hx, -, hiff⟩ := hops.2.1 0 true rfl
  cases hx
  exact ⟨_, hr, hiff.mpr (Or.inl rfl)⟩

/-- From a little-endian host to a big-endian one: `1` was passed, `16777216` is reported. -/
theorem imm_swapped : ∃ s,
    (machine (fun _ => "") (twoQps false)).Reach (init (fun _ => "") (twoQps false)) s ∧
      s.arrivedOn true = [(Issued.ofImm 1).message .little .big] ∧
      (Issued.ofImm 1).expected = .recv 1 (some 1) ∧
      (s.disp.loc true).outcome = some (.returned (.recv 1 (some 16777216))) := by
  have hr : (machine (fun _ => "") (twoQps false)).Reach (init (fun _ => "") (twoQps false)) _ :=
    Machine.reach_of_run [.create true, .post true, .arrive true ⟨[5], some 16777216⟩,
      .poll true 1, .dispatch true] rfl
  exact ⟨_, hr, rfl, rfl, rfl⟩

end Rdmapp.Delivery
