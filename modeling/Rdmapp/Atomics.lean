/-
  File:      Rdmapp/Atomics.lean
  Subject:   ATOMICS ON REMOTE CELLS: `fetch_and_add` and `compare_and_swap` of many processes.

  Any number of processes, each with its own queue pairs, CQs and native pollers, post atomics on
  64-bit cells of their peers. The device of the peer executes an admitted request at some time after
  the post; the value it found lands in the caller's buffer before an entry with status success is
  generated. An entry with an error says nothing: its request may have been executed, or be executed
  later. Nothing but atomics writes the cells.

  `atomics_linearizable`: one order explains what all the callers see. `tickets`: so a cell that is
  only added to hands out the sums of its addends.
-/
import Mathlib.Data.List.Induction
import Rdmapp.Lib.ByteOrder
import Rdmapp.Lib.Linearization
import Rdmapp.Lib.Memory
import Rdmapp.Transfer
import Rdmapp.Native

namespace Rdmapp

open Lib Native

/-! ## 1. Requests and cells -/

/-- 64-bit words by their address: the memory of a peer as atomics see it. -/
abbrev Cells : Type := UInt64 → UInt64

/-- What a device does for an atomic request: the cells after it, and the value it sends back. -/
def executeAtomic (wr : IbvSendWr) (cells : Cells) : Option (Cells × UInt64) :=
  match wr.opcode, wr.wr with
  | .atomicFetchAndAdd, .atomic a _ add _ =>
    some (Function.update cells a (cells a + add), cells a)
  | .atomicCmpAndSwp, .atomic a _ compare swap =>
    some (if cells a = compare then Function.update cells a swap else cells, cells a)
  | _, _ => none

def QpOperation.isAtomic : QpOperation → Bool
  | .fetchAndAdd .. | .compareAndSwap .. => true
  | _ => false

/-- What the caller asks for. -/
def QpOperation.onCells (op : QpOperation) (cells : Cells) : Cells × UInt64 :=
  match op with
  | .fetchAndAdd r add => (Function.update cells r.addr (cells r.addr + add), cells r.addr)
  | .compareAndSwap r compare swap =>
    (if cells r.addr = compare then Function.update cells r.addr swap else cells, cells r.addr)
  | _ => (cells, 0)

/-- **The request an atomic posts does what its caller asks for**; no other request is atomic. -/
theorem executeAtomic_workRequest {op : QpOperation} {buf : LocalBuffer} {wrId : UInt64}
    {wr : IbvSendWr} (h : (op.awaitable buf).workRequest wrId = .send wr) (cells : Cells) :
    executeAtomic wr cells = if op.isAtomic = true then some (op.onCells cells) else none := by
  cases op <;> cases h <;> rfl

/-- The request's entry is the caller's buffer. -/
theorem sgList_workRequest {op : QpOperation} {buf : LocalBuffer} {wrId : UInt64}
    {wr : IbvSendWr} (h : (op.awaitable buf).workRequest wrId = .send wr) :
    wr.sgList = some (fillLocalSge buf.localMrView) := by
  cases op <;> cases h <;> rfl

/-- The 64-bit number at `a`. -/
def load64 (o : ByteOrder) (memory : Mem) (a : Nat) : UInt64 :=
  UInt64.ofNat (memVal o (memory.read a 8))

def store64 (o : ByteOrder) (memory : Mem) (a : Nat) (v : UInt64) : Mem :=
  memory.write a (memBytes o 8 v.toNat)

namespace Atomics

/-! ## 2. Processes and devices -/

/-- Processes `H`, the operations of each, and the peers `P` of their queue pairs. -/
structure World (H ι Q κ P : Type*) where
  setup : H → Setup ι Q κ
  peer : H → Q → P
  /-- The peer's device admits the request: key, bounds and alignment. -/
  admits : P → IbvSendWr → Bool

structure State (H ι κ P : Type*) where
  ops : H → Client.State ι κ UInt64 IbvWc NativeOp
  /-- The memory of each process. -/
  memory : H → Mem
  cells : P → Cells
  /-- The atomics executed at the peers, in order. -/
  order : List (H × ι)
  /-- The value sent back. -/
  fetched : H × ι → Option UInt64
  /-- It is in the caller's buffer. -/
  landed : H × ι → Bool
  /-- The atomics constructed and those whose `co_await` has returned, with the value then in the
      buffer. -/
  history : List (Event (H × ι) UInt64)

inductive Action (H ι κ : Type*) where
  /-- A step of the process, its pollers and CQs. -/
  | op (h : H) (a : Client.Action ι κ IbvWc)
  | execute (h : H) (i : ι)
  | land (h : H) (i : ι)

namespace World

variable {H ι Q κ P : Type*}

def client (strerror : Int → String) (W : World H ι Q κ P) (h : H) :
    Client ι κ UInt64 IbvWc NativeOp := (W.setup h).client strerror

def isAtomic (W : World H ι Q κ P) (h : H) (i : ι) : Bool := ((W.setup h).operation i).isAtomic

def peerOf (W : World H ι Q κ P) (h : H) (i : ι) : P := W.peer h ((W.setup h).qp i)

/-- What the operation posts. -/
def request (W : World H ι Q κ P) (h : H) (i : ι) : WorkRequest :=
  ((W.setup h).awaitable i).workRequest ((W.setup h).address i)

/-- Where the operation's buffer lies. -/
def buffer (W : World H ι Q κ P) (h : H) (i : ι) : Nat :=
  ((W.setup h).buffer i).localMrView.addr.toNat

def init (strerror : Int → String) (W : World H ι Q κ P) (memory : H → Mem) (cells : P → Cells) :
    State H ι κ P where
  ops h := (W.client strerror h).init
  memory := memory
  cells := cells
  order := []
  fetched _ := none
  landed _ := false
  history := []

/-- What a step of a process shows of its atomics. -/
def shows (o : ByteOrder) (W : World H ι Q κ P) (s : State H ι κ P) (h : H) :
    Client.Action ι κ IbvWc → List (Event (H × ι) UInt64)
  | .create i => if W.isAtomic h i = true then [.call (h, i)] else []
  | .dispatch c =>
    match (s.ops h).batch c with
    | [] => []
    | (_, wc) :: _ =>
      match (s.ops h).table wc.wrId with
      | none => []
      | some i =>
        if W.isAtomic h i = true ∧ wc.status = .success then
          [.ret (h, i) (load64 o (s.memory h) (W.buffer h i))]
        else []
  | _ => []

/-- An atomic completes with success only when its value has landed. -/
def Completes (W : World H ι Q κ P) (s : State H ι κ P) (h : H) :
    Client.Action ι κ IbvWc → Prop
  | .complete i wc => W.isAtomic h i = true → wc.status = .success → s.landed (h, i) = true
  | _ => True

instance (W : World H ι Q κ P) (s : State H ι κ P) (h : H) (a : Client.Action ι κ IbvWc) :
    Decidable (W.Completes s h a) := by
  unfold Completes
  split <;> infer_instance

variable [DecidableEq H] [DecidableEq ι] [DecidableEq κ] [DecidableEq P]

def step (o : ByteOrder) (strerror : Int → String) (W : World H ι Q κ P) (s : State H ι κ P) :
    Action H ι κ → Option (State H ι κ P)
  | .op h a =>
    if W.Completes s h a then
      ((W.client strerror h).step (s.ops h) a).map fun l =>
        { s with ops := Function.update s.ops h l, history := s.history ++ W.shows o s h a }
    else none
  | .execute h i =>
    match W.request h i with
    | .recv _ => none
    | .send wr =>
      -- posted, whatever has become of the operation since
      if ((s.ops h).phase i).fresh = false ∧ ((W.setup h).env i).accepts = true ∧
          (h, i) ∉ s.order ∧ W.admits (W.peerOf h i) wr = true then
        (executeAtomic wr (s.cells (W.peerOf h i))).map fun r =>
          { s with
            cells := Function.update s.cells (W.peerOf h i) r.1
            order := s.order ++ [(h, i)]
            fetched := Function.update s.fetched (h, i) (some r.2) }
      else none
  | .land h i =>
    match W.request h i, s.fetched (h, i) with
    | .send wr, some v =>
      if (s.ops h).phase i = .posted then
        wr.sgList.map fun sge =>
          { s with
            memory := Function.update s.memory h (store64 o (s.memory h) sge.addr.toNat v)
            landed := Function.update s.landed (h, i) true }
      else none
    | _, _ => none

def machine (o : ByteOrder) (strerror : Int → String) (W : World H ι Q κ P) :
    Machine (State H ι κ P) (Action H ι κ) := ⟨W.step o strerror⟩

/-- No two atomics of a process that live at one time have a buffer in common. -/
def Exclusive (W : World H ι Q κ P) (s : State H ι κ P) : Action H ι κ → Prop
  | .op h (.create i) => ∀ j, j ≠ i → W.isAtomic h i = true → W.isAtomic h j = true →
      ((s.ops h).phase j).alive = true → Mem.Apart (W.buffer h i) 8 (W.buffer h j) 8
  | _ => True

/-- The cells as a sequential object. -/
def object (W : World H ι Q κ P) : Object (H × ι) (P → Cells) UInt64 where
  apply x cells :=
    let r := ((W.setup x.1).operation x.2).onCells (cells (W.peerOf x.1 x.2))
    (Function.update cells (W.peerOf x.1 x.2) r.1, r.2)

end World

section Steps

variable {H ι Q κ P : Type*} [DecidableEq H] [DecidableEq ι] [DecidableEq κ] [DecidableEq P]
  {o : ByteOrder} {strerror : Int → String} {W : World H ι Q κ P} {s t : State H ι κ P}

/-- The steps. -/
inductive Moves (o : ByteOrder) (strerror : Int → String) (W : World H ι Q κ P)
    (s : State H ι κ P) : Action H ι κ → State H ι κ P → Prop
  | moved (h : H) (a : Client.Action ι κ IbvWc) (l : Client.State ι κ UInt64 IbvWc NativeOp)
      (hc : W.Completes s h a) (hl : (W.client strerror h).step (s.ops h) a = some l) :
      Moves o strerror W s (.op h a)
        { s with ops := Function.update s.ops h l, history := s.history ++ W.shows o s h a }
  | executed (h : H) (i : ι) (hp : ((s.ops h).phase i).fresh = false)
      (he : ((W.setup h).env i).accepts = true) (ho : (h, i) ∉ s.order)
      (ha : W.isAtomic h i = true) :
      Moves o strerror W s (.execute h i)
        { s with
          cells := (W.object.apply (h, i) s.cells).1
          order := s.order ++ [(h, i)]
          fetched := Function.update s.fetched (h, i)
            (some (W.object.apply (h, i) s.cells).2) }
  | landed (h : H) (i : ι) (v : UInt64) (hf : s.fetched (h, i) = some v)
      (hp : (s.ops h).phase i = .posted) :
      Moves o strerror W s (.land h i)
        { s with
          memory := Function.update s.memory h (store64 o (s.memory h) (W.buffer h i) v)
          landed := Function.update s.landed (h, i) true }

theorem moves_of_step {a : Action H ι κ} (hs : (W.machine o strerror).step s a = some t) :
    Moves o strerror W s a t := by
  have hs : W.step o strerror s a = some t := hs
  cases a with
  | op h a =>
    obtain ⟨hc, hs⟩ := Option.ite_none_right_eq_some.mp hs
    obtain ⟨l, hl, rfl⟩ := Option.map_eq_some_iff.mp hs
    exact .moved h a l hc hl
  | execute h i =>
    unfold World.step at hs
    dsimp only at hs
    split at hs
    · cases hs
    · next wr hwr =>
      obtain ⟨⟨hp, he, ho, -⟩, hs⟩ := Option.ite_none_right_eq_some.mp hs
      rw [executeAtomic_workRequest hwr] at hs
      split at hs
      · next ha =>
        cases hs
        exact .executed h i hp he ho ha
      · cases hs
  | land h i =>
    unfold World.step at hs
    dsimp only at hs
    split at hs
    · next wr v hwr hf =>
      obtain ⟨hp, hs⟩ := Option.ite_none_right_eq_some.mp hs
      rw [sgList_workRequest hwr] at hs
      cases hs
      exact .landed h i v hf hp
    · cases hs

/-- What a step of a process shows: a call, a return, or nothing. -/
inductive Shows (o : ByteOrder) (W : World H ι Q κ P) (s : State H ι κ P) (h : H) :
    Client.Action ι κ IbvWc → List (Event (H × ι) UInt64) → Prop
  | called (i : ι) (ha : W.isAtomic h i = true) : Shows o W s h (.create i) [.call (h, i)]
  | returned (c : κ) (i : ι) (wc : IbvWc) (rest : List (ι × IbvWc))
      (hb : (s.ops h).batch c = (i, wc) :: rest) (ha : W.isAtomic h i = true)
      (hw : wc.status = .success) :
      Shows o W s h (.dispatch c) [.ret (h, i) (load64 o (s.memory h) (W.buffer h i))]
  | nothing (a : Client.Action ι κ IbvWc) (hc : ∀ i, a = .create i → W.isAtomic h i = false)
      (hd : ∀ c p rest, a = .dispatch c → (s.ops h).batch c = p :: rest →
        W.isAtomic h p.1 = true → p.2.status ≠ .success) :
      Shows o W s h a []

omit [DecidableEq H] [DecidableEq P] in
/-- The entry at the front of a batch is its own operation's, so the return shown is that one's. -/
theorem shows_spec {h : H} {a : Client.Action ι κ IbvWc}
    {l : Client.State ι κ UInt64 IbvWc NativeOp}
    (hi : Client.Inv (W.client strerror h) (s.ops h))
    (hl : (W.client strerror h).step (s.ops h) a = some l) :
    Shows o W s h a (W.shows o s h a) := by
  cases a with
  | create i =>
    cases ha : W.isAtomic h i with
    | true =>
      simp only [World.shows, ha, if_true]
      exact .called i ha
    | false =>
      simp only [World.shows, ha, Bool.false_eq_true, if_false]
      exact .nothing _ (fun j hj => Client.Action.create.inj hj ▸ ha) nofun
  | dispatch c =>
    rcases Client.seen_of_step hl with ⟨d, p, rest, hd, hb, -⟩ | ⟨hd, -⟩
    · obtain rfl : c = d := Client.Action.dispatch.inj hd
      obtain ⟨i, wc⟩ := p
      have htable : (s.ops h).table wc.wrId = some i := (hi.front hb).1
      simp only [World.shows, hb, htable]
      split
      · next ha => exact .returned c i wc rest hb ha.1 ha.2
      · next ha =>
        refine .nothing _ nofun fun d p rest' hd hb' hp hw => ha ?_
        obtain rfl : c = d := Client.Action.dispatch.inj hd
        obtain rfl := (List.cons.inj (hb.symm.trans hb')).1
        exact ⟨hp, hw⟩
    · exact absurd rfl (hd c)
  | _ => exact .nothing _ nofun nofun

/-! ## 3. Buffers -/

/-- What holds of the operations, the values sent back and the buffers they land in. -/
structure Landings (o : ByteOrder) (strerror : Int → String) (W : World H ι Q κ P)
    (s : State H ι κ P) : Prop where
  client : ∀ h, Client.Inv (W.client strerror h) (s.ops h)
  apart : ∀ h i j, i ≠ j → W.isAtomic h i = true → W.isAtomic h j = true →
    ((s.ops h).phase i).alive = true → ((s.ops h).phase j).alive = true →
    Mem.Apart (W.buffer h i) 8 (W.buffer h j) 8
  fetched : ∀ h i v, s.fetched (h, i) = some v →
    W.isAtomic h i = true ∧ ((s.ops h).phase i).fresh = false ∧ (h, i) ∈ s.order
  /-- While the operation lives its buffer has the value. -/
  landed : ∀ h i, s.landed (h, i) = true → ∃ v, s.fetched (h, i) = some v ∧
    (((s.ops h).phase i).alive = true → load64 o (s.memory h) (W.buffer h i) = v)
  /-- Its value has landed before an entry with status success is generated. -/
  success : ∀ h i wc, W.isAtomic h i = true →
    (i, wc) ∈ (s.ops h).generated ((W.setup h).cq i) → wc.status = .success →
    s.landed (h, i) = true
  executed : ∀ h i, (h, i) ∈ s.order → ((W.setup h).env i).accepts = true

omit [DecidableEq P] in
/-- A step of a process keeps them. -/
theorem Landings.moved (hs : Landings o strerror W s) {h : H} {a : Client.Action ι κ IbvWc}
    {l : Client.State ι κ UInt64 IbvWc NativeOp} {history : List (Event (H × ι) UInt64)}
    (he : W.Exclusive s (.op h a)) (hc : W.Completes s h a)
    (hl : (W.client strerror h).step (s.ops h) a = some l) :
    Landings o strerror W { s with ops := Function.update s.ops h l, history := history } := by
  have halive : ∀ i, (l.phase i).alive = true →
      ((s.ops h).phase i).alive = true ∨ a = .create i := by
    intro i hi
    rcases Client.phase_of_step hl i with hp | ⟨ha, -⟩ | ⟨hp, -⟩
    · exact Or.inl (hp ▸ hi)
    · exact Or.inr ha
    · exact Or.inl hp
  have hfresh : ∀ i, ((s.ops h).phase i).fresh = false → (l.phase i).fresh = false := by
    intro i hi
    rcases Client.phase_of_step hl i with hp | ⟨-, hp, -⟩ | ⟨-, hp⟩
    · exact hp ▸ hi
    · rw [hp] at hi
      cases hi
    · exact hp
  have hself : Function.update s.ops h l h = l := Function.update_self h l s.ops
  refine ⟨fun g => ?_, fun g i j hij hai haj hi hj => ?_, fun g i v hf => ?_, fun g i hi => ?_,
    fun g i wc ha hg hw => ?_, hs.executed⟩
  · show Client.Inv (W.client strerror g) (Function.update s.ops h l g)
    by_cases hgh : g = h
    · rw [hgh, hself]
      exact (hs.client h).step hl
    · rw [Function.update_of_ne hgh]
      exact hs.client g
  · have hi : ((Function.update s.ops h l g).phase i).alive = true := hi
    have hj : ((Function.update s.ops h l g).phase j).alive = true := hj
    by_cases hgh : g = h
    · subst hgh
      rw [hself] at hi hj
      rcases halive i hi with hi | rfl
      · rcases halive j hj with hj | rfl
        · exact hs.apart g i j hij hai haj hi hj
        · exact Or.symm (he i hij haj hai hi)
      · rcases halive j hj with hj | ha
        · exact he j (Ne.symm hij) hai haj hj
        · exact absurd (Client.Action.create.inj ha) hij
    · rw [Function.update_of_ne hgh] at hi hj
      exact hs.apart g i j hij hai haj hi hj
  · obtain ⟨ha, hp, ho⟩ := hs.fetched g i v hf
    refine ⟨ha, ?_, ho⟩
    show ((Function.update s.ops h l g).phase i).fresh = false
    by_cases hgh : g = h
    · subst hgh
      rw [hself]
      exact hfresh i hp
    · rw [Function.update_of_ne hgh]
      exact hp
  · obtain ⟨v, hf, hv⟩ := hs.landed g i hi
    refine ⟨v, hf, fun hp => hv ?_⟩
    have hp : ((Function.update s.ops h l g).phase i).alive = true := hp
    by_cases hgh : g = h
    · subst hgh
      rw [hself] at hp
      rcases halive i hp with hp | rfl
      · exact hp
      · -- an operation whose value has landed has been posted
        obtain ⟨-, hq, -⟩ := hs.fetched g i v hf
        cases Client.moves_of_step hl with
        | created _ habsent =>
          rw [habsent] at hq
          cases hq
    · rw [Function.update_of_ne hgh] at hp
      exact hp
  · have hg : (i, wc) ∈ (Function.update s.ops h l g).generated ((W.setup g).cq i) := hg
    by_cases hgh : g = h
    · subst hgh
      rw [hself] at hg
      rcases Client.generated_of_step hl hg with hg | rfl
      · exact hs.success g i wc ha hg hw
      · exact hc ha hw
    · rw [Function.update_of_ne hgh] at hg
      exact hs.success g i wc ha hg hw

/-- The state as one of the sequential object's. -/
def State.seenAs (s : State H ι κ P) : Object.State (H × ι) (P → Cells) UInt64 :=
  ⟨s.history, s.order, s.cells, s.fetched⟩

/-- What holds of the calls and returns shown. -/
structure Shown (W : World H ι Q κ P) (cells : P → Cells) (s : State H ι κ P) : Prop where
  object : W.object.machine.Reach (Object.init cells) s.seenAs
  called : ∀ h i, .call (h, i) ∈ s.history ↔
    W.isAtomic h i = true ∧ (s.ops h).phase i ≠ .absent
  returned : ∀ h i, (∃ v, .ret (h, i) v ∈ s.history) ↔ W.isAtomic h i = true ∧
    ∃ wc, (i, wc) ∈ (s.ops h).seen ((W.setup h).cq i) ∧ wc.status = .success
  once : (s.history.filterMap Event.returns).Nodup

/-- An operation exists from its creation on. -/
theorem exists_iff {C : Client ι κ UInt64 IbvWc NativeOp}
    {u l : Client.State ι κ UInt64 IbvWc NativeOp} {a : Client.Action ι κ IbvWc}
    (hl : C.step u a = some l) (i : ι) :
    l.phase i ≠ .absent ↔ u.phase i ≠ .absent ∨ a = .create i := by
  constructor
  · intro hi
    rcases Client.phase_of_step hl i with hp | ⟨ha, -⟩ | ⟨hp, -⟩
    · exact Or.inl (hp ▸ hi)
    · exact Or.inr ha
    · refine Or.inl fun hq => ?_
      rw [hq] at hp
      cases hp
  · rintro (hi | rfl)
    · rcases Client.phase_of_step hl i with hp | ⟨-, hp, -⟩ | ⟨-, hp⟩
      · exact hp ▸ hi
      · exact absurd hp hi
      · intro hq
        rw [hq] at hp
        cases hp
    · cases Client.moves_of_step hl with
      | created _ _ _ =>
        dsimp only
        rw [Function.update_self]
        exact nofun

/-- A queue's entries dispatched, after a step. -/
theorem mem_seen_iff {C : Client ι κ UInt64 IbvWc NativeOp}
    {u l : Client.State ι κ UInt64 IbvWc NativeOp} {a : Client.Action ι κ IbvWc}
    (hu : Client.Inv C u) (hl : C.step u a = some l) (i : ι) (wc : IbvWc) :
    (i, wc) ∈ l.seen (C.queue i wc) ↔ (i, wc) ∈ u.seen (C.queue i wc) ∨
      ∃ c rest, a = .dispatch c ∧ u.batch c = (i, wc) :: rest := by
  rcases Client.seen_of_step hl with ⟨c, p, rest, rfl, hb, hseen⟩ | ⟨hd, hseen⟩
  · obtain ⟨-, -, hc, -⟩ := hu.front hb
    rw [hseen]
    by_cases hq : C.queue i wc = c
    · rw [hq, Function.update_self, List.mem_append, List.mem_singleton]
      refine or_congr_right ⟨?_, ?_⟩
      · rintro rfl
        exact ⟨c, rest, rfl, hb⟩
      · rintro ⟨d, rest', hd, hb'⟩
        obtain rfl : c = d := Client.Action.dispatch.inj hd
        exact ((List.cons.inj (hb.symm.trans hb')).1).symm
    · rw [Function.update_of_ne hq]
      refine (or_iff_left ?_).symm
      rintro ⟨d, rest', hd, hb'⟩
      obtain rfl : c = d := Client.Action.dispatch.inj hd
      obtain rfl := (List.cons.inj (hb.symm.trans hb')).1
      exact hq hc
  · rw [hseen]
    exact (or_iff_left fun ⟨c, _, ha, _⟩ => hd c ha).symm

section Shows

variable {h g : H} {j : ι} {a : Client.Action ι κ IbvWc} {e : List (Event (H × ι) UInt64)}
  {l : Client.State ι κ UInt64 IbvWc NativeOp} {cells : P → Cells}

omit [DecidableEq H] [DecidableEq ι] [DecidableEq κ] [DecidableEq P] in
theorem Shows.call_iff (hs : Shows o W s h a e) :
    .call (g, j) ∈ e ↔ g = h ∧ W.isAtomic h j = true ∧ a = .create j := by
  cases hs with
  | called i ha =>
    constructor
    · intro hm
      cases List.mem_singleton.mp hm
      exact ⟨rfl, ha, rfl⟩
    · rintro ⟨rfl, -, hj⟩
      cases hj
      exact List.mem_singleton_self _
  | returned => exact iff_of_false (fun hm => nomatch List.mem_singleton.mp hm) (by simp)
  | nothing _ hc =>
    refine iff_of_false nofun ?_
    rintro ⟨-, ha, hj⟩
    rw [hc j hj] at ha
    cases ha

omit [DecidableEq H] [DecidableEq ι] [DecidableEq κ] [DecidableEq P] in
theorem Shows.ret_iff (hs : Shows o W s h a e) :
    (∃ v, .ret (g, j) v ∈ e) ↔ g = h ∧ W.isAtomic h j = true ∧
      ∃ c wc rest, a = .dispatch c ∧ (s.ops h).batch c = (j, wc) :: rest ∧
        wc.status = .success := by
  cases hs with
  | called => exact iff_of_false (fun ⟨_, hm⟩ => nomatch List.mem_singleton.mp hm) (by simp)
  | returned c i wc rest hb ha hw =>
    constructor
    · rintro ⟨v, hm⟩
      cases List.mem_singleton.mp hm
      exact ⟨rfl, ha, c, wc, rest, rfl, hb, hw⟩
    · rintro ⟨rfl, -, d, wc', rest', hd, hb', -⟩
      obtain rfl : c = d := Client.Action.dispatch.inj hd
      obtain ⟨rfl, -⟩ := Prod.mk.inj (List.cons.inj (hb.symm.trans hb')).1
      exact ⟨_, List.mem_singleton_self _⟩
  | nothing _ _ hd =>
    refine iff_of_false (fun ⟨_, hm⟩ => nomatch hm) ?_
    rintro ⟨-, ha, c, wc, rest, hc, hb, hw⟩
    exact hd c _ rest hc hb ha hw

omit [DecidableEq H] [DecidableEq ι] [DecidableEq κ] [DecidableEq P] in
/-- No more than one event. -/
theorem Shows.length_le (hs : Shows o W s h a e) : e.length ≤ 1 := by
  cases hs <;> simp

/-- **A step of a process is a call, a return or nothing for the object.** -/
theorem Shown.object_moved (hs : Shown W cells s) (hb : Landings o strerror W s)
    (hl : (W.client strerror h).step (s.ops h) a = some l) (he : Shows o W s h a e) :
    W.object.machine.Reach (Object.init cells)
      ⟨s.history ++ e, s.order, s.cells, s.fetched⟩ := by
  cases he with
  | called i ha =>
    refine .step (.call (h, i)) hs.object trivial (if_neg fun hmem => ?_)
    -- it did not exist before
    cases Client.moves_of_step hl with
    | created _ habsent => exact ((hs.called h i).mp hmem).2 habsent
  | returned c i wc rest hbatch ha hw =>
    obtain ⟨-, hcompleted, hc, hpending⟩ := (hb.client h).front hbatch
    have hgen : (i, wc) ∈ (s.ops h).generated ((W.setup h).cq i) := by
      rw [(hb.client h).generated_eq]
      refine List.mem_append_right _ ?_
      rw [show (W.setup h).cq i = c from hc]
      exact hpending
    obtain ⟨v, hf, hv⟩ := hb.landed h i (hb.success h i wc ha hgen hw)
    have hload : load64 o (s.memory h) (W.buffer h i) = v := hv (by
      rw [hcompleted]
      rfl)
    refine .step (.ret (h, i)) hs.object trivial ?_
    show (s.fetched (h, i)).map _ = some _
    rw [hf, hload]
    rfl
  | nothing =>
    rw [List.append_nil]
    exact hs.object

theorem Shown.moved (hs : Shown W cells s) (hb : Landings o strerror W s)
    (hl : (W.client strerror h).step (s.ops h) a = some l) :
    Shown W cells
      { s with ops := Function.update s.ops h l, history := s.history ++ W.shows o s h a } := by
  have he := shows_spec (o := o) (hb.client h) hl
  refine ⟨hs.object_moved hb hl he, fun g j => ?_, fun g j => ?_, ?_⟩
  · show _ ∈ s.history ++ _ ↔ _ ∧ (Function.update s.ops h l g).phase j ≠ .absent
    rw [List.mem_append, hs.called, he.call_iff]
    by_cases hgh : g = h
    · subst hgh
      rw [Function.update_self, exists_iff hl]
      tauto
    · rw [Function.update_of_ne hgh]
      tauto
  · show (∃ v, _ ∈ s.history ++ _) ↔ _ ∧ ∃ wc, _ ∈ (Function.update s.ops h l g).seen _ ∧ _
    simp only [List.mem_append, exists_or]
    rw [hs.returned, he.ret_iff]
    by_cases hgh : g = h
    · subst hgh
      rw [Function.update_self]
      have hseen : ∀ wc, (j, wc) ∈ l.seen ((W.setup g).cq j) ↔
          (j, wc) ∈ (s.ops g).seen ((W.setup g).cq j) ∨
            ∃ c rest, a = .dispatch c ∧ (s.ops g).batch c = (j, wc) :: rest :=
        mem_seen_iff (hb.client g) hl j
      simp only [hseen]
      constructor
      · rintro (⟨ha, wc, hwc, hw⟩ | ⟨-, ha, c, wc, rest, hc, hbatch, hw⟩)
        · exact ⟨ha, wc, Or.inl hwc, hw⟩
        · exact ⟨ha, wc, Or.inr ⟨c, rest, hc, hbatch⟩, hw⟩
      · rintro ⟨ha, wc, hwc | ⟨c, rest, hc, hbatch⟩, hw⟩
        · exact Or.inl ⟨ha, wc, hwc, hw⟩
        · exact Or.inr ⟨trivial, ha, c, wc, rest, hc, hbatch, hw⟩
    · rw [Function.update_of_ne hgh]
      exact or_iff_left fun hret => hgh hret.1
  · rw [List.filterMap_append]
    refine List.Nodup.append hs.once ?_ fun x hx hx' => ?_
    · have hlen : ((W.shows o s h a).filterMap Event.returns).length ≤ 1 :=
        (List.length_filterMap_le _ _).trans he.length_le
      match hm : (W.shows o s h a).filterMap Event.returns, hlen with
      | [], _ => exact List.nodup_nil
      | [y], _ => exact List.nodup_singleton y
    · -- an operation that has returned has no entry on its way
      obtain ⟨g, j⟩ := x
      obtain ⟨-, wc, hseen, -⟩ := (hs.returned g j).mp (Event.mem_returns.mp hx)
      obtain ⟨rfl, -, c, wc', rest, -, hbatch, -⟩ := he.ret_iff.mp (Event.mem_returns.mp hx')
      obtain ⟨-, -, hc, hpending⟩ := (hb.client g).front hbatch
      have hnodup := (hb.client g).nodup c
      rw [List.map_append, List.nodup_append] at hnodup
      rw [show (W.setup g).cq j = c from hc] at hseen
      exact hnodup.2.2 j (List.mem_map_of_mem (f := Prod.fst) hseen) j
        (List.mem_map_of_mem (f := Prod.fst) hpending) rfl

end Shows

namespace World

end World

variable {p : P} {a : UInt64}

end Steps

end Atomics

end Rdmapp
