/-
  File:      Rdmapp/Sessions.lean
  Subject:   SESSIONS: two coroutines, one on each side of a queue pair, from their first to their
             last `co_await`.

  The variables of a coroutine hold bytes; a registered one can be written, read and added to by the
  peer's requests, if address, length and key are those of its region. A send or a write with
  immediate data is a message: it ends when a recv of the peer has taken it, and so does that recv.
  A write's bytes are there before its immediate data is. Where a request is not permitted, or the
  coroutine throws, nothing happens any more: the world is `none`. The queue pair itself does not
  fail: every post is accepted, and what is permitted succeeds.

  Each `co_await` is a statement of one party's program (`Lib.Choreography`), whose device posts the
  request that the operation's `suspend` fills.
-/
import Mathlib.Data.List.TakeDrop
import Rdmapp.Immediate
import Rdmapp.Lib.Choreography

namespace Rdmapp.Sessions

open Lib Choreography Delivery

/-! ## 1. Hosts -/

/-- What a host gives the variables `V` of its coroutine. -/
structure Site (V : Type*) where
  order : ByteOrder
  addr : V → UInt64
  /-- The keys of `ibv_reg_mr`. -/
  lkey : V → UInt32
  rkey : V → UInt32

structure Host (V : Type*) where
  bytes : V → List UInt8
  /-- The regions registered, with their variables. -/
  regions : List (V × LocalMr)
  /-- The variables of type `remote_mr`. -/
  remoteMr : V → RemoteMr
  /-- The values of the recvs, in order. -/
  returned : List OpResult
  /-- The functions called, in order. -/
  called : List Int

/-- The server is `false`, the client `true`. -/
abbrev World (V : Type*) : Type _ := Bool → Host V

/-- The bytes `new` over those of `old` from the `i`-th on. -/
def patch (old : List UInt8) (i : Nat) (new : List UInt8) : List UInt8 :=
  old.take i ++ new ++ old.drop (i + new.length)

/-- `resize`; what is not initialised may be anything. -/
def resize (n : Nat) (old : List UInt8) : List UInt8 := old.takeD n 0

@[simp] theorem resize_length (n : Nat) (old : List UInt8) : (resize n old).length = n :=
  List.takeD_length _ _ _

theorem patch_zero (old new : List UInt8) : patch old 0 new = new ++ old.drop new.length := by
  unfold patch
  rw [List.take_zero, Nat.zero_add, List.nil_append]

theorem patch_length {old new : List UInt8} (h : new.length ≤ old.length) :
    (patch old 0 new).length = old.length := by
  rw [patch_zero, List.length_append, List.length_drop, Nat.add_sub_cancel' h]

/-- All of it is overwritten. -/
theorem patch_all {old new : List UInt8} (h : old.length = new.length) : patch old 0 new = new := by
  rw [patch_zero, ← h, List.drop_length, List.append_nil]

section Host

variable {V : Type*} [DecidableEq V] (S : Site V)

def Host.assign (v : V) (bs : List UInt8) (h : Host V) : Host V :=
  { h with bytes := Function.update h.bytes v bs }

/-- A view of all of the variable. -/
def Host.view (v : V) (h : Host V) : MrView :=
  ⟨S.addr v, UInt64.ofNat (h.bytes v).length, S.lkey v⟩

/-- The region `reg_mr` makes of the variable. -/
def Host.region (v : V) (h : Host V) : LocalMr :=
  ⟨⟨S.addr v, UInt64.ofNat (h.bytes v).length, S.lkey v, S.rkey v⟩⟩

/-- `pd::reg_mr` of all of the variable. -/
def Host.regMr (v : V) (h : Host V) : Host V :=
  { h with regions := (v, h.region S v) :: h.regions }

/-- The variable is registered, and the region's `serialize()` goes into `handle`. -/
def Host.advertise (v handle : V) (h : Host V) : Host V :=
  (h.regMr S v).assign handle ((h.region S v).serialize S.order)

/-- `auto v = remote_mr::deserialize(handle)`. -/
def Host.deserialize (handle v : V) (h : Host V) : Host V :=
  { h with remoteMr := Function.update h.remoteMr v (RemoteMr.deserialize S.order (h.bytes handle)) }

/-- The view of a remote region that an operation is called with. -/
def Host.remote (v : V) (h : Host V) : MrView := MrView.ofRemote (h.remoteMr v) 0 (-1)

/-- The variable and offset that `n` bytes at `a` are, for a request with key `k`. -/
def Host.find (h : Host V) (a : UInt64) (k : UInt32) (n : Nat) : Option (V × Nat) :=
  (h.regions.find? fun r => r.2.rkey == k && decide (r.2.addr.toNat ≤ a.toNat) &&
    decide (a.toNat + n ≤ r.2.addr.toNat + r.2.length.toNat)).map fun r =>
      (r.1, a.toNat - r.2.addr.toNat)

/-- What the entry covers of the variable. -/
def Host.gather (h : Host V) (v : V) : Option IbvSge → List UInt8
  | some sge => (h.bytes v).take sge.length.toNat
  | none => []

/-- The 64-bit number at offset `i`. -/
def Host.word (h : Host V) (v : V) (i : Nat) : UInt64 :=
  UInt64.ofNat (memVal S.order (((h.bytes v).drop i).take 8))

end Host

/-! ## 2. Requests -/

section Requests

variable {V : Type*} [DecidableEq V] (S : Bool → Site V)

/-- What the devices do for a request of `p` whose entry is in `v`: the bytes they move. -/
def execute (p : Bool) (v : V) (wr : IbvSendWr) (w : World V) : Option (World V) :=
  let payload := (w p).gather v wr.sgList
  match wr.opcode, wr.wr with
  | .rdmaWrite, .rdma a k | .rdmaWriteWithImm, .rdma a k => do
    let (u, i) ← (w (!p)).find a k payload.length
    return Function.update w (!p) ((w (!p)).assign u (patch ((w (!p)).bytes u) i payload))
  | .rdmaRead, .rdma a k => do
    let (u, i) ← (w (!p)).find a k payload.length
    let found := (((w (!p)).bytes u).drop i).take payload.length
    return Function.update w p ((w p).assign v (patch ((w p).bytes v) 0 found))
  | .atomicFetchAndAdd, .atomic a k add _ => do
    let (u, i) ← (w (!p)).find a k 8
    let old := (w (!p)).word (S (!p)) u i
    let new := memBytes (S (!p)).order 8 (old + add).toNat
    let w := Function.update w (!p) ((w (!p)).assign u (patch ((w (!p)).bytes u) i new))
    return Function.update w p
      ((w p).assign v (patch ((w p).bytes v) 0 (memBytes (S p).order 8 old.toNat)))
  | .atomicCmpAndSwp, .atomic a k compare swap => do
    let (u, i) ← (w (!p)).find a k 8
    let old := (w (!p)).word (S (!p)) u i
    let new := memBytes (S (!p)).order 8 (if old = compare then swap else old).toNat
    let w := Function.update w (!p) ((w (!p)).assign u (patch ((w (!p)).bytes u) i new))
    return Function.update w p
      ((w p).assign v (patch ((w p).bytes v) 0 (memBytes (S p).order 8 old.toNat)))
  | _, _ => some w

/-- The request that `co_await` posts for an operation of `p` on `v`. -/
def request (p : Bool) (op : QpOperation) (v : V) (w : World V) : WorkRequest :=
  (op.awaitable (.view ((w p).view (S p) v))).workRequest 0

/-- A statement that only `p` is concerned with. -/
def alone (p : Bool) (f : Host V → Host V) (w : Option (World V)) : Option (World V) :=
  w.map fun w => Function.update w p (f (w p))

/-- The bytes of an operation are moved. -/
def operate (p : Bool) (op : Host V → QpOperation) (v : V) (w : Option (World V)) :
    Option (World V) :=
  w.bind fun w =>
    match request S p (op (w p)) v w with
    | .send wr => execute S p v wr w
    | .recv _ => none

/-- The message of an operation: `imm_data` as the peer's host reads it. -/
def message (p : Bool) (op : Host V → QpOperation) (v : V) : Option (World V) → Message
  | none => ⟨[], none⟩
  | some w =>
    match request S p (op (w p)) v w with
    | .send wr => ⟨(w p).gather v wr.sgList,
        if wr.opcode = .rdmaWriteWithImm then
          some (carried (S p).order (S (!p)).order wr.immData) else none⟩
    | .recv _ => ⟨[], none⟩

/-- The buffer of a recv. -/
inductive RecvBuffer (V : Type*) where
  | null
  | whole (v : V)
  /-- The first `n` bytes. -/
  | view (v : V) (n : Nat)

/-- What a message leaves in the buffer. One with immediate data leaves nothing there, one that is
    longer than the buffer is an error. -/
def deposit (m : Message) (b : RecvBuffer V) (h : Host V) : Option (Host V) :=
  if m.imm.isSome then some h else
    match b with
    | .null => if m.payload = [] then some h else none
    | .whole v =>
      if m.payload.length ≤ (h.bytes v).length then
        some (h.assign v (patch (h.bytes v) 0 m.payload)) else none
    | .view v n =>
      if m.payload.length ≤ min n (h.bytes v).length then
        some (h.assign v (patch (h.bytes v) 0 m.payload)) else none

/-- A recv of `p`; `k` is what the coroutine does with its value. -/
def received (p : Bool) (b : RecvBuffer V) (k : OpResult → Host V → Option (Host V)) (m : Message)
    (w : Option (World V)) : Option (World V) := do
  let w ← w
  let h ← deposit m b (w p)
  let h ← k m.result { h with returned := h.returned ++ [m.result] }
  return Function.update w p h

/-- The value is not looked at. -/
def ignore (_ : OpResult) (h : Host V) : Option (Host V) := some h

/-- `assert(imm.has_value())`. -/
def assertImm (r : OpResult) (h : Host V) : Option (Host V) :=
  match r with
  | .recv _ (some _) => some h
  | _ => none

/-! ## 3. Statements -/

abbrev Program (V : Type*) : Type _ := List (Stmt (Option (World V)) Message)

abbrev Turns (V : Type*) : Type _ := List (Turn (Option (World V)) Message)

/-- `co_await qp->write_with_imm(remote, v, imm)`: the bytes, then the message. -/
def writeWithImm (p : Bool) (remote v : V) (imm : UInt32) : Program V :=
  let op : Host V → QpOperation := fun h => .writeWithImm (h.remote remote) imm
  [.act (operate S p op v), .send (message S p op v)]

/-- `co_await qp->send(v)`. -/
def send (p : Bool) (v : V) : Stmt (Option (World V)) Message :=
  .send (message S p (fun _ => .send) v)

/-- `co_await qp->recv(b)`. -/
def recv (p : Bool) (b : RecvBuffer V) (k : OpResult → Host V → Option (Host V)) :
    Stmt (Option (World V)) Message :=
  .recv (received p b k)

/-! ## 4. What a turn does -/

variable {S} {w : World V} {p : Bool} {r u v : V} {ts : Turns V} {b : RecvBuffer V}
  {k : OpResult → Host V → Option (Host V)} {h' : Host V}

omit [DecidableEq V] in
/-- The entry of a request covers all of a variable below 4 GiB. -/
theorem gather_view (h : Host V) (hlen : (h.bytes v).length < 2 ^ 32) (T : Site V) :
    h.gather v (some (fillLocalSge (h.view T v))) = h.bytes v := by
  refine List.take_of_length_le ?_
  show (h.bytes v).length ≤ (UInt64.ofNat (h.bytes v).length).toUInt32.toNat
  have hlt : (h.bytes v).length < UInt64.size := hlen.trans (by decide)
  rw [UInt64.toNat_toUInt32, UInt64.toNat_ofNat_of_lt' hlt, Nat.mod_eq_of_lt hlen]

omit [DecidableEq V] in
/-- A region is found by its address and key. -/
theorem find_region {h : Host V} {l : LocalMr} {rest : List (V × LocalMr)} {n : Nat}
    (hr : h.regions = (v, l) :: rest) (hn : n ≤ l.length.toNat) :
    h.find l.addr l.rkey n = some (v, 0) := by
  unfold Host.find
  have hle : l.addr.toNat + n ≤ l.addr.toNat + l.length.toNat := Nat.add_le_add_left hn _
  rw [hr, List.find?_cons_of_pos]
  · rw [Option.map_some, Nat.sub_self]
  · simp only [beq_self_eq_true, Nat.le_refl, hle, decide_true, Bool.and_self]

section Request

omit [DecidableEq V]

variable {r : MrView} {imm : UInt32} {add compare swap : UInt64}

@[simp] theorem request_send : request S p .send v w =
    .send ⟨.send, 1, 0, true, some (fillLocalSge ((w p).view (S p) v)), .none, 0⟩ := rfl

@[simp] theorem request_write : request S p (.write r) v w =
    .send ⟨.rdmaWrite, 1, 0, true, some (fillLocalSge ((w p).view (S p) v)),
      .rdma r.addr r.rkey, 0⟩ := rfl

@[simp] theorem request_writeWithImm : request S p (.writeWithImm r imm) v w =
    .send ⟨.rdmaWriteWithImm, 1, 0, true, some (fillLocalSge ((w p).view (S p) v)),
      .rdma r.addr r.rkey, imm⟩ := rfl

@[simp] theorem request_read : request S p (.read r) v w =
    .send ⟨.rdmaRead, 1, 0, true, some (fillLocalSge ((w p).view (S p) v)),
      .rdma r.addr r.rkey, 0⟩ := rfl

@[simp] theorem request_fetchAndAdd : request S p (.fetchAndAdd r add) v w =
    .send ⟨.atomicFetchAndAdd, 1, 0, true, some (fillLocalSge ((w p).view (S p) v)),
      .atomic r.addr r.rkey add 0, 0⟩ := rfl

@[simp] theorem request_compareAndSwap : request S p (.compareAndSwap r compare swap) v w =
    .send ⟨.atomicCmpAndSwp, 1, 0, true, some (fillLocalSge ((w p).view (S p) v)),
      .atomic r.addr r.rkey compare swap, 0⟩ := rfl

end Request

/-- A write that is permitted. -/
theorem operate_write {op : Host V → QpOperation} {remote : MrView} {i : Nat}
    (hop : op (w p) = .write remote ∨ ∃ imm, op (w p) = .writeWithImm remote imm)
    (hlen : ((w p).bytes v).length < 2 ^ 32)
    (hf : (w (!p)).find remote.addr remote.rkey ((w p).bytes v).length = some (u, i)) :
    operate S p op v (some w) = some (Function.update w (!p)
      ((w (!p)).assign u (patch ((w (!p)).bytes u) i ((w p).bytes v)))) := by
  have hg := gather_view (w p) hlen (S p)
  unfold operate
  rcases hop with hop | ⟨imm, hop⟩
  · rw [Option.bind_some, hop, request_write]
    simp only [execute, hg, hf]
    rfl
  · rw [Option.bind_some, hop, request_writeWithImm]
    simp only [execute, hg, hf]
    rfl

omit [DecidableEq V] in
theorem message_send (hlen : ((w p).bytes v).length < 2 ^ 32) :
    message S p (fun _ => .send) v (some w) = ⟨(w p).bytes v, none⟩ := by
  unfold message
  dsimp only
  rw [request_send]
  simp only [gather_view (w p) hlen (S p)]
  rfl

omit [DecidableEq V] in
theorem message_writeWithImm {imm : UInt32} (hlen : ((w p).bytes v).length < 2 ^ 32) :
    message S p (fun h => .writeWithImm (h.remote r) imm) v (some w) =
      ⟨(w p).bytes v, some (carried (S p).order (S (!p)).order imm)⟩ := by
  unfold message
  dsimp only
  rw [request_writeWithImm]
  simp only [gather_view (w p) hlen (S p), if_true]

/-- A read that is permitted. -/
theorem operate_read {op : Host V → QpOperation} {remote : MrView} {i : Nat}
    (hop : op (w p) = .read remote) (hlen : ((w p).bytes v).length < 2 ^ 32)
    (hf : (w (!p)).find remote.addr remote.rkey ((w p).bytes v).length = some (u, i)) :
    operate S p op v (some w) = some (Function.update w p
      ((w p).assign v (patch ((w p).bytes v) 0
        ((((w (!p)).bytes u).drop i).take ((w p).bytes v).length)))) := by
  have hg := gather_view (w p) hlen (S p)
  unfold operate
  rw [Option.bind_some, hop, request_read]
  simp only [execute, hg, hf]
  rfl

/-- A recv that a write with immediate data fills. -/
theorem received_imm {m : Message} {imm : UInt32} (hm : m.imm = some imm) :
    received p b k m (some w) =
      (k m.result { w p with returned := (w p).returned ++ [m.result] }).map
        fun h => Function.update w p h := by
  unfold received deposit
  rw [hm]
  show (k m.result _).bind _ = _
  cases k m.result { w p with returned := (w p).returned ++ [m.result] } <;> rfl

/-- A recv that a send fills. -/
theorem received_send {m : Message} (hm : m.imm = none) (hb : b = .whole v ∨ ∃ n, b = .view v n ∧
      m.payload.length ≤ n) (hlen : m.payload.length ≤ ((w p).bytes v).length)
    (hk : k m.result { (w p).assign v (patch ((w p).bytes v) 0 m.payload) with
      returned := (w p).returned ++ [m.result] } = some h') :
    received p b k m (some w) = some (Function.update w p h') := by
  have hd : deposit m b (w p) =
      some ((w p).assign v (patch ((w p).bytes v) 0 m.payload)) := by
    unfold deposit
    rw [hm, if_neg (by exact nofun)]
    rcases hb with rfl | ⟨n, rfl, hn⟩
    · exact if_pos hlen
    · exact if_pos (le_min hn hlen)
  unfold received
  show (deposit m b (w p)).bind _ = _
  rw [hd]
  show (k m.result _).bind _ = _
  rw [show k m.result { (w p).assign v (patch ((w p).bytes v) 0 m.payload) with
    returned := ((w p).assign v (patch ((w p).bytes v) 0 m.payload)).returned ++ [m.result] } = _
    from hk]
  rfl

omit [DecidableEq V] in
/-- What two hosts do alone does not depend on who is first. -/
theorem alone_comm {q : Bool} (hpq : q ≠ p) (f g : Host V → Host V) (x : Option (World V)) :
    alone p f (alone q g x) = alone q g (alone p f x) := by
  cases x with
  | none => rfl
  | some w =>
    show some (Function.update (Function.update w q (g (w q))) p
        (f (Function.update w q (g (w q)) p))) =
      some (Function.update (Function.update w p (f (w p))) q
        (g (Function.update w p (f (w p)) q)))
    rw [Function.update_of_ne hpq.symm, Function.update_of_ne hpq, Function.update_comm hpq]

omit [DecidableEq V] in
/-- What a host does alone does not show in the other one's messages. -/
theorem message_alone {q : Bool} (hpq : q ≠ p) (f : Host V → Host V) (op : Host V → QpOperation)
    (x : Option (World V)) : message S q op v (alone p f x) = message S q op v x := by
  cases x with
  | none => rfl
  | some w =>
    have hw : Function.update w p (f (w p)) q = w q := Function.update_of_ne hpq _ _
    show message S q op v (some (Function.update w p (f (w p)))) = _
    unfold message request
    dsimp only
    rw [hw]

/-! ## 5. Sessions -/

/-- **What a session comes to**: whatever the order of the two coroutines' steps, neither waits for
    ever or throws, and where both have returned the world is `w'`. -/
structure Session (k : Bool → Program V) (w w' : World V) : Prop where
  can_step : ∀ s, (machine _ _).Reach (launch k (some w)) s → ¬ s.Ended →
    ∃ a t, (machine _ _).step s a = some t
  length_le : ∀ n s, (machine _ _).Takes (fun _ _ => True) (fun _ => true) (launch k (some w)) n s →
    n ≤ 4 * ((k false).length + (k true).length)
  unfailed : ∀ s, (machine _ _).Reach (launch k (some w)) s → s.world ≠ none
  ended : ∀ s, (machine _ _).Reach (launch k (some w)) s → s.Ended → s.world = some w'

omit [DecidableEq V] in
/-- A session goes as its turns do one after the other. -/
theorem session_of_turns {k : Bool → Program V} {w' : World V} (hk : ∀ p, project p ts = k p)
    (ho : Ordered ts) (hrun : run ts (some w) = some w')
    (hkeep : ∀ p, ∀ x ∈ k p, x.Keeps (· = none)) : Session k w w' := by
  obtain rfl : (fun p => project p ts) = k := funext hk
  have hs := settles ho (some w)
  exact ⟨hs.can_step, hs.length_le,
    fun s h => hs.never hkeep (by rw [hrun]; exact nofun) h,
    fun s h he => (hs.ended s h he).1.trans hrun⟩

/-- In every run that cannot go on, something has failed. -/
structure Fails (k : Bool → Program V) (w : World V) : Prop where
  finishes : ∀ s, (machine _ _).Reach (launch k (some w)) s →
    ∃ t, (machine _ _).Reach s t ∧ t.Ended
  ended : ∀ s, (machine _ _).Reach (launch k (some w)) s → s.Ended → s.world = none

omit [DecidableEq V] in
theorem fails_of_turns {k : Bool → Program V} (hk : ∀ p, project p ts = k p) (ho : Ordered ts)
    (hrun : run ts (some w) = none) : Fails k w := by
  obtain rfl : (fun p => project p ts) = k := funext hk
  have hs := settles ho (some w)
  exact ⟨fun s h => hs.finishes h, fun s h he => (hs.ended s h he).1.trans hrun⟩

omit [DecidableEq V] in
@[simp] theorem keeps_alone (f : Host V → Host V) :
    (Stmt.act (alone p f) : Stmt (Option (World V)) Message).Keeps (· = none) := by
  rintro _ rfl
  rfl

@[simp] theorem keeps_operate (op : Host V → QpOperation) :
    (Stmt.act (operate S p op v) : Stmt (Option (World V)) Message).Keeps (· = none) := by
  rintro _ rfl
  rfl

omit [DecidableEq V] in
@[simp] theorem keeps_send (m : Option (World V) → Message) :
    (Stmt.send m : Stmt (Option (World V)) Message).Keeps (· = none) := trivial

@[simp] theorem keeps_recv : (recv p b k).Keeps (· = none) := by
  rintro m _ rfl
  rfl

/-! ## 6. Handles -/

/-- The server's host and the client's. -/
def both (s c : Host V) : World V := fun p => bif p then c else s

omit [DecidableEq V]

@[simp] theorem both_false (s c : Host V) : both s c false = s := rfl

@[simp] theorem both_true (s c : Host V) : both s c true = c := rfl

@[simp] theorem update_both_false (s c h : Host V) :
    Function.update (both s c) false h = both h c := by
  funext p
  cases p <;> rfl

@[simp] theorem update_both_true (s c h : Host V) :
    Function.update (both s c) true h = both s h := by
  funext p
  cases p <;> rfl

@[simp] theorem run_alone_false (f : Host V → Host V) (s c : Host V) :
    run (.act false (alone false f) :: ts) (some (both s c)) =
      run ts (some (both (f s) c)) :=
  congrArg (fun w => run ts (some w)) (update_both_false s c (f s))

@[simp] theorem run_alone_true (f : Host V → Host V) (s c : Host V) :
    run (.act true (alone true f) :: ts) (some (both s c)) =
      run ts (some (both s (f c))) :=
  congrArg (fun w => run ts (some w)) (update_both_true s c (f c))

end Requests

section Handles

variable {V : Type*} [DecidableEq V] {S : Bool → Site V} {s c : Host V} {u v x handle : V}
  {b : RecvBuffer V} {ts : Turns V}

/-- The client's `remote_mr` variable `x` is the server's region of `v`. -/
def Refers (s c : Host V) (x v : V) : Prop :=
  ∀ n ≤ (s.bytes v).length, s.find (c.remote x).addr (c.remote x).rkey n = some (v, 0)

/-- A send has come. -/
def Host.withBytes (h : Host V) (u : V) (bs : List UInt8) : Host V :=
  { h.assign u (patch (h.bytes u) 0 bs) with
    returned := h.returned ++ [.recv (UInt32.ofNat bs.length) none] }

section Send

variable {k : OpResult → Host V → Option (Host V)} {h' : Host V}

/-- **A send**: the peer's recv returns with the bytes. -/
theorem message_received {w : World V} {p : Bool} (hlen : ((w p).bytes v).length < 2 ^ 32)
    (hb : b = .whole u ∨ ∃ n, b = .view u n ∧ ((w p).bytes v).length ≤ n)
    (hle : ((w p).bytes v).length ≤ ((w (!p)).bytes u).length)
    (hk : k (.recv (UInt32.ofNat ((w p).bytes v).length) none)
      ((w (!p)).withBytes u ((w p).bytes v)) = some h') :
    received (!p) b k (message S p (fun _ => .send) v (some w)) (some w) =
      some (Function.update w (!p) h') := by
  rw [message_send hlen]
  exact received_send rfl hb hle hk

theorem run_send_true (hlen : (c.bytes v).length < 2 ^ 32)
    (hb : b = .whole u ∨ ∃ n, b = .view u n ∧ (c.bytes v).length ≤ n)
    (hle : (c.bytes v).length ≤ (s.bytes u).length)
    (hk : k (.recv (UInt32.ofNat (c.bytes v).length) none) (s.withBytes u (c.bytes v)) = some h') :
    run (.message true (message S true (fun _ => .send) v) (received false b k) :: ts)
        (some (both s c)) = run ts (some (both h' c)) := by
  rw [← update_both_false s c h', run_message]
  exact congrArg (run ts) (message_received (p := true) (w := both s c) hlen hb hle hk)

theorem run_send_false (hlen : (s.bytes v).length < 2 ^ 32)
    (hb : b = .whole u ∨ ∃ n, b = .view u n ∧ (s.bytes v).length ≤ n)
    (hle : (s.bytes v).length ≤ (c.bytes u).length)
    (hk : k (.recv (UInt32.ofNat (s.bytes v).length) none) (c.withBytes u (s.bytes v)) = some h') :
    run (.message false (message S false (fun _ => .send) v) (received true b k) :: ts)
        (some (both s c)) = run ts (some (both s h')) := by
  rw [← update_both_true s c h', run_message]
  exact congrArg (run ts) (message_received (p := false) (w := both s c) hlen hb hle hk)

/-- **A handle is sent**: the server has serialized its region into `handle`, the client's recv has
    the bytes in `u`. -/
theorem run_handle {l : LocalMr} (hs : s.bytes handle = l.serialize (S false).order)
    (hb : b = .whole u ∨ b = .view u RemoteMr.kSerializedSize)
    (hu : RemoteMr.kSerializedSize ≤ (c.bytes u).length) (hk : ∀ h, k (.recv 20 none) h = some h) :
    run (.message false (message S false (fun _ => .send) handle) (received true b k) :: ts)
        (some (both s c)) =
      run ts (some (both s (c.withBytes u (l.serialize (S false).order)))) := by
  have hlen : (s.bytes handle).length = RemoteMr.kSerializedSize := by
    rw [hs]
    exact l.serialize_length _
  rw [← hs]
  refine run_send_false (by rw [hlen]; decide) ?_ (hlen.trans_le hu) ?_
  · exact hb.imp_right fun h => ⟨_, h, hlen.le⟩
  · rw [hlen]
    exact hk _

end Send

omit [DecidableEq V] in
/-- **What the client reads in it is the region.** -/
theorem refers_of_handle {rest : List (V × LocalMr)} {l : LocalMr}
    (hr : s.regions = (v, l) :: rest) (hl : l.length.toNat = (s.bytes v).length) {o o' : ByteOrder}
    {old : List UInt8} (hc : c.remoteMr x = RemoteMr.deserialize o' (patch old 0 (l.serialize o))) :
    Refers s c x v := by
  intro n hn
  have haddr : (c.remote x).addr = l.addr := by
    show (c.remoteMr x).addr + 0 = l.addr
    rw [hc, patch_zero, RemoteMr.deserialize_serialize, UInt64.add_zero]
    rfl
  have hkey : (c.remote x).rkey = l.rkey := by
    show (c.remoteMr x).rkey = l.rkey
    rw [hc, patch_zero, RemoteMr.deserialize_serialize]
    rfl
  rw [haddr, hkey]
  exact find_region hr (hl ▸ hn)

/-- **How the examples open**: the server registers `v` and sends its handle, the client reads it as
    `x`; `f`, `g` and `e` are what else they do before, and the client after that. -/
def opening (S : Bool → Site V) (f g e : Host V → Host V) (v handle u x : V) (b : RecvBuffer V)
    (k : OpResult → Host V → Option (Host V)) : Turns V :=
  [.act false (alone false fun h => (f h).advertise (S false) v handle),
    .act true (alone true g),
    .message false (message S false (fun _ => .send) handle) (received true b k),
    .act true (alone true fun h => e (h.deserialize (S true) u x))]

section Opening

variable {f g e : Host V → Host V} {k : OpResult → Host V → Option (Host V)}

/-- The server has sent the handle. -/
def openServer (S : Bool → Site V) (f : Host V → Host V) (v handle : V) (s : Host V) : Host V :=
  (f s).advertise (S false) v handle

/-- The client has the region. -/
def openClient (S : Bool → Site V) (f g e : Host V → Host V) (v u x : V) (s c : Host V) : Host V :=
  e (((g c).withBytes u (((f s).region (S false) v).serialize (S false).order)).deserialize (S true)
    u x)

/-- What the opening has brought the two hosts to. -/
structure Opened (S : Bool → Site V) (f g e : Host V → Host V) (v handle u x : V)
    (b : RecvBuffer V) (k : OpResult → Host V → Option (Host V)) (s c s' c' : Host V) : Prop where
  server : s' = openServer S f v handle s
  client : c' = openClient S f g e v u x s c
  run : ∀ ts : Turns V, run (opening S f g e v handle u x b k ++ ts) (some (both s c)) =
    run ts (some (both s' c'))
  refers : Refers s' c' x v
  returned : c'.returned = c.returned ++ [.recv 20 none]

/-- What a host does besides leaves these alone. -/
structure Aside (f : Host V → Host V) : Prop where
  remoteMr : ∀ h, (f h).remoteMr = h.remoteMr
  returned : ∀ h, (f h).returned = h.returned

variable (S f g e v handle u x b k) in
theorem exists_opened (s c : Host V) (hb : b = .whole u ∨ b = .view u RemoteMr.kSerializedSize)
    (hk : ∀ h, k (.recv 20 none) h = some h)
    (hu : RemoteMr.kSerializedSize ≤ ((g c).bytes u).length) (hg : Aside g) (he : Aside e)
    (hne : v ≠ handle) (hlen : ((f s).bytes v).length < 2 ^ 64) :
    ∃ s' c', Opened S f g e v handle u x b k s c s' c' := by
  refine ⟨_, _, rfl, rfl, fun ts => ?_, ?_, ?_⟩
  · unfold opening
    rw [List.cons_append, List.cons_append, List.cons_append, List.cons_append, List.nil_append,
      run_alone_false, run_alone_true,
      run_handle (u := u) (l := (f s).region (S false) v) ?_ hb hu hk, run_alone_true]
    · rfl
    · exact Function.update_self ..
  · have hregions : (openServer S f v handle s).regions =
        (v, (f s).region (S false) v) :: (f s).regions := rfl
    refine refers_of_handle hregions ?_ (?_ : _ = RemoteMr.deserialize (S true).order
      (patch ((g c).bytes u) 0 (((f s).region (S false) v).serialize (S false).order)))
    · have hv : (openServer S f v handle s).bytes v = (f s).bytes v := Function.update_of_ne hne _ _
      rw [hv]
      exact UInt64.toNat_ofNat_of_lt' hlen
    · unfold openClient
      rw [he.remoteMr]
      exact (Function.update_self ..).trans (congrArg _ (Function.update_self ..))
  · unfold openClient
    rw [he.returned]
    show (g c).returned ++ [.recv (UInt32.ofNat (LocalMr.serialize _ _).length) none] = _
    rw [LocalMr.serialize_length, hg.returned]
    rfl

theorem ordered_opening (hc : ∀ f, Clear true f ts) (ho : Ordered ts) :
    Ordered (opening S f g e v handle u x b k ++ ts) :=
  ⟨⟨fun _ => alone_comm (by decide) _ _, fun hn => absurd rfl hn⟩,
    fun _ => message_alone (by decide) _ _, hc _, ho⟩

/-- After it only the client acts. -/
theorem ordered_opening_client (h : ∀ t ∈ ts, t.party = true) :
    Ordered (opening S f g e v handle u x b k ++ ts) :=
  ordered_opening (clear_of_party h) (ordered_of_party h)

end Opening

/-- A write is permitted within the region. -/
theorem run_write {op : Host V → QpOperation}
    (hop : op c = .write (c.remote x) ∨ ∃ imm, op c = .writeWithImm (c.remote x) imm)
    (hr : Refers s c x u) (hle : (c.bytes v).length ≤ (s.bytes u).length)
    (hlen : (c.bytes v).length < 2 ^ 32) :
    run (.act true (operate S true op v) :: ts) (some (both s c)) =
      run ts (some (both (s.assign u (patch (s.bytes u) 0 (c.bytes v))) c)) := by
  rw [run_act, operate_write (u := u) (i := 0) hop hlen (hr _ hle)]
  exact congrArg (fun w => run ts (some w)) (update_both_false s c _)

/-- A read of the region's first bytes. -/
theorem run_read {op : Host V → QpOperation} (hop : op c = .read (c.remote x))
    (hr : Refers s c x u) (hle : (c.bytes v).length ≤ (s.bytes u).length)
    (hlen : (c.bytes v).length < 2 ^ 32) :
    run (.act true (operate S true op v) :: ts) (some (both s c)) =
      run ts (some (both s (c.assign v ((s.bytes u).take (c.bytes v).length)))) := by
  have htake : (c.bytes v).length = ((s.bytes u).take (c.bytes v).length).length := by
    rw [List.length_take, min_eq_left hle]
  rw [run_act, operate_read (u := u) (i := 0) hop hlen (hr _ hle), both_true]
  show run ts (some (Function.update _ _ (c.assign v (patch _ 0 (((s.bytes u).drop 0).take _))))) = _
  rw [List.drop_zero, patch_all htake, update_both_true]

section Atomic

variable {op : Host V → QpOperation}

/-- `fetch_and_add` on a number of the server. -/
theorem run_fetchAndAdd {add : UInt64} (hop : op c = .fetchAndAdd (c.remote x) add)
    (hr : Refers s c x u) (hu : (s.bytes u).length = 8) (hv : (c.bytes v).length = 8) :
    run (.act true (operate S true op v) :: ts) (some (both s c)) =
      run ts (some (both
        (s.assign u (memBytes (S false).order 8 (s.word (S false) u 0 + add).toNat))
        (c.assign v (memBytes (S true).order 8 (s.word (S false) u 0).toNat)))) := by
  have hf : s.find (c.remote x).addr (c.remote x).rkey 8 = some (u, 0) := hr 8 hu.ge
  rw [run_act]
  unfold operate
  rw [Option.bind_some, both_true, hop, request_fetchAndAdd]
  simp only [execute, Bool.not_true, both_false, hf, Option.bind_eq_bind, Option.bind_some,
    update_both_false, both_true, update_both_true, Option.pure_def]
  rw [patch_all (hu.trans (memBytes_length ..).symm), patch_all (hv.trans (memBytes_length ..).symm)]

/-- `compare_and_swap`. -/
theorem run_compareAndSwap {compare swap : UInt64}
    (hop : op c = .compareAndSwap (c.remote x) compare swap) (hr : Refers s c x u)
    (hu : (s.bytes u).length = 8) (hv : (c.bytes v).length = 8) :
    run (.act true (operate S true op v) :: ts) (some (both s c)) =
      run ts (some (both
        (s.assign u (memBytes (S false).order 8 (if s.word (S false) u 0 = compare then swap
          else s.word (S false) u 0).toNat))
        (c.assign v (memBytes (S true).order 8 (s.word (S false) u 0).toNat)))) := by
  have hf : s.find (c.remote x).addr (c.remote x).rkey 8 = some (u, 0) := hr 8 hu.ge
  rw [run_act]
  unfold operate
  rw [Option.bind_some, both_true, hop, request_compareAndSwap]
  simp only [execute, Bool.not_true, both_false, hf, Option.bind_eq_bind, Option.bind_some,
    update_both_false, both_true, update_both_true, Option.pure_def]
  rw [patch_all (hu.trans (memBytes_length ..).symm), patch_all (hv.trans (memBytes_length ..).symm)]

end Atomic

/-- Bytes and immediate data have come. -/
def Host.withImm (h : Host V) (u : V) (bs : List UInt8) (imm : UInt32) : Host V :=
  { h.assign u (patch (h.bytes u) 0 bs) with
    returned := h.returned ++ [.recv (UInt32.ofNat bs.length) (some imm)] }

/-- **A write with immediate data**: the server's recv returns when the bytes are there. -/
theorem run_writeWithImm {imm : UInt32} {k : OpResult → Host V → Option (Host V)}
    (hr : Refers s c x u) (hle : (c.bytes v).length ≤ (s.bytes u).length)
    (hlen : (c.bytes v).length < 2 ^ 32) :
    run (.act true (operate S true (fun h => .writeWithImm (h.remote x) imm) v) ::
        .message true (message S true (fun h => .writeWithImm (h.remote x) imm) v)
          (received false b k) :: ts) (some (both s c)) =
      run ts ((k (.recv (UInt32.ofNat (c.bytes v).length)
          (some (carried (S true).order (S false).order imm)))
        (s.withImm u (c.bytes v) (carried (S true).order (S false).order imm))).map
          fun s' => both s' c) := by
  rw [run_write (Or.inr ⟨imm, rfl⟩) hr hle hlen, run_message, message_writeWithImm hlen,
    received_imm rfl]
  simp only [update_both_false]
  rfl

omit [DecidableEq V] in
/-- Only the regions and the length matter. -/
theorem Refers.congr {s' : Host V} (h : Refers s c x v) (hr : s'.regions = s.regions)
    (hl : (s'.bytes v).length = (s.bytes v).length) : Refers s' c x v := by
  intro n hn
  unfold Host.find
  rw [hr]
  exact h n (hl ▸ hn)

end Handles

end Rdmapp.Sessions
