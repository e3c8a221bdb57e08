/-
  File:      Rdmapp/Sessions/Helloworld.lean
  Subject:   `helloworld_handler.cc`: a greeting each way, a region read and written, a counter added
             to and compared, a large region written.

  The client writes what it has fetched, the value before its addition, over the sum; so its
  `compare_and_swap` compares with a number that is not there (`helloworld_session`).
-/
import Rdmapp.Sessions

namespace Rdmapp.Sessions.Helloworld

open Lib Choreography Delivery

inductive Var where
  | buffer
  | serialized
  | counter
  | counterSerialized
  /-- The server's buffer after it has grown. -/
  | large
  | largeSerialized
  | localBuffer
  | zeros
  deriving DecidableEq

def msg : List UInt8 := "hello".toList.map fun ch => ch.val.toUInt8

def resp : List UInt8 := "world".toList.map fun ch => ch.val.toUInt8

/-! ## 1. The coroutines -/

/-- `std::byte v[remote_mr::kSerializedSize]`. -/
def declare (v : Var) (h : Host Var) : Host Var :=
  h.assign v (resize RemoteMr.kSerializedSize (h.bytes v))

variable (S : Bool → Site Var)

/-- `uint64_t counter = n`. -/
def setCounter (p : Bool) (n : UInt64) (h : Host Var) : Host Var :=
  h.assign .counter (memBytes (S p).order 8 n.toNat)

/-- `buffer.resize(65536)`. -/
def grow (h : Host Var) : Host Var := h.assign .large (resize 65536 (h.bytes .buffer))

/-- `std::vector<std::byte> local_buffer(2000)`. -/
def declareLocal (h : Host Var) : Host Var :=
  (h.assign .localBuffer (List.replicate 2000 0)).regMr (S true) .localBuffer

/-- `std::vector<std::byte>(9987)`. -/
def declareZeros (h : Host Var) : Host Var := h.assign .zeros (List.replicate 9987 0)

/-- `handle_qp`. -/
def handleQp : Program Var :=
  [ -- Send/Recv
    .act (alone false fun h => h.assign .buffer msg),
    send S false .buffer,
    .act (alone false fun h => h.assign .buffer (resize resp.length (h.bytes .buffer))),
    recv false (.whole .buffer) ignore,
    -- Read/Write
    .act (alone false fun h => (h.assign .buffer msg).advertise (S false) .buffer .serialized),
    send S false .serialized,
    recv false .null assertImm,
    -- Atomic
    .act (alone false fun h =>
      (setCounter S false 42 h).advertise (S false) .counter .counterSerialized),
    send S false .counterSerialized,
    recv false (.whole .buffer) assertImm,
    recv false (.whole .buffer) assertImm,
    .act (alone false fun h => (grow h).advertise (S false) .large .largeSerialized),
    send S false .largeSerialized,
    recv false .null assertImm]

def client : Program Var :=
  [ .act (alone true fun h => h.assign .buffer (resize msg.length [])),
    recv true (.whole .buffer) ignore,
    .act (alone true fun h => h.assign .buffer resp),
    send S true .buffer,
    .act (alone true (declare .serialized)),
    recv true (.whole .serialized) ignore,
    .act (alone true fun h => (fun h => h.assign .buffer (resize msg.length (h.bytes .buffer)))
      (h.deserialize (S true) .serialized .buffer)),
    .act (operate S true (fun h => .read (h.remote .buffer)) .buffer),
    .act (alone true fun h => h.assign .buffer resp)] ++
  writeWithImm S true .buffer .buffer 1 ++
  [ .act (alone true (declare .counterSerialized)),
    recv true (.whole .counterSerialized) ignore,
    .act (alone true fun h =>
      setCounter S true 0 (h.deserialize (S true) .counterSerialized .counter)),
    .act (operate S true (fun h => .fetchAndAdd (h.remote .counter) 1) .counter)] ++
  writeWithImm S true .counter .counter 1 ++
  [ .act (operate S true (fun h => .compareAndSwap (h.remote .counter) 43 4422) .counter)] ++
  writeWithImm S true .counter .counter 1 ++
  [ .act (alone true (declare .largeSerialized)),
    recv true (.whole .largeSerialized) ignore,
    .act (alone true fun h => declareLocal S (h.deserialize (S true) .largeSerialized .large)),
    .act (operate S true (fun h => .write (h.remote .large)) .localBuffer),
    .act (operate S true (fun h => .read (h.remote .large)) .localBuffer),
    .act (alone true declareZeros)] ++
  writeWithImm S true .large .zeros 2099

def programs (p : Bool) : Program Var := bif p then client S else handleQp S

/-! ## 2. Their turns -/

/-- A write with immediate data, and its recv. -/
def write (remote v : Var) (imm : UInt32) (b : RecvBuffer Var) : Turns Var :=
  [.act true (operate S true (fun h => .writeWithImm (h.remote remote) imm) v),
    .message true (message S true (fun h => .writeWithImm (h.remote remote) imm) v)
      (received false b assertImm)]

def greeting : Turns Var :=
  [.act false (alone false fun h => h.assign .buffer msg),
    .act true (alone true fun h => h.assign .buffer (resize msg.length [])),
    .message false (message S false (fun _ => .send) .buffer)
      (received true (.whole .buffer) ignore),
    .act false (alone false fun h => h.assign .buffer (resize resp.length (h.bytes .buffer))),
    .act true (alone true fun h => h.assign .buffer resp),
    .message true (message S true (fun _ => .send) .buffer)
      (received false (.whole .buffer) ignore)]

def readWrite : Turns Var :=
  opening S (fun h => h.assign .buffer msg) (declare .serialized)
    (fun h => h.assign .buffer (resize msg.length (h.bytes .buffer)))
    .buffer .serialized .serialized .buffer (.whole .serialized) ignore ++
  (.act true (operate S true (fun h => .read (h.remote .buffer)) .buffer) ::
    .act true (alone true fun h => h.assign .buffer resp) :: write S .buffer .buffer 1 .null)

def atomic : Turns Var :=
  opening S (setCounter S false 42) (declare .counterSerialized) (setCounter S true 0)
    .counter .counterSerialized .counterSerialized .counter (.whole .counterSerialized) ignore ++
  (.act true (operate S true (fun h => .fetchAndAdd (h.remote .counter) 1) .counter) ::
    write S .counter .counter 1 (.whole .buffer) ++
  .act true (operate S true (fun h => .compareAndSwap (h.remote .counter) 43 4422) .counter) ::
    write S .counter .counter 1 (.whole .buffer))

def largeWrite : Turns Var :=
  opening S grow (declare .largeSerialized) (declareLocal S)
    .large .largeSerialized .largeSerialized .large (.whole .largeSerialized) ignore ++
  (.act true (operate S true (fun h => .write (h.remote .large)) .localBuffer) ::
    .act true (operate S true (fun h => .read (h.remote .large)) .localBuffer) ::
    .act true (alone true declareZeros) ::
    write S .large .zeros 2099 .null)

def turns : Turns Var := greeting S ++ (readWrite S ++ (atomic S ++ largeWrite S))

variable {S}

theorem project_turns (p : Bool) : project p (turns S) = programs S p := by
  cases p <;> rfl

section Ordered

variable {f g e : Host Var → Host Var} {v handle u x : Var} {b : RecvBuffer Var}
  {k : OpResult → Host Var → Option (Host Var)} {ts us : Turns Var}

/-- Both act, then a message. -/
theorem ordered_both {q : Bool} {op : Host Var → QpOperation}
    {r : Message → Option (World Var) → Option (World Var)} (ho : Ordered ts) :
    Ordered (.act false (alone false f) :: .act true (alone true g) ::
      .message q (message S q op v) r :: ts) := by
  have hclear : ∀ (p : Bool) (h : Host Var → Host Var),
      Clear p (alone p h) (.message q (message S q op v) r :: ts) :=
    fun p h hq => message_alone hq h op
  exact ⟨⟨fun _ => alone_comm (by decide) f g, hclear false f⟩, hclear true g, ho⟩

/-- An opening and what the client does then. -/
theorem ordered_phase (h : Block true ts) (ho : Ordered us) :
    Ordered ((opening S f g e v handle u x b k ++ ts) ++ us) := by
  rw [List.append_assoc]
  exact ordered_opening (clear_block h) (ordered_block h ho)

end Ordered

theorem ordered_turns : Ordered (turns S) := by
  have hlarge : Ordered (largeWrite S ++ []) :=
    ordered_phase ⟨rfl, rfl, rfl, rfl, rfl, Or.inl rfl⟩ trivial
  rw [List.append_nil] at hlarge
  have hatomic : Ordered (atomic S ++ largeWrite S) :=
    ordered_phase ⟨rfl, rfl, rfl, Or.inr ⟨rfl, rfl, rfl, Or.inl rfl⟩⟩ hlarge
  have hreadWrite : Ordered (readWrite S ++ (atomic S ++ largeWrite S)) :=
    ordered_phase ⟨rfl, rfl, rfl, rfl, Or.inl rfl⟩ hatomic
  unfold turns greeting
  simp only [List.cons_append, List.nil_append]
  exact ordered_both (ordered_both hreadWrite)

theorem keeps_programs (p : Bool) : ∀ x ∈ programs S p, x.Keeps (· = none) := by
  cases p with
  | false => simp [programs, handleQp, send]
  | true => simp [programs, client, send, writeWithImm]

/-! ## 3. What they do -/

variable {s c : Host Var} {ts : Turns Var}

theorem run_greeting (ts : Turns Var) (s c : Host Var) :
    ∃ s' c', run (greeting S ++ ts) (some (both s c)) = run ts (some (both s' c')) ∧
      s'.returned = s.returned ++ [.recv 5 none] ∧ c'.returned = c.returned ++ [.recv 5 none] := by
  let s₁ := s.assign .buffer msg
  let c₁ := (c.assign .buffer (resize msg.length [])).withBytes .buffer msg
  let s₂ := s₁.assign .buffer (resize resp.length msg)
  let c₂ := c₁.assign .buffer resp
  refine ⟨s₂.withBytes .buffer resp, c₂, ?_, rfl, rfl⟩
  unfold greeting
  simp only [List.cons_append, List.nil_append]
  rw [run_alone_false, run_alone_true, run_send_false (u := Var.buffer) ?_ (Or.inl rfl) ?_ rfl,
    run_alone_false, run_alone_true, run_send_true (u := Var.buffer) ?_ (Or.inl rfl) ?_ rfl]
  · rfl
  · show msg.length < 2 ^ 32
    decide
  · show msg.length ≤ (resize msg.length []).length
    rw [resize_length]
  · show resp.length < 2 ^ 32
    decide
  · show resp.length ≤ (resize resp.length msg).length
    rw [resize_length]

/-- A write with immediate data that the server asserts. -/
theorem run_assertedWrite {remote u v : Var} {imm : UInt32} {b : RecvBuffer Var}
    (hr : Refers s c remote u) (hle : (c.bytes v).length ≤ (s.bytes u).length)
    (hlen : (c.bytes v).length < 2 ^ 32) :
    run (write S remote v imm b ++ ts) (some (both s c)) =
      run ts (some (both (s.withImm u (c.bytes v) (carried (S true).order (S false).order imm)) c)) :=
  run_writeWithImm hr hle hlen

theorem declare_length (v : Var) (h : Host Var) :
    RemoteMr.kSerializedSize ≤ ((declare v h).bytes v).length := by
  have hv : (declare v h).bytes v = resize RemoteMr.kSerializedSize (h.bytes v) :=
    Function.update_self ..
  rw [hv, resize_length]

theorem aside_declare (v : Var) : Aside (declare v) := ⟨fun _ => rfl, fun _ => rfl⟩

theorem run_readWrite (ts : Turns Var) (s c : Host Var) :
    ∃ s' c', run (readWrite S ++ ts) (some (both s c)) = run ts (some (both s' c')) ∧
      s'.bytes .buffer = resp ∧ s'.returned = s.returned ++
        [.recv 5 (some (carried (S true).order (S false).order 1))] ∧
      c'.returned = c.returned ++ [.recv 20 none] := by
  obtain ⟨s₁, c₁, h⟩ := exists_opened S .serialized .buffer .buffer .serialized (.whole .serialized)
    (fun h => h.assign .buffer msg) (declare .serialized)
    (fun h => h.assign .buffer (resize msg.length (h.bytes .buffer))) ignore s c (Or.inl rfl)
    (fun _ => rfl) (declare_length .serialized c) (aside_declare _) ⟨fun _ => rfl, fun _ => rfl⟩ nofun
    (show msg.length < 2 ^ 64 by decide)
  obtain ⟨hs, hc, hrun, hrefers, hret⟩ := h
  have hbytes : s₁.bytes .buffer = msg := by
    rw [hs]
    rfl
  have hclen : (c₁.bytes .buffer).length = msg.length := by
    rw [hc]
    exact resize_length ..
  let c₂ := c₁.assign .buffer ((s₁.bytes .buffer).take (c₁.bytes .buffer).length)
  let c₃ := c₂.assign .buffer resp
  have hpatch : patch msg 0 resp = resp := patch_all rfl
  have hwrite : run (write S .buffer .buffer 1 .null ++ ts) (some (both s₁ c₃)) =
      run ts (some (both (s₁.withImm .buffer resp (carried (S true).order (S false).order 1)) c₃)) :=
    run_assertedWrite hrefers (show resp.length ≤ (s₁.bytes .buffer).length by rw [hbytes]; rfl)
      (show resp.length < 2 ^ 32 by decide)
  refine ⟨s₁.withImm .buffer resp (carried (S true).order (S false).order 1), c₃, ?_, ?_, ?_, hret⟩
  · unfold readWrite
    rw [List.append_assoc, hrun, List.cons_append, List.cons_append,
      run_read rfl hrefers (by rw [hclen, hbytes]) (by rw [hclen]; decide), run_alone_true, hwrite]
  · show patch (s₁.bytes .buffer) 0 resp = resp
    rw [hbytes, hpatch]
  · show s₁.returned ++ [_] = _
    rw [hs]
    rfl

/-- The number that the `compare_and_swap` finds: 42, as the other host has written it. -/
def found (S : Bool → Site Var) : UInt64 :=
  UInt64.ofNat (memVal (S false).order (memBytes (S true).order 8 42))

/-- It is not the sum. -/
theorem found_ne (S : Bool → Site Var) : found S ≠ 43 := by
  unfold found
  generalize (S false).order = o
  generalize (S true).order = o'
  cases o <;> cases o' <;> decide

/-- What the client writes of it is 42 again. -/
theorem found_back (S : Bool → Site Var) :
    UInt64.ofNat (memVal (S false).order (memBytes (S true).order 8 (found S).toNat)) = 42 := by
  unfold found
  generalize (S false).order = o
  generalize (S true).order = o'
  cases o <;> cases o' <;> decide

theorem word_of_bytes {T : Site Var} {h : Host Var} {v : Var} {o : ByteOrder} {n : Nat}
    (hb : h.bytes v = memBytes o 8 n) :
    h.word T v 0 = UInt64.ofNat (memVal T.order (memBytes o 8 n)) := by
  unfold Host.word
  rw [hb, List.drop_zero, List.take_of_length_le (memBytes_length o 8 n).le]

/-- `fetch_and_add`, and what it has fetched written back. -/
theorem run_addWrite (hr : Refers s c .counter .counter)
    (hs : s.bytes .counter = memBytes (S false).order 8 42) (hc : (c.bytes .counter).length = 8) :
    run (.act true (operate S true (fun h => .fetchAndAdd (h.remote .counter) 1) .counter) ::
        (write S .counter .counter 1 (.whole .buffer) ++ ts)) (some (both s c)) =
      run ts (some (both
        ((s.assign .counter (memBytes (S false).order 8 43)).withImm .counter
          (memBytes (S true).order 8 42) (carried (S true).order (S false).order 1))
        (c.assign .counter (memBytes (S true).order 8 42)))) := by
  have hslen : (s.bytes .counter).length = 8 := by
    rw [hs]
    exact memBytes_length ..
  have hword : s.word (S false) .counter 0 = 42 := by
    rw [word_of_bytes hs, memVal_memBytes]
    rfl
  rw [run_fetchAndAdd rfl hr hslen hc, hword]
  refine run_assertedWrite (u := Var.counter) (hr.congr rfl ?_) ?_ ?_
  · exact (memBytes_length ..).trans hslen.symm
  · exact ((memBytes_length ..).trans (memBytes_length ..).symm).le
  · show (memBytes (S true).order 8 42).length < 2 ^ 32
    rw [memBytes_length]
    decide

/-- `compare_and_swap`, and what it has fetched written back. -/
theorem run_swapWrite (hr : Refers s c .counter .counter)
    (hs : s.bytes .counter = memBytes (S true).order 8 42) (hc : (c.bytes .counter).length = 8) :
    run (.act true (operate S true (fun h => .compareAndSwap (h.remote .counter) 43 4422) .counter) ::
        (write S .counter .counter 1 (.whole .buffer) ++ ts)) (some (both s c)) =
      run ts (some (both
        ((s.assign .counter (memBytes (S false).order 8 (found S).toNat)).withImm .counter
          (memBytes (S true).order 8 (found S).toNat)
          (carried (S true).order (S false).order 1))
        (c.assign .counter (memBytes (S true).order 8 (found S).toNat)))) := by
  have hslen : (s.bytes .counter).length = 8 := by
    rw [hs]
    exact memBytes_length ..
  have hword : s.word (S false) .counter 0 = found S := word_of_bytes hs
  rw [run_compareAndSwap rfl hr hslen hc, hword, if_neg (found_ne S)]
  refine run_assertedWrite (u := Var.counter) (hr.congr rfl ?_) ?_ ?_
  · exact (memBytes_length ..).trans hslen.symm
  · exact ((memBytes_length ..).trans (memBytes_length ..).symm).le
  · show (memBytes (S true).order 8 (found S).toNat).length < 2 ^ 32
    rw [memBytes_length]
    decide

/-- **The comparison fails**: the counter is 42 when the client has added one to it, and stays so. -/
theorem run_atomic (ts : Turns Var) (s c : Host Var) :
    ∃ s' c', run (atomic S ++ ts) (some (both s c)) = run ts (some (both s' c')) ∧
      s'.word (S false) .counter 0 = 42 ∧
      c'.bytes .counter = memBytes (S true).order 8 (found S).toNat ∧
      s'.bytes .buffer = s.bytes .buffer ∧ s'.returned = s.returned ++ List.replicate 2
        (.recv 8 (some (carried (S true).order (S false).order 1))) ∧
      c'.returned = c.returned ++ [.recv 20 none] := by
  obtain ⟨s₁, c₁, h⟩ := exists_opened S .counterSerialized .counter .counter .counterSerialized
    (.whole .counterSerialized) (setCounter S false 42) (declare .counterSerialized)
    (setCounter S true 0) ignore s c (Or.inl rfl) (fun _ => rfl) (declare_length _ c)
    (aside_declare _) ⟨fun _ => rfl, fun _ => rfl⟩ nofun
    (show (memBytes (S false).order 8 42).length < 2 ^ 64 by rw [memBytes_length]; decide)
  obtain ⟨hs, hc, hrun, hrefers, hret⟩ := h
  let imm := carried (S true).order (S false).order 1
  have hbytes : s₁.bytes .counter = memBytes (S false).order 8 42 := by
    rw [hs]
    rfl
  have hslen : (s₁.bytes .counter).length = 8 := by
    rw [hbytes]
    exact memBytes_length ..
  have hclen : (c₁.bytes .counter).length = 8 := by
    rw [hc]
    exact memBytes_length ..
  let s₂ := (s₁.assign .counter (memBytes (S false).order 8 43)).withImm .counter
    (memBytes (S true).order 8 42) imm
  let c₂ := c₁.assign .counter (memBytes (S true).order 8 42)
  have hbytes₂ : s₂.bytes .counter = memBytes (S true).order 8 42 :=
    patch_all ((memBytes_length ..).trans (memBytes_length ..).symm)
  have hrefers₂ : Refers s₂ c₂ .counter .counter := by
    refine Refers.congr (s := s₁) hrefers rfl ?_
    rw [hbytes₂, hslen, memBytes_length]
  let s₃ := (s₂.assign .counter (memBytes (S false).order 8 (found S).toNat)).withImm .counter
    (memBytes (S true).order 8 (found S).toNat) imm
  have hbytes₃ : s₃.bytes .counter = memBytes (S true).order 8 (found S).toNat :=
    patch_all ((memBytes_length ..).trans (memBytes_length ..).symm)
  refine ⟨s₃, c₂.assign .counter (memBytes (S true).order 8 (found S).toNat), ?_, ?_, rfl, ?_, ?_,
    hret⟩
  · unfold atomic
    rw [List.append_assoc, hrun, List.append_assoc, List.cons_append,
      run_addWrite hrefers hbytes hclen, List.cons_append,
      run_swapWrite hrefers₂ hbytes₂ (memBytes_length ..)]
  · rw [word_of_bytes hbytes₃, found_back]
  · show s₁.bytes .buffer = _
    rw [hs]
    rfl
  · show s₁.returned ++ [.recv (UInt32.ofNat (memBytes (S true).order 8 42).length) (some imm)] ++
      [.recv (UInt32.ofNat (memBytes (S true).order 8 (found S).toNat).length) (some imm)] = _
    rw [hs, memBytes_length, memBytes_length, List.append_assoc]
    rfl

/-- Behind what was there the grown buffer is zero. -/
theorem drop_resize {n k : Nat} {old : List UInt8} (h : old.length ≤ k) :
    ∀ x ∈ (resize n old).drop k, x = 0 := by
  unfold resize
  induction k generalizing n old with
  | zero =>
    obtain rfl := List.length_eq_zero_iff.mp (Nat.le_zero.mp h)
    rw [List.takeD_nil, List.drop_zero]
    exact fun x hx => List.eq_of_mem_replicate hx
  | succ k ih =>
    cases n with
    | zero => simp
    | succ n =>
      rw [List.takeD_succ, List.drop_succ_cons]
      exact ih (by rw [List.length_tail]; omega)

/-- The client writes its local buffer, reads it back, and writes zeros. -/
theorem run_largeBlock (ts : Turns Var) (hr : Refers s c .large .large)
    (hs : (s.bytes .large).length = 65536)
    (hc : (c.bytes .localBuffer).length = 2000) :
    ∃ s' c', run (.act true (operate S true (fun h => .write (h.remote .large)) .localBuffer) ::
        .act true (operate S true (fun h => .read (h.remote .large)) .localBuffer) ::
        .act true (alone true declareZeros) :: (write S .large .zeros 2099 .null ++ ts))
        (some (both s c)) = run ts (some (both s' c')) ∧
      s'.bytes = Function.update s.bytes .large (patch (patch (s.bytes .large) 0
        (c.bytes .localBuffer)) 0 (List.replicate 9987 0)) ∧
      c'.bytes .counter = c.bytes .counter ∧ s'.returned = s.returned ++
        [.recv 9987 (some (carried (S true).order (S false).order 2099))] ∧
      c'.returned = c.returned := by
  obtain ⟨z, hz⟩ : ∃ z : List UInt8, z = List.replicate 9987 0 := ⟨_, rfl⟩
  have hzlen : z.length = 9987 := by rw [hz, List.length_replicate]
  let written := patch (s.bytes .large) 0 (c.bytes .localBuffer)
  let s₁ := s.assign .large written
  let c₁ := c.assign .localBuffer ((s₁.bytes .large).take (c.bytes .localBuffer).length)
  let imm := carried (S true).order (S false).order 2099
  have hle : (c.bytes .localBuffer).length ≤ (s.bytes .large).length := by
    rw [hc, hs]
    decide
  have hlen₁ : (s₁.bytes .large).length = (s.bytes .large).length := patch_length hle
  have hshort : (c.bytes .localBuffer).length < 2 ^ 32 := by
    rw [hc]
    decide
  have hrefers₁ : Refers s₁ c .large .large := hr.congr rfl hlen₁
  have hzeros : declareZeros c₁ = c₁.assign .zeros z := by rw [hz]; rfl
  refine ⟨s₁.withImm .large z imm, c₁.assign .zeros z, ?_, ?_, rfl, ?_, rfl⟩
  · rw [run_write (Or.inl rfl) hr hle hshort, run_read rfl hrefers₁ (hle.trans hlen₁.ge) hshort,
      run_alone_true]
    show run _ (some (both s₁ (declareZeros c₁))) = _
    rw [hzeros]
    refine run_assertedWrite hrefers₁ ?_ ?_
    · show z.length ≤ (s₁.bytes .large).length
      rw [hzlen, hlen₁, hs]
      decide
    · show z.length < 2 ^ 32
      rw [hzlen]
      decide
  · show Function.update (Function.update s.bytes .large written) .large
      (patch (Function.update s.bytes .large written .large) 0 z) = _
    rw [Function.update_idem, Function.update_self, hz]
  · show s.returned ++ [.recv (UInt32.ofNat z.length) (some imm)] = _
    rw [hzlen]
    rfl

/-- All zeros. -/
theorem zeros_of_patch {old z : List UInt8} (hb : old.length ≤ 9987) (hz : ∀ x ∈ z, x = 0) :
    ∀ x ∈ patch (patch (resize 65536 old) 0 z) 0 (List.replicate 9987 0), x = 0 := by
  intro x hx
  rw [patch_zero, patch_zero, List.mem_append, List.length_replicate] at hx
  rcases hx with hx | hx
  · exact List.eq_of_mem_replicate hx
  · rw [List.drop_append, List.mem_append, List.drop_drop] at hx
    rcases hx with hx | hx
    · exact hz x (List.mem_of_mem_drop hx)
    · exact drop_resize (by omega) x hx

theorem run_largeWrite (ts : Turns Var) (s c : Host Var) (hlen : (s.bytes .buffer).length ≤ 9987) :
    ∃ s' c', run (largeWrite S ++ ts) (some (both s c)) = run ts (some (both s' c')) ∧
      s'.bytes .large = List.replicate 65536 0 ∧ s'.bytes .buffer = s.bytes .buffer ∧
      s'.bytes .counter = s.bytes .counter ∧ c'.bytes .counter = c.bytes .counter ∧
      s'.returned = s.returned ++
        [.recv 9987 (some (carried (S true).order (S false).order 2099))] ∧
      c'.returned = c.returned ++ [.recv 20 none] := by
  have hgrown : (resize 65536 (s.bytes .buffer)).length = 65536 := resize_length ..
  obtain ⟨s₁, c₁, h⟩ := exists_opened S .largeSerialized .large .large .largeSerialized
    (.whole .largeSerialized) grow (declare .largeSerialized) (declareLocal S) ignore s c
    (Or.inl rfl) (fun _ => rfl) (declare_length _ c) (aside_declare _)
    ⟨fun _ => rfl, fun _ => rfl⟩ nofun (hgrown.trans_lt (by decide))
  obtain ⟨hs, hc, hrun, hrefers, hret⟩ := h
  obtain ⟨z, hz⟩ : ∃ z : List UInt8, z = List.replicate 2000 0 := ⟨_, rfl⟩
  have hbytes : s₁.bytes .large = resize 65536 (s.bytes .buffer) := by
    rw [hs]
    rfl
  have hlocal : c₁.bytes .localBuffer = z := by
    rw [hc, hz]
    rfl
  obtain ⟨s₂, c₂, hblock, hbytes₂, hcounter, hret₂, hret₂'⟩ := run_largeBlock (S := S) ts
    hrefers (hbytes ▸ hgrown) (by rw [hlocal, hz, List.length_replicate])
  refine ⟨s₂, c₂, ?_, ?_, ?_, ?_, ?_, ?_, hret₂'.trans hret⟩
  · unfold largeWrite
    rw [List.append_assoc, hrun]
    exact hblock
  · have hzero : ∀ x ∈ z, x = 0 := fun x hx => List.eq_of_mem_replicate (hz ▸ hx)
    rw [hbytes₂, Function.update_self, hbytes, hlocal]
    refine List.eq_replicate_iff.mpr ⟨?_, zeros_of_patch hlen hzero⟩
    have hfirst : (patch (resize 65536 (s.bytes .buffer)) 0 z).length = 65536 := by
      rw [patch_length, hgrown]
      rw [hgrown, hz, List.length_replicate]
      decide
    rw [patch_length, hfirst]
    rw [hfirst, List.length_replicate]
    decide
  · rw [hbytes₂, hs]
    rfl
  · rw [hbytes₂, hs]
    rfl
  · rw [hcounter, hc]
    rfl
  · rw [hret₂, hs]
    rfl

/-! ## 4. The session -/

/-- **The session of `helloworld_handler.cc`**: in every interleaving of the two coroutines, between
    hosts of any byte orders and with any addresses and keys, none waits for ever or fails. In the end
    the server has what the client wrote to its regions, but the counter is 42 as at the start: the
    client has written what it had fetched over its own addition, so that `compare_and_swap` found no
    43 and swapped nothing. The recvs have returned each message once and in order. -/
theorem helloworld_session (S : Bool → Site Var) (s c : Host Var) :
    ∃ s' c' : Host Var, Session (programs S) (both s c) (both s' c') ∧
      s'.bytes .buffer = resp ∧ s'.bytes .large = List.replicate 65536 0 ∧
      s'.word (S false) .counter 0 = 42 ∧ c'.word (S true) .counter 0 ≠ 43 ∧
      s'.returned = s.returned ++ .recv 5 none :: ([(5, 1), (8, 1), (8, 1), (9987, 2099)].map
        fun m => .recv m.1 (some (carried (S true).order (S false).order m.2))) ∧
      c'.returned = c.returned ++ .recv 5 none :: List.replicate 3 (.recv 20 none) := by
  obtain ⟨s₁, c₁, hrun₁, hs₁, hc₁⟩ := run_greeting (S := S)
    (readWrite S ++ (atomic S ++ largeWrite S)) s c
  obtain ⟨s₂, c₂, hrun₂, hb₂, hs₂, hc₂⟩ := run_readWrite (S := S)
    (atomic S ++ largeWrite S) s₁ c₁
  obtain ⟨s₃, c₃, hrun₃, hword, hfound, hb₃, hs₃, hc₃⟩ := run_atomic (S := S)
    (largeWrite S) s₂ c₂
  obtain ⟨s', c', hrun₄, hlarge, hb, hcounter, hcounter', hs, hc⟩ := run_largeWrite (S := S)
    [] s₃ c₃ (by rw [hb₃, hb₂]; decide)
  rw [List.append_nil] at hrun₄
  have hrun : run (turns S) (some (both s c)) = some (both s' c') :=
    hrun₁.trans (hrun₂.trans (hrun₃.trans hrun₄))
  refine ⟨s', c', session_of_turns project_turns ordered_turns hrun keeps_programs,
    hb.trans (hb₃.trans hb₂), hlarge, ?_, ?_, ?_, ?_⟩
  · unfold Host.word
    rw [hcounter]
    exact hword
  · have hlt : (found S).toNat < 256 ^ 8 := (found S).toNat_lt
    rw [word_of_bytes (hcounter'.trans hfound), memVal_memBytes, Nat.mod_eq_of_lt hlt,
      UInt64.ofNat_toNat]
    exact found_ne S
  · rw [hs, hs₃, hs₂, hs₁]
    simp
  · rw [hc, hc₃, hc₂, hc₁]
    simp

end Rdmapp.Sessions.Helloworld
