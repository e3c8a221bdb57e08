/-
  File:      Rdmapp/Sessions/Programs.lean
  Subject:   `latency.cc`, `latency_raw.cc`, `rpc.cc` and `write_bw.cc`: a region is advertised, then
             the client writes.

  `latency_session`: each message meets the recv that is meant for it, however many there are. In the
  other two the server looks at the immediate data, and the session goes through exactly if the hosts
  have one byte order (`rpc_session`, `write_bw_session`).
-/
import Rdmapp.Sessions

namespace Rdmapp.Sessions

open Lib Choreography Delivery

inductive Var where
  | buffer
  /-- `local_mr_serialized` and `remote_mr_serialized`. -/
  | serialized
  deriving DecidableEq

/-- `std::byte remote_mr_serialized[remote_mr::kSerializedSize]`. -/
def declareHandle (h : Host Var) : Host Var :=
  h.assign .serialized (resize RemoteMr.kSerializedSize (h.bytes .serialized))

/-! ## 1. `latency.cc` -/

namespace Latency

def kMessageSize : Nat := 4096

/-- `std::array<std::byte, kMessageSize> buffer`. -/
def declare (h : Host Var) : Host Var := h.assign .buffer (resize kMessageSize (h.bytes .buffer))

/-- `assert(nbytes == remote_mr::kSerializedSize)`. -/
def assertSize (r : OpResult) (h : Host Var) : Option (Host Var) :=
  match r with
  | .recv nbytes _ => if nbytes.toNat = RemoteMr.kSerializedSize then some h else none
  | .send _ => none

/-- `std::fill(buffer.begin(), buffer.end(), std::byte(0xdd))`. -/
def fill (h : Host Var) : Host Var := h.assign .buffer (List.replicate kMessageSize 0xdd)

variable (S : Bool → Site Var) (kSendCount : Nat)

/-- `handler`. -/
def handler : Program Var :=
  [.act (alone false fun h => (declare h).advertise (S false) .buffer .serialized),
    send S false .serialized] ++
  loop kSendCount (fun _ => [recv false .null ignore]) ++
  loop kSendCount (fun _ => [recv false (.whole .buffer) ignore])

/-- `client_worker`. The handle comes into the first bytes of the buffer. -/
def clientWorker : Program Var :=
  [.act (alone true fun h => (declare h).regMr (S true) .buffer),
    recv true (.view .buffer RemoteMr.kSerializedSize) assertSize,
    .act (alone true fun h => fill (h.deserialize (S true) .buffer .buffer))] ++
  loop kSendCount (fun i => writeWithImm S true .buffer .buffer (UInt32.ofNat i)) ++
  loop kSendCount fun _ => [send S true .buffer]

def programs (p : Bool) : Program Var :=
  bif p then clientWorker S kSendCount else handler S kSendCount

/-- The `i`-th write, and its recv. -/
def write (i : Nat) : Turns Var :=
  [.act true (operate S true (fun h => .writeWithImm (h.remote .buffer) (UInt32.ofNat i)) .buffer),
    .message true
      (message S true (fun h => .writeWithImm (h.remote .buffer) (UInt32.ofNat i)) .buffer)
      (received false .null ignore)]

def sending (_ : Nat) : Turns Var :=
  [.message true (message S true (fun _ => .send) .buffer) (received false (.whole .buffer) ignore)]

def turns : Turns Var :=
  opening S declare (fun h => (declare h).regMr (S true) .buffer) fill .buffer .serialized .buffer
    .buffer (.view .buffer RemoteMr.kSerializedSize) assertSize ++
  (loop kSendCount (write S) ++ loop kSendCount (sending S))

variable {S kSendCount}

theorem project_turns (p : Bool) : project p (turns S kSendCount) = programs S kSendCount p := by
  unfold turns
  rw [project_append, project_append, project_loop, project_loop, ← List.append_assoc]
  cases p <;> rfl

theorem ordered_turns : Ordered (turns S kSendCount) := by
  refine ordered_opening_client fun t ht => ?_
  simp only [loop, List.mem_append, List.mem_flatMap] at ht
  rcases ht with ⟨i, -, hi⟩ | ⟨i, -, hi⟩
  · simp only [write, List.mem_cons, List.not_mem_nil, or_false] at hi
    rcases hi with rfl | rfl <;> rfl
  · obtain rfl := List.mem_singleton.mp hi
    rfl

theorem keeps_programs (p : Bool) : ∀ x ∈ programs S kSendCount p, x.Keeps (· = none) := by
  intro x hx
  cases p with
  | false =>
    simp only [programs, cond_false, handler, loop, send, List.mem_append, List.mem_flatMap,
      List.mem_cons, List.not_mem_nil, or_false] at hx
    rcases hx with ((rfl | rfl) | ⟨i, -, rfl⟩) | ⟨i, -, rfl⟩ <;> simp
  | true =>
    simp only [programs, cond_true, clientWorker, loop, writeWithImm, send, List.mem_append,
      List.mem_flatMap, List.mem_cons, List.not_mem_nil, or_false] at hx
    rcases hx with ((rfl | rfl | rfl) | ⟨i, -, rfl | rfl⟩) | ⟨i, -, rfl⟩ <;> simp

/-- The client's messages. -/
def pattern : List UInt8 := List.replicate kMessageSize 0xdd

/-- The server after `i` writes and `j` sends to it, from `s`. -/
structure Served (S : Bool → Site Var) (s : Host Var) (i j : Nat) (h : Host Var) : Prop where
  regions : h.regions = s.regions
  length : (h.bytes .buffer).length = kMessageSize
  bytes : 0 < i + j → h.bytes .buffer = pattern
  returned : h.returned = s.returned ++
    (List.range i).map (fun i => .recv 4096
      (some (carried (S true).order (S false).order (UInt32.ofNat i)))) ++
    List.replicate j (.recv 4096 none)

theorem pattern_length : pattern.length = kMessageSize := List.length_replicate ..

variable {s c h : Host Var} {i j : Nat}

theorem Served.write (hh : Served S s i 0 h) (hr : Refers s c .buffer .buffer)
    (hs : (s.bytes .buffer).length = kMessageSize) (hc : c.bytes .buffer = pattern) :
    ∃ h', run (write S i) (some (both h c)) = some (both h' c) ∧ Served S s (i + 1) 0 h' := by
  have hlen : (c.bytes .buffer).length = kMessageSize := by rw [hc, pattern_length]
  let imm := carried (S true).order (S false).order (UInt32.ofNat i)
  refine ⟨h.withImm .buffer (c.bytes .buffer) imm, ?_, hh.regions, ?_, fun _ => ?_, ?_⟩
  · have hr' : Refers h c .buffer .buffer := hr.congr hh.regions (hh.length.trans hs.symm)
    rw [Latency.write, run_writeWithImm hr' (by rw [hlen, hh.length]) (by rw [hlen]; decide)]
    rfl
  · show (patch (h.bytes .buffer) 0 (c.bytes .buffer)).length = _
    rw [patch_all (hh.length.trans hlen.symm), hlen]
  · show patch (h.bytes .buffer) 0 (c.bytes .buffer) = _
    rw [patch_all (hh.length.trans hlen.symm), hc]
  · show h.returned ++ [.recv (UInt32.ofNat (c.bytes .buffer).length) (some imm)] = _
    rw [hh.returned, hlen, List.range_succ, List.map_append, List.replicate_zero, List.append_nil,
      List.append_nil, List.append_assoc]
    rfl

theorem Served.send (hh : Served S s i j h) (hc : c.bytes .buffer = pattern) :
    ∃ h', run (sending S j) (some (both h c)) = some (both h' c) ∧ Served S s i (j + 1) h' := by
  have hlen : (c.bytes .buffer).length = kMessageSize := by rw [hc, pattern_length]
  refine ⟨h.withBytes .buffer (c.bytes .buffer), ?_, hh.regions, ?_, fun _ => ?_, ?_⟩
  · exact run_send_true (by rw [hlen]; decide) (Or.inl rfl) (by rw [hlen, hh.length]) rfl
  · show (patch (h.bytes .buffer) 0 (c.bytes .buffer)).length = _
    rw [patch_all (hh.length.trans hlen.symm), hlen]
  · show patch (h.bytes .buffer) 0 (c.bytes .buffer) = _
    rw [patch_all (hh.length.trans hlen.symm), hc]
  · show h.returned ++ [.recv (UInt32.ofNat (c.bytes .buffer).length) none] = _
    rw [hh.returned, hlen, List.replicate_succ', ← List.append_assoc]
    rfl

theorem run_turns_opening (kSendCount : Nat) (s c : Host Var) :
    ∃ s' c', run (turns S kSendCount) (some (both s c)) =
        run (loop kSendCount (write S) ++ loop kSendCount (sending S)) (some (both s' c')) ∧
      Refers s' c' .buffer .buffer ∧ (s'.bytes .buffer).length = kMessageSize ∧
      c'.bytes .buffer = pattern ∧ s'.returned = s.returned ∧
      c'.returned = c.returned ++ [.recv 20 none] := by
  have hu : RemoteMr.kSerializedSize ≤ (resize kMessageSize (c.bytes .buffer)).length := by
    rw [resize_length]
    decide
  have hlen : (resize kMessageSize (s.bytes .buffer)).length < 2 ^ 64 := by
    rw [resize_length]
    decide
  obtain ⟨s', c', h⟩ := exists_opened S .buffer .buffer .buffer .serialized
    (.view .buffer RemoteMr.kSerializedSize) declare (fun h => (declare h).regMr (S true) .buffer)
    fill assertSize s c (Or.inr rfl) (fun _ => rfl) hu ⟨fun _ => rfl, fun _ => rfl⟩
    ⟨fun _ => rfl, fun _ => rfl⟩ nofun hlen
  obtain ⟨rfl, rfl, hrun, hrefers, hret⟩ := h
  exact ⟨_, _, hrun _, hrefers, resize_length .., rfl, rfl, hret⟩

/-- **The messages of `latency.cc` meet the recvs they are meant for**: for any byte orders and
    addresses of the hosts and any number of messages, no interleaving of the two coroutines gets
    stuck or fails, the recvs without a buffer return the immediate data in order, those with the
    buffer return the sends, and then the server has the client's bytes. -/
theorem latency_session (S : Bool → Site Var) (kSendCount : Nat) (s c : Host Var) :
    ∃ s' c' : Host Var, Session (programs S kSendCount) (both s c) (both s' c') ∧
      (0 < kSendCount → s'.bytes .buffer = pattern) ∧
      s'.returned = s.returned ++
        (List.range kSendCount).map (fun i => .recv 4096
          (some (carried (S true).order (S false).order (UInt32.ofNat i)))) ++
        List.replicate kSendCount (.recv 4096 none) ∧
      c'.returned = c.returned ++ [.recv 20 none] := by
  obtain ⟨s₁, c₁, hopen, hrefers, hlen, hbytes, hs₁, hc₁⟩ :=
    run_turns_opening (S := S) kSendCount s c
  obtain ⟨s₂, hw, hs₂⟩ : ∃ h, run (loop kSendCount (write S)) (some (both s₁ c₁)) =
      some (both h c₁) ∧ Served S s₁ kSendCount 0 h := by
    refine run_loop (P := fun i w => ∃ h, w = some (both h c₁) ∧ Served S s₁ i 0 h)
      ⟨s₁, rfl, rfl, hlen, nofun, by simp⟩ ?_
    rintro i w - ⟨h, rfl, hh⟩
    exact hh.write hrefers hlen hbytes
  obtain ⟨s₃, hw', hs₃⟩ : ∃ h, run (loop kSendCount (sending S)) (some (both s₂ c₁)) =
      some (both h c₁) ∧ Served S s₁ kSendCount kSendCount h := by
    refine run_loop (P := fun j w => ∃ h, w = some (both h c₁) ∧ Served S s₁ kSendCount j h)
      ⟨s₂, rfl, hs₂⟩ ?_
    rintro j w - ⟨h, rfl, hh⟩
    exact hh.send hbytes
  refine ⟨s₃, c₁, session_of_turns project_turns ordered_turns ?_ keeps_programs,
    fun hn => hs₃.bytes (Nat.add_pos_left hn _), ?_, hc₁⟩
  · rw [hopen, run_append, hw, hw']
  · rw [hs₃.returned, hs₁]

end Latency

/-! ## 2. `rpc.cc` -/

namespace SimpleRpc

def msg : List UInt8 :=
  "this is an rdmapp based rpc simple example".toList.map fun ch => ch.val.toUInt8

def kRpcCnt : Nat := 20

/-- `assert(imm.has_value())` and `registered_rpc_fn[imm.value()]()`, with a key of type `int`. A
    function that is not registered is empty, and calling it throws. -/
def callRegistered (r : OpResult) (h : Host Var) : Option (Host Var) :=
  match r with
  | .recv _ (some imm) =>
    let key := imm.toInt32.toInt
    if 0 ≤ key ∧ key < kRpcCnt then some { h with called := h.called ++ [key] } else none
  | _ => none

variable (S : Bool → Site Var)

/-- `handle_qp`. -/
def handleQp : Program Var :=
  [.act (alone false fun h =>
      (h.assign .buffer msg).advertise (S false) .buffer .serialized),
    send S false .serialized] ++
  loop kRpcCnt fun _ => [recv false .null callRegistered]

def client : Program Var :=
  [.act (alone true declareHandle),
    recv true (.whole .serialized) ignore,
    .act (alone true fun h => (h.deserialize (S true) .serialized .buffer).assign .buffer msg)] ++
  loop kRpcCnt fun i => writeWithImm S true .buffer .buffer (UInt32.ofNat i)

def programs (p : Bool) : Program Var := bif p then client S else handleQp S

def write (i : Nat) : Turns Var :=
  [.act true (operate S true (fun h => .writeWithImm (h.remote .buffer) (UInt32.ofNat i)) .buffer),
    .message true
      (message S true (fun h => .writeWithImm (h.remote .buffer) (UInt32.ofNat i)) .buffer)
      (received false .null callRegistered)]

def turns : Turns Var :=
  opening S (fun h => h.assign .buffer msg) declareHandle (fun h => h.assign .buffer msg)
    .buffer .serialized .serialized .buffer (.whole .serialized) ignore ++ loop kRpcCnt (write S)

variable {S}

theorem project_turns (p : Bool) : project p (turns S) = programs S p := by
  unfold turns
  rw [project_append, project_loop]
  cases p <;> rfl

theorem ordered_turns : Ordered (turns S) := by
  refine ordered_opening_client fun t ht => ?_
  simp only [loop, List.mem_flatMap, write, List.mem_cons, List.not_mem_nil, or_false] at ht
  obtain ⟨i, -, rfl | rfl⟩ := ht <;> rfl

theorem keeps_programs (p : Bool) : ∀ x ∈ programs S p, x.Keeps (· = none) := by
  intro x hx
  cases p with
  | false =>
    simp only [programs, cond_false, handleQp, loop, send, List.mem_append, List.mem_flatMap,
      List.mem_cons, List.not_mem_nil, or_false] at hx
    rcases hx with (rfl | rfl) | ⟨i, -, rfl⟩ <;> simp
  | true =>
    simp only [programs, cond_true, client, loop, writeWithImm, List.mem_append, List.mem_flatMap,
      List.mem_cons, List.not_mem_nil, or_false] at hx
    rcases hx with (rfl | rfl | rfl) | ⟨i, -, rfl | rfl⟩ <;> simp

/-- The server after `i` calls, from `s`. -/
structure Called (s : Host Var) (i : Nat) (h : Host Var) : Prop where
  regions : h.regions = s.regions
  length : (h.bytes .buffer).length = msg.length
  called : h.called = s.called ++ (List.range i).map Int.ofNat

variable {s c h : Host Var} {i : Nat}

/-- What a write comes to. -/
theorem run_write (hh : Called s i h) (hr : Refers s c .buffer .buffer)
    (hs : (s.bytes .buffer).length = msg.length) (hc : c.bytes .buffer = msg) :
    run (write S i) (some (both h c)) =
      (callRegistered (.recv 42 (some (carried (S true).order (S false).order (UInt32.ofNat i))))
        (h.withImm .buffer msg (carried (S true).order (S false).order (UInt32.ofNat i)))).map
          fun h' => both h' c := by
  have hr' : Refers h c .buffer .buffer := hr.congr hh.regions (hh.length.trans hs.symm)
  rw [write, run_writeWithImm hr' (by rw [hc, hh.length]) (by rw [hc]; decide), hc]
  rfl

/-- The keys that the client sends are registered. -/
theorem callRegistered_ofNat {n : UInt32} (hi : i < kRpcCnt) :
    callRegistered (.recv n (some (UInt32.ofNat i))) h =
      some { h with called := h.called ++ [Int.ofNat i] } := by
  have hkey : ∀ i < kRpcCnt, (UInt32.ofNat i).toInt32.toInt = Int.ofNat i := by decide
  unfold callRegistered
  dsimp only
  rw [hkey i hi, if_pos ⟨Int.natCast_nonneg i, Int.ofNat_lt.mpr hi⟩]

theorem Called.write (hh : Called s i h) (hr : Refers s c .buffer .buffer)
    (hs : (s.bytes .buffer).length = msg.length) (hc : c.bytes .buffer = msg) (hi : i < kRpcCnt)
    (hv : carried (S true).order (S false).order (UInt32.ofNat i) = UInt32.ofNat i) :
    ∃ h', run (write S i) (some (both h c)) = some (both h' c) ∧ Called s (i + 1) h' := by
  rw [run_write hh hr hs hc, hv, callRegistered_ofNat hi]
  refine ⟨_, rfl, hh.regions, ?_, ?_⟩
  · show (patch (h.bytes .buffer) 0 msg).length = _
    rw [patch_all hh.length]
  · show h.called ++ [Int.ofNat i] = _
    rw [hh.called, List.range_succ, List.map_append, List.append_assoc]
    rfl

/-- One is a large number for the other host. -/
theorem callRegistered_one {n : UInt32} {o o' : ByteOrder} (hne : o ≠ o') :
    callRegistered (.recv n (some (carried o o' (UInt32.ofNat 1)))) h = none := by
  have hv : carried o o' (UInt32.ofNat 1) = 16777216 := by
    cases o <;> cases o' <;> first | exact absurd rfl hne | decide
  have hkey : ¬ (0 ≤ (16777216 : UInt32).toInt32.toInt ∧
      (16777216 : UInt32).toInt32.toInt < kRpcCnt) := by decide
  unfold callRegistered
  rw [hv]
  dsimp only
  rw [if_neg hkey]

/-- **Between hosts of two byte orders the second call throws.** -/
theorem run_loop_throws (hne : (S true).order ≠ (S false).order) (hr : Refers s c .buffer .buffer)
    (hs : (s.bytes .buffer).length = msg.length) (hc : c.bytes .buffer = msg) :
    run (loop kRpcCnt (write S)) (some (both s c)) = none := by
  suffices hrun : (kRpcCnt < 2 → ∃ h, run (loop kRpcCnt (write S)) (some (both s c)) =
      some (both h c) ∧ Called s kRpcCnt h) ∧
      (2 ≤ kRpcCnt → run (loop kRpcCnt (write S)) (some (both s c)) = none) from
    hrun.2 (by decide)
  refine run_loop (P := fun i w =>
    (i < 2 → ∃ h, w = some (both h c) ∧ Called s i h) ∧ (2 ≤ i → w = none))
    ⟨fun _ => ⟨s, rfl, rfl, hs, by simp⟩, nofun⟩ ?_
  rintro i w hi ⟨hsome, hnone⟩
  rcases Nat.lt_trichotomy i 1 with hlt | rfl | hgt
  · obtain rfl : i = 0 := Nat.lt_one_iff.mp hlt
    obtain ⟨h, rfl, hh⟩ := hsome (by decide)
    have hzero : carried (S true).order (S false).order (UInt32.ofNat 0) = UInt32.ofNat 0 :=
      (carried_eq_iff _ _ _).mpr (Or.inr (by decide))
    exact ⟨fun _ => hh.write hr hs hc hi hzero, fun hle => absurd hle (by decide)⟩
  · obtain ⟨h, rfl, hh⟩ := hsome (by decide)
    refine ⟨fun hlt => absurd hlt (by decide), fun _ => ?_⟩
    rw [run_write hh hr hs hc, callRegistered_one hne]
    rfl
  · refine ⟨fun hlt => absurd hlt (by omega), fun _ => ?_⟩
    rw [hnone hgt]
    rfl

theorem run_turns_opening (s c : Host Var) :
    ∃ s' c', run (turns S) (some (both s c)) = run (loop kRpcCnt (write S)) (some (both s' c')) ∧
      Refers s' c' .buffer .buffer ∧ (s'.bytes .buffer).length = msg.length ∧
      c'.bytes .buffer = msg ∧ s'.called = s.called := by
  have hu : RemoteMr.kSerializedSize ≤
      (resize RemoteMr.kSerializedSize (c.bytes .serialized)).length := (resize_length ..).ge
  obtain ⟨s', c', h⟩ := exists_opened S .serialized .buffer .buffer .serialized (.whole .serialized)
    (fun h => h.assign .buffer msg) declareHandle (fun h => h.assign .buffer msg) ignore s c
    (Or.inl rfl) (fun _ => rfl) hu ⟨fun _ => rfl, fun _ => rfl⟩
    ⟨fun _ => rfl, fun _ => rfl⟩ nofun (show msg.length < 2 ^ 64 by decide)
  obtain ⟨rfl, rfl, hrun, hrefers, -⟩ := h
  exact ⟨_, _, hrun _, hrefers, rfl, rfl, rfl⟩

/-- **Between hosts of one byte order the functions of `rpc.cc` are called in order, each once;
    between others the second call throws**: whatever the addresses, and in every interleaving of the
    two coroutines. -/
theorem rpc_session (S : Bool → Site Var) (s c : Host Var) :
    ((S true).order = (S false).order →
      ∃ s' c' : Host Var, Session (programs S) (both s c) (both s' c') ∧
        s'.called = s.called ++ (List.range kRpcCnt).map Int.ofNat) ∧
    ((S true).order ≠ (S false).order → Fails (programs S) (both s c)) := by
  obtain ⟨s₁, c₁, hopen, hrefers, hlen, hc, hcalled⟩ := run_turns_opening (S := S) s c
  constructor
  · intro ho
    obtain ⟨s', hrun, hs'⟩ : ∃ h, run (loop kRpcCnt (write S)) (some (both s₁ c₁)) =
        some (both h c₁) ∧ Called s₁ kRpcCnt h := by
      refine run_loop (P := fun i w => ∃ h, w = some (both h c₁) ∧ Called s₁ i h)
        ⟨s₁, rfl, rfl, hlen, by simp⟩ ?_
      rintro i w hi ⟨h, rfl, hh⟩
      exact hh.write hrefers hlen hc hi ((carried_eq_iff _ _ _).mpr (Or.inl ho))
    refine ⟨s', c₁, session_of_turns project_turns ordered_turns (hopen.trans hrun)
      keeps_programs, ?_⟩
    rw [hs'.called, hcalled]
  · intro hne
    exact fails_of_turns project_turns ordered_turns
      (hopen.trans (run_loop_throws hne hrefers hlen hc))

end SimpleRpc

/-! ## 3. `write_bw.cc` -/

namespace WriteBw

def kBufferSizeBytes : Nat := 1024 * 1024

/-- `buffer.resize(kBufferSizeBytes)`, from no bytes. -/
def declare (h : Host Var) : Host Var := h.assign .buffer (List.replicate kBufferSizeBytes 0)

/-- What `handler` does with the immediate data: it throws if there is none, or another value. -/
def check (r : OpResult) (h : Host Var) : Option (Host Var) :=
  match r with
  | .recv _ (some imm) => if imm ≠ 0xDEADBEEF then none else some h
  | _ => none

variable (S : Bool → Site Var) (kSendCount : Nat)

def handler : Program Var :=
  [.act (alone false fun h => (declare h).advertise (S false) .buffer .serialized),
    send S false .serialized,
    recv false .null check]

def clientWorker : Program Var :=
  [.act (alone true fun h => declareHandle ((declare h).regMr (S true) .buffer)),
    recv true (.whole .serialized) ignore,
    .act (alone true fun h => h.deserialize (S true) .serialized .buffer)] ++
  loop kSendCount (fun _ => [.act (operate S true (fun h => .write (h.remote .buffer)) .buffer)]) ++
  writeWithImm S true .buffer .buffer 0xDEADBEEF

def programs (p : Bool) : Program Var := bif p then clientWorker S kSendCount else handler S

def write (_ : Nat) : Turns Var :=
  [.act true (operate S true (fun h => .write (h.remote .buffer)) .buffer)]

def last : Turns Var :=
  [.act true (operate S true (fun h => .writeWithImm (h.remote .buffer) 0xDEADBEEF) .buffer),
    .message true (message S true (fun h => .writeWithImm (h.remote .buffer) 0xDEADBEEF) .buffer)
      (received false .null check)]

def turns : Turns Var :=
  opening S declare (fun h => declareHandle ((declare h).regMr (S true) .buffer)) id
    .buffer .serialized .serialized .buffer (.whole .serialized) ignore ++
  (loop kSendCount (write S) ++ last S)

variable {S kSendCount}

theorem project_turns (p : Bool) : project p (turns S kSendCount) = programs S kSendCount p := by
  unfold turns
  rw [project_append, project_append, project_loop, ← List.append_assoc]
  cases p with
  | false =>
    show _ ++ loop kSendCount (fun _ => []) ++ _ = handler S
    rw [show loop kSendCount (fun _ => ([] : Program Var)) = [] by simp [loop], List.append_nil]
    rfl
  | true => rfl

theorem ordered_turns : Ordered (turns S kSendCount) := by
  refine ordered_opening_client fun t ht => ?_
  simp only [loop, last, List.mem_append, List.mem_flatMap, write, List.mem_cons,
    List.not_mem_nil, or_false] at ht
  obtain ⟨i, -, rfl⟩ | rfl | rfl := ht <;> rfl

theorem keeps_programs (p : Bool) : ∀ x ∈ programs S kSendCount p, x.Keeps (· = none) := by
  intro x hx
  cases p with
  | false =>
    simp only [programs, cond_false, handler, send, List.mem_cons, List.not_mem_nil, or_false] at hx
    rcases hx with rfl | rfl | rfl <;> simp
  | true =>
    simp only [programs, cond_true, clientWorker, loop, writeWithImm, List.mem_append,
      List.mem_flatMap, List.mem_cons, List.not_mem_nil, or_false] at hx
    rcases hx with ((rfl | rfl | rfl) | ⟨i, -, rfl⟩) | rfl | rfl <;> simp

/-- The server has advertised its buffer, the client will write all of it. -/
structure Ready (s c : Host Var) : Prop where
  refers : Refers s c .buffer .buffer
  server : (s.bytes .buffer).length = kBufferSizeBytes
  client : (c.bytes .buffer).length = kBufferSizeBytes

theorem Ready.short {s c : Host Var} (h : Ready s c) : (c.bytes .buffer).length < 2 ^ 32 := by
  rw [h.client]
  decide

theorem run_turns_opening (kSendCount : Nat) (s c : Host Var) :
    ∃ s' c', run (turns S kSendCount) (some (both s c)) =
        run (loop kSendCount (write S) ++ last S) (some (both s' c')) ∧
      Ready s' c' ∧ s'.returned = s.returned := by
  have hu : RemoteMr.kSerializedSize ≤ (resize RemoteMr.kSerializedSize
      (((declare c).regMr (S true) .buffer).bytes .serialized)).length := (resize_length ..).ge
  have hlen : (List.replicate kBufferSizeBytes (0 : UInt8)).length < 2 ^ 64 := by
    rw [List.length_replicate]
    decide
  obtain ⟨s', c', h⟩ := exists_opened S .serialized .buffer .buffer .serialized (.whole .serialized)
    declare (fun h => declareHandle ((declare h).regMr (S true) .buffer)) id ignore s c (Or.inl rfl)
    (fun _ => rfl) hu ⟨fun _ => rfl, fun _ => rfl⟩ ⟨fun _ => rfl, fun _ => rfl⟩ nofun hlen
  obtain ⟨rfl, rfl, hrun, hrefers, -⟩ := h
  exact ⟨_, _, hrun _, ⟨hrefers, List.length_replicate .., List.length_replicate ..⟩, rfl⟩

/-- A write leaves everything ready for the next. -/
theorem Ready.write {s c : Host Var} {i : Nat} (h : Ready s c) :
    ∃ s', run (write S i) (some (both s c)) = some (both s' c) ∧ Ready s' c ∧
      s'.returned = s.returned := by
  have hlen : (s.bytes .buffer).length = (c.bytes .buffer).length := h.server.trans h.client.symm
  have hlen' : ((s.assign .buffer (patch (s.bytes .buffer) 0 (c.bytes .buffer))).bytes
      .buffer).length = kBufferSizeBytes := by
    show (patch (s.bytes .buffer) 0 (c.bytes .buffer)).length = _
    rw [patch_all hlen, h.client]
  exact ⟨_, run_write (Or.inl rfl) h.refers hlen.ge h.short,
    ⟨h.refers.congr rfl (hlen'.trans h.server.symm), hlen', h.client⟩, rfl⟩

end WriteBw

end Rdmapp.Sessions
