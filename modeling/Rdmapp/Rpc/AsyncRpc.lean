/-
  File:      Rdmapp/Rpc/AsyncRpc.lean
  Subject:   `async_rpc`: a mux in front of servers that share `default_handler`.

  The bench's server process gives every queue pair an `RpcServer` of its own. All of them run
  `default_handler`, so all share one pool and one counter. Its clients check what each call returns:
  the length, and that the bytes are the pool's `0xEE`.

  `bench_serves_slices`: the handler's runs and the calls they are made for correspond one to one, and
  up to `2 ^ 31 + 1` runs the caller of the `k`-th gets slice `k % kBufferCnt` of the pool. So the
  client's two checks never fail, whichever client, server and worker a call meets.
-/
import Rdmapp.Rpc.DefaultHandler
import Rdmapp.Rpc.Mux

namespace Rdmapp
namespace Rpc

open Lib

/-! ## 1. The bench -/

structure Bench (n : Nat) where
  mux : Mux n
  /-- `g_disk_pool_cnt`, with the handler's runs. -/
  handler : HandlerState
  /-- The calls the runs were made for, in the order of the runs. -/
  served : List Nat

def Bench.start (n m k : Nat) : Bench n := ⟨Mux.start n m k, .start, []⟩

def MuxAction.isHandle {n : Nat} : MuxAction n → Bool
  | .run _ (.server (.handle ..)) => true
  | _ => false

inductive BenchAction (n : Nat) where
  /-- Any step but a handler's. -/
  | mux (a : MuxAction n)
  /-- Worker `v` of the server behind client `i` runs `default_handler`. -/
  | handler (i : Fin n) (v : Nat)

section Step

variable (o : ByteOrder) (m : Nat) (memory : UInt64 → UInt8) (pool : UInt64) {n : Nat}

/-- `default_handler` on the payload of the worker's response. -/
def Bench.invoke (s : Bench n) (i : Fin n) (v : Nat) : HandlerState :=
  defaultHandler memory pool s.handler v
    ((s.mux.clients i).server.sendBufferPool.read (v * kRecvBufferSize + headerSize) kRecvMsgSize)

def benchStep (s : Bench n) : BenchAction n → Option (Bench n)
  | .mux a =>
    if a.isHandle = false then (muxStep o m s.mux a).map fun u => { s with mux := u } else none
  | .handler i v =>
    let client := s.mux.clients i
    let handler := s.invoke memory pool i v
    match client.requests v, handler.invocations.getLast? with
    | .handled c, some x =>
      let run := ServerAction.handle v (client.server.payload v) x.resp x.size
      (muxStep o m s.mux (.run i (.server run))).map fun u => ⟨u, handler, s.served ++ [c]⟩
    | _, _ => none

def benchMachine (n : Nat) : Machine (Bench n) (BenchAction n) := ⟨benchStep o m memory pool⟩

end Step

section Bench

variable {o : ByteOrder} {m k n : Nat} {memory : UInt64 → UInt8} {pool : UInt64} {s t : Bench n}
  {i j : Fin n} {c v : Nat}

/-- The steps. -/
inductive BenchMoves (o : ByteOrder) (m : Nat) (memory : UInt64 → UInt8) (pool : UInt64)
    (s : Bench n) : Bench n → Prop
  | muxed (a : MuxAction n) (u : Mux n) (ha : a.isHandle = false)
      (hu : (muxMachine o m n).step s.mux a = some u) :
      BenchMoves o m memory pool s { s with mux := u }
  | handled (i : Fin n) (v c : Nat) (x : Invocation) (u : Mux n)
      (hr : (s.mux.clients i).requests v = .handled c)
      (hx : (s.invoke memory pool i v).invocations = s.handler.invocations ++ [x])
      (hu : (muxMachine o m n).step s.mux
        (.run i (.server (.handle v ((s.mux.clients i).server.payload v) x.resp x.size))) = some u) :
      BenchMoves o m memory pool s ⟨u, s.invoke memory pool i v, s.served ++ [c]⟩

theorem benchMoves_of_step {a : BenchAction n}
    (h : (benchMachine o m memory pool n).step s a = some t) : BenchMoves o m memory pool s t := by
  have h : benchStep o m memory pool s a = some t := h
  cases a with
  | mux a =>
    unfold benchStep at h
    dsimp only at h
    split at h
    · next ha =>
      obtain ⟨u, hu, rfl⟩ := Option.map_eq_some_iff.mp h
      exact .muxed a u ha hu
    · cases h
  | handler i v =>
    unfold benchStep at h
    dsimp only at h
    split at h
    · next c x hr hx =>
      obtain ⟨u, hu, rfl⟩ := Option.map_eq_some_iff.mp h
      refine .handled i v c x u hr ?_ hu
      have hlast : x = _ := (Option.some.inj (List.getLast?_concat.symm.trans hx)).symm
      rw [hlast]
      rfl
    · cases h

/-! ## 2. What a run of the handler leaves -/

theorem handlerSlice_length (memory : UInt64 → UInt8) (pool offset : UInt64) :
    (handlerSlice memory pool offset).length = 4096 := by
  unfold handlerSlice
  rw [List.length_map, List.length_range]

/-- A run returns its slice, whatever lay in the buffer. -/
structure Copies (memory : UInt64 → UInt8) (pool : UInt64) (x : Invocation) : Prop where
  size : x.size = 4096
  resp : x.resp.take x.size = handlerSlice memory pool x.offset

theorem copies_slice {slice : List UInt8} {offset : UInt64}
    (h : slice = handlerSlice memory pool offset) (worker : Nat) (rest : List UInt8) :
    Copies memory pool ⟨worker, offset, slice ++ rest, slice.length⟩ where
  size := by
    show slice.length = 4096
    rw [h, handlerSlice_length]
  resp := by
    show (slice ++ rest).take slice.length = handlerSlice memory pool offset
    rw [List.take_left, h]

theorem copies_invoke {x : Invocation}
    (hx : (s.invoke memory pool i v).invocations = s.handler.invocations ++ [x]) :
    Copies memory pool x := by
  have hinvoke : s.handler.invocations ++ [x] = s.handler.invocations ++ _ := hx.symm
  rw [List.singleton_inj.mp (List.append_cancel_left hinvoke)]
  exact copies_slice rfl _ _

/-- Slice `k % kBufferCnt`, for the first `2 ^ 31 + 1` values of the counter. -/
theorem handlerSlice_ofNat (h : k ≤ 2 ^ 31) :
    handlerSlice memory pool (handlerOffset (Int32.ofNat k)) =
      handlerSlice memory pool (UInt64.ofNat (k % 1024 * 4096)) := by
  rw [← handlerOffset_ofNat h, UInt64.ofNat_toNat]

/-- A pool of one byte. -/
theorem handlerSlice_eq_replicate {b : UInt8}
    (hpool : ∀ j < diskPoolSize, memory (pool + UInt64.ofNat j) = b) :
    handlerSlice memory pool (UInt64.ofNat (k % 1024 * 4096)) = List.replicate 4096 b := by
  refine List.eq_replicate_iff.mpr ⟨handlerSlice_length .., fun y hy => ?_⟩
  obtain ⟨j, hj, rfl⟩ := List.mem_map.mp hy
  rw [List.mem_range] at hj
  rw [UInt64.add_assoc, ← UInt64.ofNat_add]
  refine hpool _ ?_
  unfold diskPoolSize
  omega

/-! ## 3. What a step shows of the handler -/

theorem System.tell_handled {u : System} {b : ServerAction}
    (hb : ∀ v payload resp n, b ≠ .handle v payload resp n) : (u.tell b).handled = u.handled := by
  cases b with
  | handle v payload resp n => exact absurd rfl (hb v payload resp n)
  | _ => rfl

/-- The handler's runs change by its step alone. -/
theorem handled_of_quiet {u w : Mux n} {a : MuxAction n} (ha : a.isHandle = false)
    (h : MuxMoves o m u a w) (j : Fin n) : (w.clients j).handled = (u.clients j).handled := by
  cases h with
  | selected => rfl
  | ran i a v hp hv =>
    show (Function.update u.clients i v j).handled = _
    rcases eq_or_ne j i with rfl | hne
    · rw [Function.update_self]
      obtain ⟨-, rfl⟩ := Machine.guarded_step_eq_some.mp hv
      cases a with
      | server b =>
        refine System.tell_handled fun v payload resp n hb => ?_
        rw [hb] at ha
        cases ha
      | _ => rfl
    · rw [Function.update_of_ne hne]

/-- The step of the handler, for a call no handler has run for. -/
theorem handled_of_run {u w : Mux n} {payload resp : List UInt8} {size : Nat} (hg : Given o m k u)
    (hm : m < 2 ^ 32) (hr : (u.clients i).requests v = .handled c)
    (h : MuxMoves o m u (.run i (.server (.handle v payload resp size))) w) :
    (∀ j, (u.clients j).handled c = []) ∧
    (∃ reqData, (w.clients i).handled c = [(reqData, resp.take size)]) ∧
    ∀ j d, (j, d) ≠ (i, c) → (w.clients j).handled d = (u.clients j).handled d := by
  cases h with
  | ran _ _ x hp hx =>
    obtain ⟨he, rfl⟩ := Machine.guarded_step_eq_some.mp hx
    have hi := systemInv_reach hm (hg.client i)
    have hpc : ((u.clients i).server.workers v).pc = .handle := he.1.1
    have hactive : ((u.clients i).server.workers v).pc.active = true := by
      rw [hpc]
      rfl
    -- the call has started here, so at no other client
    have hdelivered := (hi.serving v c (serving_of_handled hr (Or.inl hactive))).1
    have hidle : ((u.clients i).link.client.calls c).pc ≠ .idle := by
      intro hidle
      have hearly := hi.not_early hdelivered
      rw [hidle] at hearly
      cases hearly
    have hself : (u.clients i).handled c = [] := ((hi.server v).request c hr (Or.inr hpc)).2.2
    have htell : (systemNext o m (u.clients i) (.server (.handle v payload resp size))).handled =
        Function.update (u.clients i).handled c
          ((u.clients i).handled c ++ [((u.clients i).server.payload v, resp.take size)]) := by
      show ((u.clients i).tell (.handle v payload resp size)).handled = _
      simp only [System.tell, hr]
    refine ⟨fun j => ?_, ⟨(u.clients i).server.payload v, ?_⟩, fun j d hne => ?_⟩
    · by_cases hji : j = i
      · rw [hji]
        exact hself
      · exact (systemInv_reach hm (hg.client j)).unhandled_of_idle (hg.idle hidle hji)
    · show (Function.update u.clients i _ i).handled c = _
      rw [Function.update_self, htell, Function.update_self, hself]
      rfl
    · show (Function.update u.clients i _ j).handled d = _
      rcases eq_or_ne j i with rfl | hji
      · rw [Function.update_self, htell]
        exact Function.update_of_ne (fun hdc => hne (by rw [hdc])) _ _
      · rw [Function.update_of_ne hji]

/-! ## 4. Runs and calls -/

/-- The handler's runs and the calls served. -/
structure BenchInv (o : ByteOrder) (m k : Nat) (memory : UInt64 → UInt8) (pool : UInt64)
    (s : Bench n) : Prop where
  given : Given o m k s.mux
  handler : HandlerInv s.handler
  copies : ∀ x ∈ s.handler.invocations, Copies memory pool x
  length : s.served.length = s.handler.invocations.length
  once : s.served.Nodup
  handled : ∀ c ∈ s.served, ∃ i, (s.mux.clients i).handled c ≠ []
  run : ∀ i c run, run ∈ (s.mux.clients i).handled c → ∃ (k : Nat) (x : Invocation),
    s.served[k]? = some c ∧ s.handler.invocations[k]? = some x ∧ run.2 = x.resp.take x.size

theorem benchInv_start (n m k : Nat) :
    BenchInv o m k memory pool (Bench.start n m k) where
  given := ⟨fun _ => .start, List.nodup_nil, fun _ _ hne => absurd rfl hne⟩
  handler := handlerInv_start
  copies := nofun
  length := rfl
  once := List.nodup_nil
  handled := nofun
  run := nofun

theorem benchInv_step (hm : m < 2 ^ 32) (h : BenchInv o m k memory pool s)
    (hs : BenchMoves o m memory pool s t) : BenchInv o m k memory pool t := by
  cases hs with
  | muxed a u ha hu =>
    have hmoves := muxMoves_of_step hu
    have hkeeps := handled_of_quiet ha hmoves
    refine { h with
      given := given_step h.given hmoves
      handled := fun c hc => ?_
      run := fun i c run hrun => h.run i c run ?_ }
    · obtain ⟨i, hi⟩ := h.handled c hc
      exact ⟨i, (congrFun (hkeeps i) c).symm ▸ hi⟩
    · exact (congrFun (hkeeps i) c) ▸ hrun
  | handled i v c x u hr hx hu =>
    have hmoves := muxMoves_of_step hu
    obtain ⟨hnone, ⟨reqData, hself⟩, hother⟩ := handled_of_run h.given hm hr hmoves
    have hnew : c ∉ s.served := fun hc => by
      obtain ⟨j, hj⟩ := h.handled c hc
      exact hj (hnone j)
    have hinv : ∀ {k : Nat} {y : Invocation}, s.handler.invocations[k]? = some y →
        (s.invoke memory pool i v).invocations[k]? = some y := fun hk => by
      rw [hx, List.getElem?_append_left (List.getElem?_eq_some_iff.mp hk).1]
      exact hk
    refine ⟨given_step h.given hmoves, handlerInv_step h.handler _ _, fun y hy => ?_, ?_, ?_,
      fun d hd => ?_, fun j d run hrun => ?_⟩
    · rw [hx] at hy
      rcases List.mem_append.mp hy with hy | hy
      · exact h.copies y hy
      · rw [List.mem_singleton.mp hy]
        exact copies_invoke hx
    · rw [hx, List.length_append, List.length_append, h.length]
      rfl
    · exact List.concat_eq_append ▸ h.once.concat hnew
    · rcases List.mem_append.mp hd with hd | hd
      · obtain ⟨j, hj⟩ := h.handled d hd
        refine ⟨j, ?_⟩
        rw [hother j d fun he => hnew ((Prod.mk.inj he).2 ▸ hd)]
        exact hj
      · rw [List.mem_singleton.mp hd]
        refine ⟨i, ?_⟩
        rw [hself]
        exact List.cons_ne_nil _ _
    · by_cases hjd : (j, d) = (i, c)
      · -- the run just made
        obtain ⟨rfl, rfl⟩ := Prod.mk.inj hjd
        rw [hself, List.mem_singleton] at hrun
        refine ⟨s.served.length, x, List.getElem?_concat_length, ?_, by rw [hrun]⟩
        rw [hx, h.length]
        exact List.getElem?_concat_length
      · rw [hother j d hjd] at hrun
        obtain ⟨k, y, hk, hy, heq⟩ := h.run j d run hrun
        refine ⟨k, y, ?_, hinv hy, heq⟩
        rw [List.getElem?_append_left (List.getElem?_eq_some_iff.mp hk).1]
        exact hk

theorem benchInv_reach (hm : m < 2 ^ 32)
    (h : (benchMachine o m memory pool n).Reach (Bench.start n m k) s) :
    BenchInv o m k memory pool s :=
  h.invariant (benchInv_start n m k) fun _ _ _ hi _ ht => benchInv_step hm hi (benchMoves_of_step ht)

/-- **Each call is served its own slice of the pool.** In every state of the bench with at most
    `2 ^ 31 + 1` runs of the handler: no call is served twice, and a call that has returned was served
    by one run, say the `k`-th, and returns of slice `k % kBufferCnt` what its buffer holds. Where the
    pool is all `0xEE` and the buffer of `kRecvMsgSize` bytes, as the bench has them, it returns
    `kRecvMsgSize` and the buffer is all `0xEE`. -/
theorem bench_serves_slices (o : ByteOrder) (m k n : Nat) (memory : UInt64 → UInt8)
    (pool : UInt64) (hm : m < 2 ^ 32) (s : Bench n)
    (h : (benchMachine o m memory pool n).Reach (Bench.start n m k) s)
    (hruns : s.handler.invocations.length ≤ 2 ^ 31 + 1) :
    s.served.length = s.handler.invocations.length ∧ s.served.Nodup ∧
    ∀ i c, ((s.mux.clients i).link.client.calls c).pc = .returned →
      ((s.mux.clients i).link.client.calls c).nbytes =
        min 4096 ((s.mux.clients i).given c).length ∧
      (∃ k : Nat, s.served[k]? = some c ∧
        ((s.mux.clients i).link.client.calls c).respBuffer.take
          ((s.mux.clients i).link.client.calls c).nbytes =
            (handlerSlice memory pool (UInt64.ofNat (k % 1024 * 4096))).take
              ((s.mux.clients i).link.client.calls c).nbytes) ∧
      ((∀ j < diskPoolSize, memory (pool + UInt64.ofNat j) = 0xEE) →
        ((s.mux.clients i).given c).length = kRecvMsgSize →
        ((s.mux.clients i).link.client.calls c).nbytes = kRecvMsgSize ∧
        ((s.mux.clients i).link.client.calls c).respBuffer =
          List.replicate kRecvMsgSize 0xEE) := by
  have hb := benchInv_reach hm h
  refine ⟨hb.length, hb.once, fun i c hp => ?_⟩
  have hi := systemInv_reach hm (hb.given.client i)
  obtain ⟨response, hresp, hn, htake, hdrop⟩ := ((hi.call c).done (Or.inr hp)).bytes
  obtain ⟨k, x, hk, hx, heq⟩ := hb.run i c _ (by rw [hresp.1]; exact List.mem_singleton_self _)
  have hcopies := hb.copies x (List.mem_of_getElem? hx)
  have hlt : k < s.handler.invocations.length := (List.getElem?_eq_some_iff.mp hx).1
  have hle : k ≤ 2 ^ 31 := by omega
  have hslice : response = handlerSlice memory pool (UInt64.ofNat (k % 1024 * 4096)) :=
    calc response = x.resp.take x.size := heq
      _ = handlerSlice memory pool x.offset := hcopies.resp
      _ = handlerSlice memory pool (handlerOffset (Int32.ofNat k)) := by
        rw [hb.handler.offset k x hx]
      _ = handlerSlice memory pool (UInt64.ofNat (k % 1024 * 4096)) := handlerSlice_ofNat hle
  rw [hslice, handlerSlice_length] at hn
  rw [hslice] at htake
  refine ⟨hn, ⟨k, hk, htake⟩, fun hpool hlen => ?_⟩
  have hfull : ((s.mux.clients i).link.client.calls c).nbytes = 4096 := by
    rw [hn, hlen]
    rfl
  refine ⟨hfull, ?_⟩
  rw [handlerSlice_eq_replicate hpool, hfull, List.take_replicate] at htake
  have hrest : ((s.mux.clients i).link.client.calls c).respBuffer.drop 4096 = [] := by
    rw [hfull] at hdrop
    rw [hdrop]
    exact List.drop_eq_nil_of_le (Nat.le_of_eq hlen)
  rw [← List.take_append_drop 4096 ((s.mux.clients i).link.client.calls c).respBuffer, htake, hrest,
    List.append_nil]
  rfl

/-- Client `i` and its server at `u`. -/
def Bench.setClient (s : Bench n) (i : Fin n) (u : System) : Bench n :=
  { s with mux := { s.mux with clients := Function.update s.mux.clients i u } }

/-- A statement that client, server and queue pair allow. -/
theorem bench_run {a : SystemAction} (hp : s.mux.Permits i a)
    (he : SystemEnabled (s.mux.clients i) a) (ha : (MuxAction.run i a).isHandle = false) :
    (benchMachine o m memory pool n).step s (.mux (.run i a)) =
      some (s.setClient i (systemNext o m (s.mux.clients i) a)) := by
  have hclient : (systemMachine o m).step (s.mux.clients i) a =
      some (systemNext o m (s.mux.clients i) a) := Machine.guarded_step_eq_some.mpr ⟨he, rfl⟩
  show benchStep o m memory pool s (.mux (.run i a)) = _
  unfold benchStep
  dsimp only
  rw [if_pos ha]
  unfold muxStep
  dsimp only
  rw [if_pos hp, hclient]
  rfl

/-- The response of server worker `v` reaches client worker `w`, and the worker takes it up. -/
def Bench.takeUp (o : ByteOrder) (m : Nat) (s : Bench n) (i : Fin n) (c v w : Nat) : Bench n :=
  let u := systemNext o m (s.mux.clients i) (.answer c v w)
  (s.setClient i u).setClient i
    (systemNext o m u (.client (.recvDone w (some ((s.mux.clients i).response v)))))

theorem takeUp_reach {w : Nat} (ha : SystemEnabled (s.mux.clients i) (.answer c v w))
    (hf : (s.mux.clients i).link.client.fault = none)
    (hw : ((s.mux.clients i).link.client.workers w).pc = .receiving)
    (hlen : ((s.mux.clients i).response v).length ≤ kRecvBufferSize) :
    (benchMachine o m memory pool n).Reach s (s.takeUp o m i c v w) := by
  obtain ⟨u, hu⟩ : ∃ u, u = systemNext o m (s.mux.clients i) (.answer c v w) := ⟨_, rfl⟩
  have hanswered : (benchMachine o m memory pool n).Reach s (s.setClient i u) := by
    rw [hu]
    exact .step (.mux (.run i (.answer c v w))) .start trivial (bench_run trivial ha rfl)
  have hself : (s.setClient i u).mux.clients i = u := Function.update_self ..
  have hrecv : u.link.recvs w = .packet c ((s.mux.clients i).response v) := by
    rw [hu]
    exact Function.update_self ..
  have henabled :
      SystemEnabled u (.client (.recvDone w (some ((s.mux.clients i).response v)))) := by
    refine ⟨rfl, ?_, ?_⟩
    · rw [hu]
      exact ⟨hf, hw, fun bytes hbytes => Option.mem_some.mp hbytes ▸ hlen⟩
    · show (u.link.recvs w).completion = _
      rw [hrecv]
      rfl
  have htaken : (benchMachine o m memory pool n).step (s.setClient i u)
      (.mux (.run i (.client (.recvDone w (some ((s.mux.clients i).response v)))))) = some _ :=
    bench_run trivial (hself.symm ▸ henabled) rfl
  rw [hself, hu] at htaken
  rw [hu] at hanswered
  exact .step _ hanswered trivial htaken

end Bench

/-- One call, up to the send of its response. -/
def oneCall : List (BenchAction 1) :=
  let call : List Action :=
    [.call 0 [7, 8] [1, 2, 3, 4], .dequeue 0 0, .fetchAdd 0, .storeWaiter 0, .storeBuffer 0,
      .storeId 0, .fill 0, .post 0 true, .postRecv 0 true]
  let request : List SystemAction :=
    [.server (.postRecv 0), .deliver 0 0,
      .server (.recvDone 0 [0, 0, 0, 0, 0, 0, 0, 0, 2, 0, 0, 0, 0, 0, 0, 0, 7, 8]),
      .server (.schedule 0)]
  let reply : List SystemAction := [.server (.stamp 0), .server (.send 0)]
  .mux (.select 0) :: (call.map SystemAction.client ++ request).map (fun a => .mux (.run 0 a)) ++
    .handler 0 0 :: reply.map fun a => .mux (.run 0 a)

/-- The rest of it. -/
def oneReturn : List (BenchAction 1) :=
  let sent : List SystemAction := [.completeSend 0, .server (.sendDone 0)]
  let answered : List Action := [.check 0, .copy 0 0, .sendDone 0 true, .suspend 0, .wake 0 0 0,
    .resume 0, .enqueue 0]
  (sent ++ answered.map SystemAction.client).map fun a => .mux (.run 0 a)

/-- A call that has the first four bytes of a slice. -/
theorem bench_serves_slices_first : ∃ s : Bench 1,
    (benchMachine .little 1 (fun _ => 0xEE) 65536 1).Reach (Bench.start 1 1 1) s ∧
      s.served = [0] ∧ ((s.mux.clients 0).link.client.calls 0).pc = .returned ∧
      ((s.mux.clients 0).link.client.calls 0).respBuffer = [0xEE, 0xEE, 0xEE, 0xEE] ∧
      ((s.mux.clients 0).link.client.calls 0).nbytes = 4 := by
  let M := benchMachine .little 1 (fun _ => 0xEE) 65536 1
  let s := (M.run (Bench.start 1 1 1) oneCall).get (by decide +kernel)
  have hs : M.Reach (Bench.start 1 1 1) s := Machine.reach_of_run _ (Option.some_get _).symm
  have ht : M.Reach (Bench.start 1 1 1) (s.takeUp .little 1 0 0 0 0) := hs.trans
    (takeUp_reach (by decide +kernel) (by decide +kernel) (by decide +kernel) (by decide +kernel))
  obtain ⟨u, hu, hd⟩ := Machine.exists_reach_of_run (M := M)
    (s := s.takeUp .little 1 0 0 0 0)
    oneReturn
    (fun s => s.served = [0] ∧ s.handler.invocations.length = 1 ∧
      ((s.mux.clients 0).link.client.calls 0).pc = .returned ∧
      ((s.mux.clients 0).link.client.calls 0).respBuffer = [0xEE, 0xEE, 0xEE, 0xEE] ∧
      ((s.mux.clients 0).given 0).length = 4) (by decide +kernel)
  obtain ⟨hserved, hruns, hp, hb, hlen⟩ := of_decide_eq_true hd
  have hr : M.Reach (Bench.start 1 1 1) u := ht.trans hu
  obtain ⟨-, -, hcalls⟩ :=
    bench_serves_slices .little 1 1 1 _ _ (by decide) u hr (by rw [hruns]; decide)
  refine ⟨u, hr, hserved, hp, hb, ?_⟩
  rw [(hcalls 0 0 hp).1, hlen]
  rfl

end Rpc
end Rdmapp
