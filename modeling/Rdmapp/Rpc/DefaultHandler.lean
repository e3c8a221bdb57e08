/-
  File:      Rdmapp/Rpc/DefaultHandler.lean
  Subject:   `default_handler`: which slice of the disk pool each invocation copies.

  The shared counter is a 32-bit signed number that wraps. Its remainder takes its sign, and a
  negative one becomes an offset far outside the pool in the conversion to `size_t`. So an
  invocation is served a slice of the pool unless the counter is negative and no multiple of
  `kBufferCnt` (`slice_iff`), and a run goes round the slices exactly if it has at most
  `2 ^ 31 + 1` invocations (`round_robin_iff`).
-/
import Mathlib.Tactic.Ring
import Rdmapp.Lib.Transition

namespace Rdmapp
namespace Rpc

open Lib

/-! ## 1. The handler -/

def kBufferCnt : Int32 := 1024
def kBufferSize : Int32 := 4096

/-- `global_disk_pool_.size()`. -/
def diskPoolSize : Nat := 4096 * 1024

/-- `g_disk_pool_cnt % kBufferCnt * kBufferSize`, as a `size_t`. -/
def handlerOffset (cnt : Int32) : UInt64 := UInt64.ofInt (cnt % kBufferCnt * kBufferSize).toInt

/-- What the handler reads: the bytes at `pool + offset`. -/
def handlerSlice (memory : UInt64 → UInt8) (pool offset : UInt64) : List UInt8 :=
  (List.range 4096).map fun i => memory (pool + offset + UInt64.ofNat i)

/-- One run of the handler, by a server worker. -/
structure Invocation where
  worker : Nat
  offset : UInt64
  resp : List UInt8
  /-- The length returned. -/
  size : Nat

structure HandlerState where
  /-- `g_disk_pool_cnt`. -/
  cnt : Int32
  invocations : List Invocation

def HandlerState.start : HandlerState := ⟨0, []⟩

/-- `default_handler` on the buffer `resp`. -/
def defaultHandler (memory : UInt64 → UInt8) (pool : UInt64) (s : HandlerState)
    (worker : Nat) (resp : List UInt8) : HandlerState :=
  let slice := handlerSlice memory pool (handlerOffset s.cnt)
  ⟨s.cnt + 1, s.invocations ++
    [⟨worker, handlerOffset s.cnt, slice ++ resp.drop slice.length, slice.length⟩]⟩

/-- The workers invoke the handler in any order. -/
def handlerMachine (memory : UInt64 → UInt8) (pool : UInt64) :
    Machine HandlerState (Nat × List UInt8) where
  step s a := some (defaultHandler memory pool s a.1 a.2)

/-- The slice lies in the pool. -/
def SliceInPool (offset : UInt64) : Prop :=
  4096 ∣ offset.toNat ∧ offset.toNat + 4096 ≤ diskPoolSize

/-- Every invocation copies a slice of the pool, each one the slice after the one before. -/
structure RoundRobin (s : HandlerState) : Prop where
  inPool : ∀ x ∈ s.invocations, SliceInPool x.offset
  cyclic : ∀ (k : Nat) (x y : Invocation), s.invocations[k]? = some x →
    s.invocations[k + 1]? = some y →
    y.offset.toNat = (x.offset.toNat + 4096) % diskPoolSize

section Handler

variable {memory : UInt64 → UInt8} {pool : UInt64} {s : HandlerState} {cnt : Int32} {k n : Nat}

/-! ## 2. One invocation -/

/-- The product does not wrap. -/
theorem offset_toInt (cnt : Int32) :
    (cnt % kBufferCnt * kBufferSize).toInt = cnt.toInt.tmod 1024 * 4096 := by
  have hlt : cnt.toInt.tmod 1024 < 1024 := Int.tmod_lt_of_pos _ (by decide)
  have hgt : -1024 < cnt.toInt.tmod 1024 := Int.lt_tmod_of_pos _ (by decide)
  rw [Int32.toInt_mul, Int32.toInt_mod]
  show (cnt.toInt.tmod 1024 * 4096).bmod (2 ^ 32) = _
  exact Int.bmod_eq_of_le (by omega) (by omega)

/-- The remainder is taken modulo `2 ^ 64`. -/
theorem handlerOffset_toNat (cnt : Int32) :
    ((handlerOffset cnt).toNat : Int) = cnt.toInt.tmod 1024 * 4096 % 2 ^ 64 := by
  unfold handlerOffset UInt64.ofInt
  rw [offset_toInt, UInt64.toNat_ofNat_of_lt']
  · exact Int.toNat_of_nonneg (Int.emod_nonneg _ (by decide))
  · show (cnt.toInt.tmod 1024 * 4096 % 2 ^ 64).toNat < 2 ^ 64
    have hlt := Int.emod_lt_of_pos (cnt.toInt.tmod 1024 * 4096) (b := 2 ^ 64) (by decide)
    omega

/-- **An invocation is served from the pool** unless the counter is negative and not a multiple of
    the number of slices. -/
theorem slice_iff (cnt : Int32) :
    SliceInPool (handlerOffset cnt) ↔ 0 ≤ cnt.toInt ∨ (1024 : Int) ∣ cnt.toInt := by
  have hlt : cnt.toInt.tmod 1024 < 1024 := Int.tmod_lt_of_pos _ (by decide)
  have hgt : -1024 < cnt.toInt.tmod 1024 := Int.lt_tmod_of_pos _ (by decide)
  have hoffset := handlerOffset_toNat cnt
  have hsign : 0 ≤ cnt.toInt.tmod 1024 ↔ 0 ≤ cnt.toInt ∨ (1024 : Int) ∣ cnt.toInt := by
    constructor
    · intro h
      refine or_iff_not_imp_left.mpr fun hneg => Int.dvd_of_tmod_eq_zero ?_
      have hle : cnt.toInt.tmod 1024 ≤ 0 := by
        have hn := Int.tmod_nonneg (a := -cnt.toInt) 1024 (by omega)
        rw [Int.neg_tmod] at hn
        omega
      omega
    · rintro (h | h)
      · exact Int.tmod_nonneg _ h
      · exact Int.le_of_eq (Int.tmod_eq_zero_of_dvd h).symm
  rw [← hsign]
  unfold SliceInPool diskPoolSize
  omega

/-- The first `2 ^ 31 + 1` values of the counter. -/
theorem handlerOffset_ofNat (h : k ≤ 2 ^ 31) :
    (handlerOffset (Int32.ofNat k)).toNat = k % 1024 * 4096 := by
  have hoffset := handlerOffset_toNat (Int32.ofNat k)
  rw [Int32.toInt_ofNat', show Int32.size = 2 ^ 32 from rfl] at hoffset
  rcases Nat.lt_or_eq_of_le h with hlt | rfl
  · rw [Int.bmod_eq_of_le (by omega) (by omega), Int.tmod_eq_emod_of_nonneg (by omega)] at hoffset
    omega
  · -- the counter has wrapped to its least value, a multiple of `kBufferCnt`
    have hwrap : Int.tmod (Int.bmod ((2 ^ 31 : Nat) : Int) (2 ^ 32)) 1024 = 0 := by decide
    rw [hwrap] at hoffset
    omega

/-- The next one is the first that is not served. -/
theorem slice_next : ¬ SliceInPool (handlerOffset (Int32.ofNat (2 ^ 31 + 1))) := by
  rw [slice_iff]
  decide +kernel

/-! ## 3. Runs -/

/-- The counter counts the invocations, and each one had its value. -/
structure HandlerInv (s : HandlerState) : Prop where
  cnt : s.cnt = Int32.ofNat s.invocations.length
  offset : ∀ (k : Nat) (x : Invocation), s.invocations[k]? = some x →
    x.offset = handlerOffset (Int32.ofNat k)

theorem handlerInv_start : HandlerInv HandlerState.start := ⟨rfl, nofun⟩

theorem handlerInv_step (h : HandlerInv s) (worker : Nat) (resp : List UInt8) :
    HandlerInv (defaultHandler memory pool s worker resp) where
  cnt := by
    show s.cnt + 1 = Int32.ofNat (s.invocations ++ [_]).length
    rw [h.cnt, List.length_append, Int32.ofNat_add]
    rfl
  offset k x hx := by
    have hx' : (s.invocations ++ [_])[k]? = some x := hx
    rcases Nat.lt_or_ge k s.invocations.length with hlt | hge
    · rw [List.getElem?_append_left hlt] at hx'
      exact h.offset k x hx'
    · rw [List.getElem?_append_right hge, List.getElem?_singleton] at hx'
      split_ifs at hx' with hk
      obtain rfl : k = s.invocations.length := by omega
      rw [← Option.some.inj hx', ← h.cnt]

theorem handlerInv_reach (h : (handlerMachine memory pool).Reach HandlerState.start s) :
    HandlerInv s :=
  h.invariant handlerInv_start fun s a t hi _ ht => by
    obtain rfl : defaultHandler memory pool s a.1 a.2 = t := Option.some.inj ht
    exact handlerInv_step hi a.1 a.2

theorem HandlerInv.roundRobin (h : HandlerInv s) (hn : s.invocations.length ≤ 2 ^ 31 + 1) :
    RoundRobin s where
  inPool x hx := by
    obtain ⟨k, hk⟩ := List.mem_iff_getElem?.mp hx
    obtain ⟨hlt, -⟩ := List.getElem?_eq_some_iff.mp hk
    have hoffset := handlerOffset_ofNat (k := k) (by omega)
    rw [← h.offset k x hk] at hoffset
    unfold SliceInPool diskPoolSize
    omega
  cyclic k x y hx hy := by
    obtain ⟨hlt, -⟩ := List.getElem?_eq_some_iff.mp hy
    have hk := handlerOffset_ofNat (k := k) (by omega)
    have hk' := handlerOffset_ofNat (k := k + 1) (by omega)
    rw [← h.offset k x hx] at hk
    rw [← h.offset (k + 1) y hy] at hk'
    rw [hk, hk']
    unfold diskPoolSize
    omega

theorem HandlerInv.length_le (h : HandlerInv s) (hr : RoundRobin s) :
    s.invocations.length ≤ 2 ^ 31 + 1 := by
  refine Nat.le_of_not_lt fun hlt => slice_next ?_
  have hk := List.getElem?_eq_getElem hlt
  rw [← h.offset _ _ hk]
  exact hr.inPool _ (List.mem_of_getElem? hk)

/-- **The handler goes round its pool in exactly the runs of at most `2 ^ 31 + 1` invocations**,
    whatever workers made them and in whatever order. -/
theorem round_robin_iff (memory : UInt64 → UInt8) (pool : UInt64) (s : HandlerState)
    (h : (handlerMachine memory pool).Reach HandlerState.start s) :
    RoundRobin s ↔ s.invocations.length ≤ 2 ^ 31 + 1 :=
  ⟨(handlerInv_reach h).length_le, (handlerInv_reach h).roundRobin⟩

/-- Two invocations, by two workers. -/
theorem round_robin_iff_two : ∃ s,
    (handlerMachine (fun _ => 0xEE) 65536).Reach HandlerState.start s ∧
      s.invocations.map Invocation.offset = [0, 4096] ∧ RoundRobin s := by
  have hr : (handlerMachine (fun _ => 0xEE) 65536).Reach HandlerState.start _ :=
    Machine.reach_of_run [(3, []), (1, [])] rfl
  exact ⟨_, hr, by decide +kernel, (round_robin_iff _ _ _ hr).mpr (by decide)⟩

/-- There are runs of any length. -/
theorem exists_handler_run (memory : UInt64 → UInt8) (pool : UInt64) (n : Nat) : ∃ s,
    (handlerMachine memory pool).Reach HandlerState.start s ∧ s.invocations.length = n := by
  induction n with
  | zero => exact ⟨_, .start, rfl⟩
  | succ n ih =>
    obtain ⟨s, hs, hn⟩ := ih
    refine ⟨_, .step (0, []) hs trivial rfl, ?_⟩
    show (s.invocations ++ [_]).length = n + 1
    rw [List.length_append, hn]
    rfl

/-- The counter past its change of sign: the last of `2 ^ 31 + 2` invocations copies from outside
    the pool. -/
theorem handler_leaves_pool : ∃ s,
    (handlerMachine (fun _ => 0xEE) 65536).Reach HandlerState.start s ∧
      s.invocations.length = 2 ^ 31 + 2 ∧
      (∃ x ∈ s.invocations, ¬ SliceInPool x.offset) ∧ ¬ RoundRobin s := by
  obtain ⟨s, hs, hn⟩ := exists_handler_run (fun _ => 0xEE) 65536 (2 ^ 31 + 2)
  have hi := handlerInv_reach hs
  have hlt : 2 ^ 31 + 1 < s.invocations.length := by omega
  have hk := List.getElem?_eq_getElem hlt
  have hout : ¬ SliceInPool s.invocations[2 ^ 31 + 1].offset := by
    rw [hi.offset _ _ hk]
    exact slice_next
  exact ⟨s, hs, hn, ⟨_, List.mem_of_getElem? hk, hout⟩,
    fun hr => hout (hr.inPool _ (List.mem_of_getElem? hk))⟩

end Handler

end Rpc
end Rdmapp
