/-
  File:      Rdmapp/Lib/RoundRobin.lean
  Subject:   CHOOSING A PLACE BY A COUNTER: how even the choices are.

  The `k`-th choice is place `f k % n`, where `f` is a counter that mostly goes on by one. As long as
  it does, the places' shares differ by one at most; each jump, such as the wrap of a machine word,
  adds one at most (`share_le`). A counter whose wraps the number of places divides has no jumps as
  far as the places see (`share_congr`).
-/
import Mathlib.Data.Int.CardIntervalMod

namespace Lib
namespace RoundRobin

/-- How many of the first `N` choices are place `i` of `n`. -/
def share (f : Nat → Nat) (n i N : Nat) : Nat := Nat.count (fun k => f k % n = i) N

/-- How often the counter has not gone on by one between the first `N` choices. -/
def jumps (f : Nat → Nat) (N : Nat) : Nat := Nat.count (fun k => f (k + 1) ≠ f k + 1) (N - 1)

variable {f g : Nat → Nat} {n i j N : Nat}

theorem share_succ (f : Nat → Nat) (n i N : Nat) :
    share f n i (N + 1) = share f n i N + if f N % n = i then 1 else 0 := Nat.count_succ _ N

theorem jumps_succ (f : Nat → Nat) (N : Nat) :
    jumps f (N + 2) = jumps f (N + 1) + if f (N + 1) ≠ f N + 1 then 1 else 0 :=
  Nat.count_succ _ N

/-- Counters that choose the same places. -/
theorem share_congr (h : ∀ k, f k % n = g k % n) (i N : Nat) : share f n i N = share g n i N := by
  unfold share
  simp only [h]

/-- The numbers below `x` that fall on place `i`. -/
theorem share_id (hi : i < n) (x : Nat) :
    share id n i x = x / n + if i < x % n then 1 else 0 := by
  have hcount := Nat.count_modEq_card x (Nat.zero_lt_of_lt hi) i
  rw [Nat.mod_eq_of_lt hi] at hcount
  rw [← hcount]
  unfold share Nat.ModEq
  simp only [id, Nat.mod_eq_of_lt hi]

/-- Two places' shares of the numbers below `x`, and of those below `y`, differ alike up to one. -/
theorem share_id_le (hi : i < n) (hj : j < n) (x y : Nat) :
    share id n i x + share id n j y ≤ share id n i y + share id n j x + 1 := by
  rw [share_id hi, share_id hi, share_id hj, share_id hj]
  split_ifs <;> omega

/-- Where the counter stands, the shares differ as those of the numbers below, from some number on,
    up to the jumps. -/
theorem share_drift (hi : i < n) (hj : j < n) (f : Nat → Nat) (N : Nat) : ∃ y,
    share f n i (N + 1) + share id n j (f N + 1) + share id n i y ≤
      share f n j (N + 1) + share id n i (f N + 1) + share id n j y + jumps f (N + 1) := by
  induction N with
  | zero =>
    refine ⟨f 0, ?_⟩
    rw [share_succ f, share_succ f, share_succ id, share_succ id]
    show 0 + _ + _ + _ ≤ 0 + _ + _ + _ + 0
    simp only [id]
    omega
  | succ N ih =>
    obtain ⟨y, hy⟩ := ih
    rw [share_succ f n i (N + 1), share_succ f n j (N + 1), share_succ id n i (f (N + 1)),
      share_succ id n j (f (N + 1)), jumps_succ]
    simp only [id]
    by_cases hjump : f (N + 1) = f N + 1
    · refine ⟨y, ?_⟩
      rw [if_neg (not_not.mpr hjump), hjump]
      omega
    · -- a new run of the counter begins
      refine ⟨f (N + 1), ?_⟩
      have hle := share_id_le hi hj (f N + 1) y
      rw [if_pos hjump]
      omega

/-- **The shares of two places differ by one at most, and by one more for each jump.** -/
theorem share_le (hi : i < n) (hj : j < n) (f : Nat → Nat) (N : Nat) :
    share f n i N ≤ share f n j N + 1 + jumps f N := by
  cases N with
  | zero => exact Nat.zero_le _
  | succ N =>
    obtain ⟨y, hy⟩ := share_drift hi hj f N
    have hle := share_id_le hi hj (f N + 1) y
    omega

/-- The multiples of `W` among the `M` numbers after `a`. -/
theorem count_dvd_le (W a M : Nat) : Nat.count (fun k => W ∣ k + a + 1) M ≤ (M + a) / W := by
  induction M with
  | zero => exact Nat.zero_le _
  | succ M ih =>
    rw [Nat.count_succ, show M + 1 + a = M + a + 1 by omega, Nat.succ_div]
    omega

/-- A counter that jumps only where it comes to a multiple of `W`, having started `a` after one. -/
theorem jumps_le {W a : Nat} (h : ∀ k, f (k + 1) ≠ f k + 1 → W ∣ k + a + 1) (N : Nat) :
    jumps f N ≤ (N + a) / W :=
  calc jumps f N ≤ Nat.count (fun k => W ∣ k + a + 1) (N - 1) :=
        Nat.count_mono_left fun k _ => h k
    _ ≤ (N - 1 + a) / W := count_dvd_le W a (N - 1)
    _ ≤ (N + a) / W := Nat.div_le_div_right (by omega)

/-- A counter that never wraps. -/
theorem jumps_id (N : Nat) : jumps id N = 0 :=
  Nat.count_iff_forall_not.mpr fun _ _ h => h rfl

/-- A counter modulo `W` jumps where it wraps. -/
theorem jumps_mod (W N : Nat) : jumps (· % W) N ≤ N / W := by
  refine jumps_le (a := 0) (fun k hk => ?_) N
  by_contra hdvd
  refine hk ?_
  show (k + 1) % W = k % W + 1
  rw [Nat.add_zero] at hdvd
  have hk := Nat.div_add_mod k W
  have hk' := Nat.div_add_mod (k + 1) W
  rw [Nat.succ_div_of_not_dvd hdvd] at hk'
  omega

end RoundRobin
end Lib
