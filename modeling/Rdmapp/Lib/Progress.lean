/-
  File:      Rdmapp/Lib/Progress.lean
  Subject:   PROGRESS: runs whose steps are counted, and measures that bound the count.

  `Machine.Takes C w s n t` is a run from `s` to `t` whose steps all meet the condition `C`, `n` of
  them counted by `w`. A measure that no step raises and every counted step lowers bounds `n`
  until the goal is reached (`Takes.goal_or_le`): so many counted steps lead to the goal
  (`Takes.goal`), and where there is no goal, every run ends (`Takes.le_measure`).
-/
import Rdmapp.Lib.Transition

namespace Lib
namespace Machine

variable {σ α : Type*}

/-- A run whose steps meet the condition `C`; `n` of them are counted by `w`. -/
inductive Takes (M : Machine σ α) (C : σ → α → Prop) (w : α → Bool) (s : σ) : Nat → σ → Prop
  | start : Takes M C w s 0 s
  | step {n : Nat} {t u : σ} (a : α) (h : Takes M C w s n t) (hc : C t a)
      (hs : M.step t a = some u) : Takes M C w s (n + (w a).toNat) u

variable {M : Machine σ α} {C : σ → α → Prop} {w : α → Bool} {s t : σ} {n : Nat}

theorem Takes.trans {m : Nat} {u : σ} (h : M.Takes C w s m t) (h' : M.Takes C w t n u) :
    M.Takes C w s (m + n) u := by
  induction h' with
  | start => exact h
  | step a _ hc hs ih =>
    rw [← Nat.add_assoc]
    exact .step a ih hc hs

section Measure

variable {P G : σ → Prop} {μ : σ → Nat}

/-- **The measure pays for the counted steps until the goal is reached.** `P` is an invariant of the
    steps, the goal `G` is kept once it is reached. -/
theorem Takes.goal_or_le (h : M.Takes C w s n t) (hP : P s)
    (hkeep : ∀ t a u, P t → C t a → M.step t a = some u → P u)
    (hgoal : ∀ t a u, P t → G t → C t a → M.step t a = some u → G u)
    (hpay : ∀ t a u, P t → ¬ G t → C t a → M.step t a = some u →
      G u ∨ μ u + (w a).toNat ≤ μ t) :
    P t ∧ (G t ∨ μ t + n ≤ μ s) := by
  induction h with
  | start => exact ⟨hP, Or.inr (Nat.le_refl _)⟩
  | @step m u v a _ hc hs ih =>
    obtain ⟨hPu, hor⟩ := ih
    refine ⟨hkeep u a v hPu hc hs, ?_⟩
    rcases hor with hG | hle
    · exact Or.inl (hgoal u a v hPu hG hc hs)
    · by_cases hG : G u
      · exact Or.inl (hgoal u a v hPu hG hc hs)
      · rcases hpay u a v hPu hG hc hs with hG' | hpaid
        · exact Or.inl hG'
        · exact Or.inr (by omega)

/-- **More counted steps than the measure allows lead to the goal.** -/
theorem Takes.goal (h : M.Takes C w s n t) (hn : μ s < n) (hP : P s)
    (hkeep : ∀ t a u, P t → C t a → M.step t a = some u → P u)
    (hgoal : ∀ t a u, P t → G t → C t a → M.step t a = some u → G u)
    (hpay : ∀ t a u, P t → ¬ G t → C t a → M.step t a = some u →
      G u ∨ μ u + (w a).toNat ≤ μ t) : G t := by
  rcases (h.goal_or_le hP hkeep hgoal hpay).2 with hG | hle
  · exact hG
  · omega

/-- **Where every step pays, the measure bounds the length of every run.** -/
theorem Takes.le_measure (h : M.Takes C w s n t) (hP : P s)
    (hkeep : ∀ t a u, P t → C t a → M.step t a = some u → P u)
    (hpay : ∀ t a u, P t → C t a → M.step t a = some u → μ u + (w a).toNat ≤ μ t) :
    μ t + n ≤ μ s := by
  rcases (h.goal_or_le (G := fun _ => False) hP hkeep (fun _ _ _ _ hG => hG.elim)
    fun t a u hPt _ hc hs => Or.inr (hpay t a u hPt hc hs)).2 with hG | hle
  · exact hG.elim
  · exact hle

end Measure

end Machine
end Lib
