/-
  File:      Rdmapp/Lib/Transition.lean
  Subject:   MACHINES: partial step functions, their runs, and what holds along every run.

  A `Machine` answers an action in a state with the next state, or not at all when the action
  is not possible there. `Reach` are the states its runs reach; `ReachIf` those reached by runs
  each of whose steps meets a condition on the state before it and the action. The invariant
  rule (`ReachIf.invariant`) carries a step lemma to whole runs, and `Machine.family` runs any
  number of copies side by side, one copy moving at a time.
-/
import Mathlib.Logic.Function.Basic
import Mathlib.Data.List.Basic

namespace Lib

/-- A machine with states `σ` and actions `α`. -/
structure Machine (σ α : Type*) where
  step : σ → α → Option σ

namespace Machine

variable {σ α : Type*}

/-! ## 1. Runs -/

/-- The state after a list of actions, if each is possible in its turn. -/
def run (M : Machine σ α) : σ → List α → Option σ
  | s, [] => some s
  | s, a :: as => (M.step s a).bind fun t => M.run t as

/-- The states reached from `s₀` by steps that meet the condition `C`. -/
inductive ReachIf (M : Machine σ α) (C : σ → α → Prop) (s₀ : σ) : σ → Prop
  | start : ReachIf M C s₀ s₀
  | step {s t : σ} (a : α) (h : ReachIf M C s₀ s) (hc : C s a) (hs : M.step s a = some t) :
      ReachIf M C s₀ t

/-- The states the machine reaches from `s₀`. -/
abbrev Reach (M : Machine σ α) (s₀ : σ) : σ → Prop := ReachIf M (fun _ _ => True) s₀

variable {M : Machine σ α} {C : σ → α → Prop} {s₀ s t : σ}

@[simp] theorem run_nil (M : Machine σ α) (s : σ) : M.run s [] = some s := rfl

theorem run_cons (M : Machine σ α) (s : σ) (a : α) (as : List α) :
    M.run s (a :: as) = (M.step s a).bind fun t => M.run t as := rfl

theorem run_cons_eq_some {a : α} {as : List α} :
    M.run s (a :: as) = some t ↔ ∃ u, M.step s a = some u ∧ M.run u as = some t := by
  rw [run_cons]
  exact Option.bind_eq_some_iff

theorem run_append_eq_some {as bs : List α} :
    M.run s (as ++ bs) = some t ↔ ∃ u, M.run s as = some u ∧ M.run u bs = some t := by
  induction as generalizing s with
  | nil => exact ⟨fun h => ⟨s, rfl, h⟩, fun ⟨u, hu, h⟩ => by cases hu; exact h⟩
  | cons a as ih =>
    rw [List.cons_append, run_cons_eq_some]
    constructor
    · rintro ⟨v, hv, h⟩
      obtain ⟨u, hu, hb⟩ := ih.mp h
      exact ⟨u, run_cons_eq_some.mpr ⟨v, hv, hu⟩, hb⟩
    · rintro ⟨u, hu, hb⟩
      obtain ⟨v, hv, hu⟩ := run_cons_eq_some.mp hu
      exact ⟨v, hv, ih.mpr ⟨u, hu, hb⟩⟩

theorem ReachIf.mono {C' : σ → α → Prop} (hC : ∀ s a, C s a → C' s a) (h : M.ReachIf C s₀ s) :
    M.ReachIf C' s₀ s := by
  induction h with
  | start => exact .start
  | step a _ hc hs ih => exact .step a ih (hC _ _ hc) hs

theorem ReachIf.reach (h : M.ReachIf C s₀ s) : M.Reach s₀ s :=
  h.mono fun _ _ _ => trivial

theorem ReachIf.trans (h : M.ReachIf C s₀ s) (h' : M.ReachIf C s t) : M.ReachIf C s₀ t := by
  induction h' with
  | start => exact h
  | step a _ hc hs ih => exact .step a ih hc hs

/-- A run of actions that meet the condition in every state is a way to reach its last state. -/
theorem reachIf_of_run (as : List α) (hC : ∀ a ∈ as, ∀ s, C s a) (h : M.run s as = some t) :
    M.ReachIf C s t := by
  induction as generalizing s with
  | nil =>
    cases h
    exact .start
  | cons a as ih =>
    obtain ⟨u, hs, hr⟩ := run_cons_eq_some.mp h
    have hrest := ih (fun b hb => hC b (List.mem_cons_of_mem a hb)) hr
    exact (ReachIf.step a .start (hC a List.mem_cons_self s) hs).trans hrest

/-- A run is a way to reach its last state. -/
theorem reach_of_run (as : List α) (h : M.run s as = some t) : M.Reach s t :=
  reachIf_of_run as (fun _ _ _ => trivial) h

/-- A run, evaluated, and what is seen in its last state. -/
theorem exists_reachIf_of_run (as : List α) (hC : ∀ a ∈ as, ∀ s, C s a) (p : σ → Bool)
    (h : (M.run s as).any p = true) : ∃ t, M.ReachIf C s t ∧ p t = true := by
  obtain ⟨t, ht, hp⟩ := (Option.any_eq_true p _).mp h
  exact ⟨t, reachIf_of_run as hC ht, hp⟩

theorem exists_reach_of_run (as : List α) (p : σ → Bool) (h : (M.run s as).any p = true) :
    ∃ t, M.Reach s t ∧ p t = true :=
  exists_reachIf_of_run as (fun _ _ _ => trivial) p h

/-- A run goes on from a state that is reached. -/
theorem ReachIf.exists_of_run (h : M.ReachIf C s₀ s) (as : List α) (hC : ∀ a ∈ as, ∀ s, C s a)
    (p : σ → Bool) (hp : (M.run s as).any p = true) : ∃ t, M.ReachIf C s₀ t ∧ p t = true := by
  obtain ⟨t, ht, hp⟩ := exists_reachIf_of_run as hC p hp
  exact ⟨t, h.trans ht, hp⟩

/-- **Refinement.** Where each admitted step of `N`, seen through `f`, is an admitted step of `M`
    or none, what `N` reaches is seen as what `M` reaches. -/
theorem ReachIf.project {τ β : Type*} {N : Machine τ β} {D : τ → β → Prop} {f : τ → σ} {u₀ u : τ}
    (h : N.ReachIf D u₀ u)
    (hstep : ∀ u b v, D u b → N.step u b = some v →
      f v = f u ∨ ∃ a, C (f u) a ∧ M.step (f u) a = some (f v)) :
    M.ReachIf C (f u₀) (f u) := by
  induction h with
  | start => exact .start
  | step b _ hd hs ih =>
    rcases hstep _ b _ hd hs with he | ⟨a, hc, ha⟩
    · rw [he]
      exact ih
    · exact .step a ih hc ha

/-- The machine that moves by `next` where `enabled` holds. -/
def guarded (enabled : σ → α → Prop) [∀ s a, Decidable (enabled s a)] (next : σ → α → σ) :
    Machine σ α where
  step s a := if enabled s a then some (next s a) else none

theorem guarded_step_eq_some {enabled : σ → α → Prop} [∀ s a, Decidable (enabled s a)]
    {next : σ → α → σ} {a : α} :
    (guarded enabled next).step s a = some t ↔ enabled s a ∧ next s a = t := by
  show (if enabled s a then some (next s a) else none) = some t ↔ _
  by_cases h : enabled s a
  · rw [if_pos h, Option.some.injEq, and_iff_right h]
  · rw [if_neg h]
    exact iff_of_false (fun hc => nomatch hc) fun hc => h hc.1

/-! ## 2. Invariants -/

/-- **What holds at the start and is kept by every admitted step holds wherever such steps
    lead.** -/
theorem ReachIf.invariant {P : σ → Prop} (h : M.ReachIf C s₀ s) (h₀ : P s₀)
    (hstep : ∀ s a t, P s → C s a → M.step s a = some t → P t) : P s := by
  induction h with
  | start => exact h₀
  | step a _ hc hs ih => exact hstep _ a _ ih hc hs

/-! ## 3. Many copies -/

/-- Machines `M i` side by side: an action names the copy that moves. -/
def family {ι : Type*} [DecidableEq ι] (M : ι → Machine σ α) : Machine (ι → σ) (ι × α) where
  step s a := ((M a.1).step (s a.1) a.2).map (Function.update s a.1)

section Family

variable {ι : Type*} [DecidableEq ι] {N : ι → Machine σ α} {f g : ι → σ} {i : ι} {b : α}

theorem family_step_eq_some :
    (family N).step f (i, b) = some g ↔
      ∃ u, (N i).step (f i) b = some u ∧ g = Function.update f i u := by
  show ((N i).step (f i) b).map (Function.update f i) = some g ↔ _
  rw [Option.map_eq_some_iff]
  constructor
  · rintro ⟨u, hu, rfl⟩
    exact ⟨u, hu, rfl⟩
  · rintro ⟨u, hu, rfl⟩
    exact ⟨u, hu, rfl⟩

/-- A step of the family is a step of one copy; every other copy stays. -/
theorem family_step_apply (h : (family N).step f (i, b) = some g) (j : ι) :
    (j = i ∧ (N i).step (f i) b = some (g i)) ∨ (j ≠ i ∧ g j = f j) := by
  obtain ⟨u, hu, rfl⟩ := family_step_eq_some.mp h
  by_cases hj : j = i
  · refine Or.inl ⟨hj, ?_⟩
    rw [Function.update_self]
    exact hu
  · exact Or.inr ⟨hj, Function.update_of_ne hj u f⟩

/-- **Each copy of a reachable family is reachable on its own.** -/
theorem family_reach {f₀ : ι → σ} (h : (family N).Reach f₀ f) (j : ι) :
    (N j).Reach (f₀ j) (f j) := by
  induction h with
  | start => exact .start
  | step a _ _ hs ih =>
    rcases family_step_apply (i := a.1) (b := a.2) hs j with ⟨rfl, hs'⟩ | ⟨-, he⟩
    · exact .step a.2 ih trivial hs'
    · rw [he]
      exact ih

/-- What a copy reaches on its own the family reaches, the other copies staying. -/
theorem family_reach_update {u : σ} (h : (N i).Reach (f i) u) :
    (family N).Reach f (Function.update f i u) := by
  induction h with
  | start =>
    rw [Function.update_eq_self]
    exact .start
  | @step v w a _ _ hs ih =>
    refine .step (i, a) ih trivial (family_step_eq_some.mpr ⟨w, ?_, ?_⟩)
    · rw [Function.update_self]
      exact hs
    · rw [Function.update_idem]

/-- **An invariant of each copy, kept under a condition on the copy's own state and action, holds
    of every copy along every run of the family whose steps meet the condition.** -/
theorem family_invariant {D : ι → σ → α → Prop} {P : ι → σ → Prop} {f₀ : ι → σ}
    (h : (family N).ReachIf (fun f a => D a.1 (f a.1) a.2) f₀ f) (h₀ : ∀ i, P i (f₀ i))
    (hstep : ∀ i s a t, P i s → D i s a → (N i).step s a = some t → P i t) (j : ι) : P j (f j) := by
  induction h generalizing j with
  | start => exact h₀ j
  | step a _ hc hs ih =>
    rcases family_step_apply (i := a.1) (b := a.2) hs j with ⟨rfl, hs'⟩ | ⟨-, he⟩
    · exact hstep a.1 _ a.2 _ (ih a.1) hc hs'
    · rw [he]
      exact ih j

end Family

end Machine

end Lib
