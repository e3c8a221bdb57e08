/-
  File:      Rdmapp/Lib/Unique.lean
  Subject:   RESOURCES WITH ONE OWNER: opened, moved from owner to owner, closed.

  Resources are numbered as they are opened. A move leaves its source empty and what its target
  held, if it held something, to nobody. Whatever happens a resource has at most one owner and is
  closed at most once (`Single`); none is lost (`Accounted`) exactly as long as nothing is moved
  onto, or dropped from, an owner that holds one (`accounted_reach`, `not_accounted_reach`).
-/
import Mathlib.Data.List.Nodup
import Rdmapp.Lib.Transition

namespace Lib

structure Owners (ι : Type*) where
  opened : Nat
  /-- The resources closed, in order. -/
  closed : List Nat
  held : ι → Option Nat

namespace Owners

inductive Action (ι : Type*) where
  | acquire (c : ι)
  /-- From `c` to `d`. -/
  | move (c d : ι)
  | release (c : ι)
  /-- The owner forgets what it holds. -/
  | forget (c : ι)

section Owners

variable {ι : Type*} [DecidableEq ι]

def init (ι : Type*) : Owners ι := ⟨0, [], fun _ => none⟩

def Enabled (s : Owners ι) : Action ι → Prop
  | .acquire c => s.held c = none
  | .move c d => c ≠ d
  | .release _ | .forget _ => True

instance (s : Owners ι) (a : Action ι) : Decidable (Enabled s a) :=
  match a with
  | .acquire _ => inferInstanceAs (Decidable (_ = _))
  | .move .. => inferInstanceAs (Decidable (¬ _))
  | .release _ | .forget _ => inferInstanceAs (Decidable True)

def next (s : Owners ι) : Action ι → Owners ι
  | .acquire c => { s with
      opened := s.opened + 1
      held := Function.update s.held c (some s.opened) }
  | .move c d => { s with held := Function.update (Function.update s.held d (s.held c)) c none }
  | .release c => { s with
      closed := s.closed ++ (s.held c).toList
      held := Function.update s.held c none }
  | .forget c => { s with held := Function.update s.held c none }

def machine (ι : Type*) [DecidableEq ι] : Machine (Owners ι) (Action ι) := .guarded Enabled next

/-- What the action overwrites. -/
def Overwrites (s : Owners ι) : Action ι → Prop
  | .move _ d | .forget d => s.held d ≠ none
  | _ => False

/-- At most one owner, closed at most once. -/
structure Single (s : Owners ι) : Prop where
  nodup : s.closed.Nodup
  closed_lt : ∀ i ∈ s.closed, i < s.opened
  held_lt : ∀ c i, s.held c = some i → i < s.opened
  disjoint : ∀ c i, s.held c = some i → i ∉ s.closed
  inj : ∀ c d i, s.held c = some i → s.held d = some i → c = d

/-- Every resource opened is closed or has an owner. -/
def Accounted (s : Owners ι) : Prop := ∀ i < s.opened, i ∈ s.closed ∨ ∃ c, s.held c = some i

/-- Opened and not closed, with no owner. -/
def Lost (s : Owners ι) (i : Nat) : Prop :=
  i < s.opened ∧ i ∉ s.closed ∧ ∀ c, s.held c ≠ some i

variable {s t u : Owners ι} {a : Action ι} {c d : ι} {i : Nat}

theorem single_init (ι : Type*) : Single (init ι) where
  nodup := List.nodup_nil
  closed_lt _ h := nomatch h
  held_lt _ _ h := nomatch h
  disjoint _ _ h := nomatch h
  inj _ _ _ h := nomatch h

/-! ## 1. One step -/

/-- What an owner has after a step it had before, or it was moved to it or opened by it. -/
theorem held_next (h : (next s a).held c = some i) :
    s.held c = some i ∨ (∃ b, a = .move b c ∧ s.held b = some i) ∨
      (a = .acquire c ∧ i = s.opened) := by
  have hnone : ∀ (f : ι → Option Nat) (b : ι), Function.update f b none c = some i →
      c ≠ b ∧ f c = some i := by
    intro f b hf
    rcases eq_or_ne c b with rfl | hne
    · rw [Function.update_self] at hf
      cases hf
    · rw [Function.update_of_ne hne] at hf
      exact ⟨hne, hf⟩
  cases a with
  | acquire b =>
    have hb : Function.update s.held b (some s.opened) c = some i := h
    rcases eq_or_ne c b with rfl | hne
    · rw [Function.update_self] at hb
      exact Or.inr (Or.inr ⟨rfl, (Option.some.inj hb).symm⟩)
    · rw [Function.update_of_ne hne] at hb
      exact Or.inl hb
  | move b d =>
    obtain ⟨-, hb⟩ := hnone _ b h
    rcases eq_or_ne c d with rfl | hne
    · rw [Function.update_self] at hb
      exact Or.inr (Or.inl ⟨b, rfl, hb⟩)
    · rw [Function.update_of_ne hne] at hb
      exact Or.inl hb
  | release b => exact Or.inl (hnone _ b h).2
  | forget b => exact Or.inl (hnone _ b h).2

/-- What a step leaves opened and closed. -/
theorem opened_le (s : Owners ι) (a : Action ι) : s.opened ≤ (next s a).opened := by
  cases a with
  | acquire => exact Nat.le_succ _
  | _ => exact Nat.le_refl _

theorem mem_closed_next (h : i ∈ (next s a).closed) :
    i ∈ s.closed ∨ ∃ c, a = .release c ∧ s.held c = some i := by
  cases a with
  | release c =>
    rcases List.mem_append.mp h with h | h
    · exact Or.inl h
    · exact Or.inr ⟨c, rfl, Option.mem_toList.mp h⟩
  | _ => exact Or.inl h

theorem closed_subset (h : i ∈ s.closed) : i ∈ (next s a).closed := by
  cases a with
  | release => exact List.mem_append_left _ h
  | _ => exact h

/-- **No step gives a resource a second owner, or closes it twice.** -/
theorem Single.step (h : Single s) (he : Enabled s a) : Single (next s a) where
  nodup := by
    cases a with
    | release c =>
      refine List.nodup_append.mpr ⟨h.nodup, ?_, fun x hx y hy hxy => ?_⟩
      · cases s.held c with
        | none => exact List.nodup_nil
        | some i => exact List.nodup_singleton i
      · exact h.disjoint c y (Option.mem_toList.mp hy) (hxy ▸ hx)
    | _ => exact h.nodup
  closed_lt i hi := by
    refine Nat.lt_of_lt_of_le ?_ (opened_le s a)
    rcases mem_closed_next hi with hi | ⟨c, -, hc⟩
    · exact h.closed_lt i hi
    · exact h.held_lt c i hc
  held_lt c i hi := by
    rcases held_next hi with hc | ⟨b, -, hb⟩ | ⟨rfl, rfl⟩
    · exact Nat.lt_of_lt_of_le (h.held_lt c i hc) (opened_le s a)
    · exact Nat.lt_of_lt_of_le (h.held_lt b i hb) (opened_le s a)
    · exact Nat.lt_succ_self _
  disjoint c i hi hm := by
    rcases mem_closed_next hm with hm | ⟨b, rfl, hb⟩
    · rcases held_next hi with hc | ⟨b, -, hb⟩ | ⟨-, rfl⟩
      · exact h.disjoint c i hc hm
      · exact h.disjoint b i hb hm
      · exact absurd (h.closed_lt _ hm) (Nat.lt_irrefl _)
    · -- the owner that closes it has it no more
      rcases held_next hi with hc | ⟨x, hx, -⟩ | ⟨hx, -⟩
      · obtain rfl := h.inj c b i hc hb
        have hnone : (next s (.release c)).held c = none := Function.update_self c _ _
        cases hnone.symm.trans hi
      · cases hx
      · cases hx
  inj c d i hc hd := by
    -- the source of a move is empty after it
    have hmoved : ∀ x b, a = .move b x → (next s a).held b = none := by
      rintro x b rfl
      exact Function.update_self b _ _
    have hnew : ∀ x, s.held x = some i → i ≠ s.opened := fun x hx =>
      Nat.ne_of_lt (h.held_lt x i hx)
    rcases held_next hc with hc' | ⟨b, hb, hc'⟩ | ⟨hb, rfl⟩ <;>
      rcases held_next hd with hd' | ⟨e, hed, hd'⟩ | ⟨hed, hi⟩
    · exact h.inj c d i hc' hd'
    · obtain rfl := h.inj c e i hc' hd'
      cases (hmoved d c hed).symm.trans hc
    · exact absurd hi (hnew c hc')
    · obtain rfl := h.inj b d i hc' hd'
      cases (hmoved c b hb).symm.trans hd
    · cases hb.symm.trans hed
      rfl
    · exact absurd hi (hnew b hc')
    · exact absurd rfl (hnew d hd')
    · exact absurd rfl (hnew e hd')
    · cases hb.symm.trans hed
      rfl

/-- An action that overwrites nothing loses nothing. -/
theorem Accounted.step (h : Accounted s) (he : Enabled s a) (hc : ¬ Overwrites s a) :
    Accounted (next s a) := by
  intro i hi
  by_cases hnew : i < s.opened
  · rcases h i hnew with hm | ⟨c, hic⟩
    · exact Or.inl (closed_subset hm)
    · cases a with
      | acquire b =>
        have hcb : c ≠ b := by
          rintro rfl
          cases hic.symm.trans he
        exact Or.inr ⟨c, (Function.update_of_ne hcb _ _).trans hic⟩
      | move b d =>
        have hd : s.held d = none := Classical.byContradiction hc
        rcases eq_or_ne c b with rfl | hne
        · refine Or.inr ⟨d, (Function.update_of_ne (Ne.symm he) _ _).trans ?_⟩
          rw [Function.update_self]
          exact hic
        · have hcd : c ≠ d := by
            rintro rfl
            cases hic.symm.trans hd
          refine Or.inr ⟨c, (Function.update_of_ne hne _ _).trans ?_⟩
          rw [Function.update_of_ne hcd]
          exact hic
      | release b =>
        rcases eq_or_ne c b with rfl | hne
        · exact Or.inl (List.mem_append_right _ (Option.mem_toList.mpr hic))
        · exact Or.inr ⟨c, (Function.update_of_ne hne _ _).trans hic⟩
      | forget b =>
        have hb : s.held b = none := Classical.byContradiction hc
        have hcb : c ≠ b := by
          rintro rfl
          cases hic.symm.trans hb
        exact Or.inr ⟨c, (Function.update_of_ne hcb _ _).trans hic⟩
  · -- the resource that is opened
    cases a with
    | acquire b =>
      have hlast : i = s.opened := Nat.le_antisymm (Nat.le_of_lt_succ hi) (Nat.le_of_not_lt hnew)
      rw [hlast]
      exact Or.inr ⟨b, Function.update_self b _ _⟩
    | _ => exact absurd hi hnew

/-- What is lost stays lost. -/
theorem Lost.step (h : Lost s i) : Lost (next s a) i := by
  obtain ⟨hlt, hclosed, hheld⟩ := h
  refine ⟨Nat.lt_of_lt_of_le hlt (opened_le s a), fun hm => ?_, fun c hc => ?_⟩
  · rcases mem_closed_next hm with hm | ⟨c, -, hc⟩
    · exact hclosed hm
    · exact hheld c hc
  · rcases held_next hc with hc | ⟨b, -, hb⟩ | ⟨-, rfl⟩
    · exact hheld c hc
    · exact hheld b hb
    · exact Nat.lt_irrefl _ hlt

/-- What is overwritten is lost. -/
theorem Single.lost (h : Single s) (he : Enabled s a) (hc : Overwrites s a) :
    ∃ i, Lost (next s a) i := by
  have hlost : ∀ d i, s.held d = some i → (next s a).closed = s.closed →
      (next s a).opened = s.opened → (∀ c, (next s a).held c = some i → c = d) →
      (next s a).held d ≠ some i → Lost (next s a) i := by
    intro d i hd hclosed hopened honly hnot
    refine ⟨hopened ▸ h.held_lt d i hd, hclosed ▸ h.disjoint d i hd, fun c hc => ?_⟩
    exact hnot (honly c hc ▸ hc)
  cases a with
  | acquire | release => cases hc
  | move b d =>
    obtain ⟨i, hd⟩ := Option.ne_none_iff_exists'.mp hc
    have hb : s.held b ≠ some i := fun hb => he (h.inj b d i hb hd)
    refine ⟨i, hlost d i hd rfl rfl (fun c hic => ?_) fun hid => ?_⟩
    · rcases held_next hic with hic | ⟨x, hx, hix⟩ | ⟨hx, -⟩
      · exact h.inj c d i hic hd
      · cases hx
        exact absurd hix hb
      · cases hx
    · have hself : (next s (.move b d)).held d = s.held b :=
        (Function.update_of_ne (Ne.symm he) _ _).trans (Function.update_self d _ _)
      exact hb (hself.symm.trans hid)
  | forget d =>
    obtain ⟨i, hd⟩ := Option.ne_none_iff_exists'.mp hc
    refine ⟨i, hlost d i hd rfl rfl (fun c hic => ?_) fun hid => ?_⟩
    · rcases held_next hic with hic | ⟨x, hx, -⟩ | ⟨hx, -⟩
      · exact h.inj c d i hic hd
      · cases hx
      · cases hx
    · have hself : (next s (.forget d)).held d = none := Function.update_self d _ _
      cases hself.symm.trans hid

/-! ## 2. Runs -/

theorem single_reach (h : (machine ι).Reach (init ι) s) : Single s :=
  h.invariant (single_init ι) fun _ _ _ hi _ ht => by
    obtain ⟨he, rfl⟩ := Machine.guarded_step_eq_some.mp ht
    exact hi.step he

/-- **Where nothing is overwritten nothing is lost.** -/
theorem accounted_reach (h : (machine ι).ReachIf (fun s a => ¬ Overwrites s a) (init ι) s) :
    Accounted s := by
  refine h.invariant (P := Accounted) (fun i hi => absurd hi (Nat.not_lt_zero i)) ?_
  intro s a t hi hc ht
  obtain ⟨he, rfl⟩ := Machine.guarded_step_eq_some.mp ht
  exact hi.step he hc

/-- **Once something is overwritten, something is lost for ever.** -/
theorem not_accounted_reach (h : (machine ι).Reach (init ι) s) (hc : Overwrites s a)
    (ht : (machine ι).step s a = some t) (hu : (machine ι).Reach t u) : ¬ Accounted u := by
  obtain ⟨he, rfl⟩ := Machine.guarded_step_eq_some.mp ht
  obtain ⟨i, hi⟩ := (single_reach h).lost he hc
  have hlost : Lost u i := by
    refine hu.invariant (P := fun s => Lost s i) hi fun _ _ _ hi _ ht => ?_
    obtain ⟨-, rfl⟩ := Machine.guarded_step_eq_some.mp ht
    exact hi.step
  intro ha
  rcases ha i hlost.1 with hm | ⟨c, hc⟩
  · exact hlost.2.1 hm
  · exact hlost.2.2 c hc

omit [DecidableEq ι] in
/-- Where nothing is held, what was opened has been closed once. -/
theorem Accounted.closed_once (h : Accounted s) (hs : Single s) (hnone : ∀ c, s.held c = none)
    (hi : i < s.opened) : s.closed.count i = 1 := by
  refine List.count_eq_one_of_mem hs.nodup ((h i hi).resolve_right ?_)
  rintro ⟨c, hc⟩
  cases (hnone c).symm.trans hc

end Owners

end Owners

end Lib
