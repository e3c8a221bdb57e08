/-
  File:      Rdmapp/LocalMrMoves.lean
  Subject:   `local_mr` OBJECTS: registered, moved, assigned and destroyed, and what they own.

  A move empties its source, and the destructor passes what its object holds to `ibv_dereg_mr`.
  But `operator=` writes over the region its target holds and never asks whether the target is the
  source: that region then stays registered and nobody can deregister it any more. As long as no
  assignment is onto an object that holds a region, every region has one holder, with its
  protection domain, and is deregistered once; after the first such assignment never again
  (`exact_until_overwritten`).
-/
import Rdmapp.Lib.Unique

namespace Rdmapp

open Lib

namespace LocalMrMoves

/-! ## 1. The objects -/

/-- What a `local_mr` stores. Regions and protection domains go by number. -/
structure Object where
  mr_ : Option Nat
  pd_ : Option Nat
  deriving DecidableEq, Repr

structure State where
  /-- The domain each region was registered in; the regions are numbered in this order. -/
  regions : List Nat
  /-- What `ibv_dereg_mr` was called with. Its answer is only logged. -/
  deregistered : List Nat
  vars : Nat → Option Object

def init : State := ⟨[], [], fun _ => none⟩

inductive Action where
  /-- `local_mr v = pd->reg_mr(…)`, where `ibv_reg_mr` gives a region or none. -/
  | regMr (v pd : Nat) (given : Bool)
  /-- `local_mr w(std::move(v))` -/
  | moveConstruct (v w : Nat)
  /-- `w = std::move(v)` -/
  | moveAssign (v w : Nat)
  | destroy (v : Nat)

/-- Changes the object `v`. -/
def modify (vars : Nat → Option Object) (v : Nat) (f : Object → Object) : Nat → Option Object :=
  Function.update vars v ((vars v).map f)

/-- `w.pd_ = std::move(v.pd_)`. A `shared_ptr` assigned to itself keeps what it has. -/
def movePd (vars : Nat → Option Object) (v w : Nat) : Nat → Option Object :=
  if v = w then vars
  else
    let pd := (vars v).bind Object.pd_
    modify (modify vars w fun o => { o with pd_ := pd }) v fun o => { o with pd_ := none }

/-- `local_mr::operator=(local_mr &&other)` of `w` with `v` for `other`. -/
def assign (vars : Nat → Option Object) (v w : Nat) : Nat → Option Object :=
  let mr := (vars v).bind Object.mr_
  let vars := modify vars w fun o => { o with mr_ := mr }
  let vars := movePd vars v w
  modify vars v fun o => { o with mr_ := none }

/-- The move constructor: `std::exchange(other.mr_, nullptr)` and `std::move(other.pd_)`. -/
def construct (vars : Nat → Option Object) (v w : Nat) : Nat → Option Object :=
  Function.update (Function.update vars w (vars v)) v (some ⟨none, none⟩)

/-- Objects are constructed where there is none and used where there is one. -/
def Enabled (s : State) : Action → Prop
  | .regMr v _ _ => s.vars v = none
  | .moveConstruct v w => s.vars v ≠ none ∧ s.vars w = none
  | .moveAssign v w => s.vars v ≠ none ∧ s.vars w ≠ none
  | .destroy v => s.vars v ≠ none

instance (s : State) (a : Action) : Decidable (Enabled s a) :=
  match a with
  | .regMr .. => inferInstanceAs (Decidable (_ = _))
  | .moveConstruct .. | .moveAssign .. => inferInstanceAs (Decidable (_ ∧ _))
  | .destroy _ => inferInstanceAs (Decidable (¬ _))

/-- The region the object `v` holds. -/
def State.held (s : State) (v : Nat) : Option Nat := (s.vars v).bind Object.mr_

def next (s : State) : Action → State
  | .regMr v pd true => { s with
      regions := s.regions ++ [pd]
      vars := Function.update s.vars v (some ⟨some s.regions.length, some pd⟩) }
  -- `check_ptr` throws
  | .regMr _ _ false => s
  | .moveConstruct v w => { s with vars := construct s.vars v w }
  | .moveAssign v w => { s with vars := assign s.vars v w }
  -- a moved-from object returns at once
  | .destroy v => { s with
      deregistered := s.deregistered ++ (s.held v).toList
      vars := Function.update s.vars v none }

def machine : Machine State Action := .guarded Enabled next

/-- The target of an assignment holds a region. -/
def Overwrites (s : State) : Action → Prop
  | .moveAssign _ w => s.held w ≠ none
  | _ => False

/-- **Every region not yet deregistered has one holder, which has its domain; where no object is
    left each was deregistered once.** -/
structure Exact (s : State) : Prop where
  held : ∀ i < s.regions.length, i ∉ s.deregistered →
    ∃ v o, s.vars v = some o ∧ o.mr_ = some i ∧ o.pd_ = s.regions[i]? ∧
      ∀ w, s.held w = some i → w = v
  ended : (∀ v, s.vars v = none) → ∀ i < s.regions.length, s.deregistered.count i = 1

section Moves

variable {s t u : State} {a : Action} {vars : Nat → Option Object} {v w i : Nat} {o p : Object}

/-! ## 2. What `operator=` does -/

theorem modify_eq (hv : vars v = some o) (f : Object → Object) :
    modify vars v f = Function.update vars v (some (f o)) := by
  rw [modify, hv, Option.map_some]

/-- Onto another object: it has what the source had. -/
theorem assign_of_ne (hv : vars v = some o) (hw : vars w = some p) (hne : v ≠ w) :
    assign vars v w = construct vars v w := by
  have hne' : w ≠ v := Ne.symm hne
  funext x
  unfold assign movePd construct modify
  rw [if_neg hne]
  by_cases hx : x = v
  · subst hx
    simp [hne, hv]
  · by_cases hxw : x = w
    · subst hxw
      simp [hne, hv, hw, hne']
    · simp [hx, hxw]

/-- Onto itself: the region is gone, the domain stays. -/
theorem assign_self (hv : vars v = some o) :
    assign vars v v = Function.update vars v (some ⟨none, o.pd_⟩) := by
  have hpd : ∀ f, movePd f v v = f := fun f => if_pos rfl
  show modify (movePd (modify vars v _) v v) v _ = _
  rw [hpd, modify_eq hv, modify_eq (Function.update_self v _ _), Function.update_idem]

/-! ## 3. The objects as owners -/

/-- The regions and their holders. -/
def State.owners (s : State) : Owners Nat := ⟨s.regions.length, s.deregistered, s.held⟩

theorem held_update (s : State) (v : Nat) (x : Option Object) :
    (fun y => (Function.update s.vars v x y).bind Object.mr_) =
      Function.update s.held v (x.bind Object.mr_) :=
  Function.comp_update (fun y : Option Object => y.bind Object.mr_) s.vars v x

theorem held_construct (s : State) (v w : Nat) :
    (fun y => (construct s.vars v w y).bind Object.mr_) =
      Function.update (Function.update s.held w (s.held v)) v none := by
  show (fun y : Option Object => y.bind Object.mr_) ∘
    Function.update (Function.update s.vars w _) v _ = _
  rw [Function.comp_update, Function.comp_update]
  rfl

/-- **Each step is one of the owners, and overwrites where that does.** -/
theorem owners_step (h : Enabled s a) :
    (next s a).owners = s.owners ∧ ¬ Overwrites s a ∨
      ∃ b, Owners.Enabled s.owners b ∧ Owners.next s.owners b = (next s a).owners ∧
        (Owners.Overwrites s.owners b ↔ Overwrites s a) := by
  have hown : ∀ (r d : List Nat) (f g : Nat → Option Nat), f = g →
      (⟨r.length, d, f⟩ : Owners Nat) = ⟨r.length, d, g⟩ := fun r d f g hfg => by rw [hfg]
  cases a with
  | regMr v pd given =>
    cases given with
    | false => exact Or.inl ⟨rfl, id⟩
    | true =>
      refine Or.inr ⟨.acquire v, ?_, ?_, Iff.rfl⟩
      · show (s.vars v).bind Object.mr_ = none
        rw [show s.vars v = none from h, Option.bind_none]
      · refine Eq.trans ?_ (hown (s.regions ++ [pd]) _ _ _ (held_update s v _).symm)
        rw [List.length_append]
        rfl
  | moveConstruct v w =>
    have hne : v ≠ w := by
      rintro rfl
      exact h.1 h.2
    have hw : s.held w = none := by
      rw [State.held, h.2, Option.bind_none]
    exact Or.inr ⟨.move v w, hne, hown _ _ _ _ (held_construct s v w).symm,
      iff_of_false (fun hc => hc hw) id⟩
  | moveAssign v w =>
    obtain ⟨o, ho⟩ := Option.ne_none_iff_exists'.mp h.1
    obtain ⟨p, hp⟩ := Option.ne_none_iff_exists'.mp h.2
    rcases eq_or_ne v w with rfl | hne
    · refine Or.inr ⟨.forget v, trivial, hown _ _ _ _ ?_, Iff.rfl⟩
      show _ = fun y => (assign s.vars v v y).bind Object.mr_
      rw [assign_self ho]
      exact (held_update s v (some ⟨none, o.pd_⟩)).symm
    · refine Or.inr ⟨.move v w, hne, hown _ _ _ _ ?_, Iff.rfl⟩
      show _ = fun y => (assign s.vars v w y).bind Object.mr_
      rw [assign_of_ne ho hp hne]
      exact (held_construct s v w).symm
  | destroy v =>
    exact Or.inr ⟨.release v, trivial, hown _ _ _ _ (held_update s v none).symm, Iff.rfl⟩

/-- Seen as owners, the objects do what owners do. -/
theorem owners_reach (h : machine.Reach s t) : (Owners.machine Nat).Reach s.owners t.owners :=
  h.project fun u a v _ hs => by
    obtain ⟨he, rfl⟩ := Machine.guarded_step_eq_some.mp hs
    rcases owners_step he with ⟨hsame, -⟩ | ⟨b, hb, hnext, -⟩
    · exact Or.inl hsame
    · exact Or.inr ⟨b, trivial, Machine.guarded_step_eq_some.mpr ⟨hb, hnext⟩⟩

theorem owners_reachIf (h : machine.ReachIf (fun s a => ¬ Overwrites s a) s t) :
    (Owners.machine Nat).ReachIf (fun s b => ¬ Owners.Overwrites s b) s.owners t.owners :=
  h.project fun u a v hc hs => by
    obtain ⟨he, rfl⟩ := Machine.guarded_step_eq_some.mp hs
    rcases owners_step he with ⟨hsame, -⟩ | ⟨b, hb, hnext, hiff⟩
    · exact Or.inl hsame
    · exact Or.inr ⟨b, fun hbc => hc (hiff.mp hbc), Machine.guarded_step_eq_some.mpr ⟨hb, hnext⟩⟩

/-! ## 4. The domains -/

/-- An object that holds a region holds the domain the region was registered in. -/
def Domains (s : State) : Prop :=
  ∀ v o i, s.vars v = some o → o.mr_ = some i → ∃ p, o.pd_ = some p ∧ s.regions[i]? = some p

/-- An object that holds a region after a step was some object before it, or is the one that is
    registered. -/
theorem vars_next (h : Enabled s a) (hv : (next s a).vars v = some o) (hi : o.mr_ = some i) :
    (∃ w, s.vars w = some o) ∨
      ∃ w p, a = .regMr w p true ∧ o = ⟨some s.regions.length, some p⟩ := by
  have hupd : ∀ (f : Nat → Option Object) (w : Nat) (x : Option Object),
      Function.update f w x v = some o → x = some o ∨ f v = some o := by
    intro f w x hx
    rcases eq_or_ne v w with rfl | hne
    · rw [Function.update_self] at hx
      exact Or.inl hx
    · rw [Function.update_of_ne hne] at hx
      exact Or.inr hx
  have hcon : ∀ w x, construct s.vars w x v = some o → ∃ w, s.vars w = some o := by
    intro w x hx
    rcases hupd _ w _ hx with hx | hx
    · cases hx
      cases hi
    · rcases hupd _ x _ hx with hx | hx
      · exact ⟨w, hx⟩
      · exact ⟨v, hx⟩
  cases a with
  | regMr w p given =>
    cases given with
    | false => exact Or.inl ⟨v, hv⟩
    | true =>
      rcases hupd _ w _ hv with hx | hx
      · exact Or.inr ⟨w, p, rfl, (Option.some.inj hx).symm⟩
      · exact Or.inl ⟨v, hx⟩
  | moveConstruct w x => exact Or.inl (hcon w x hv)
  | moveAssign w x =>
    obtain ⟨o', ho'⟩ := Option.ne_none_iff_exists'.mp h.1
    obtain ⟨p, hp⟩ := Option.ne_none_iff_exists'.mp h.2
    have hv' : assign s.vars w x v = some o := hv
    rcases eq_or_ne w x with rfl | hne
    · rw [assign_self ho'] at hv'
      rcases hupd _ w _ hv' with hx | hx
      · cases hx
        cases hi
      · exact Or.inl ⟨v, hx⟩
    · rw [assign_of_ne ho' hp hne] at hv'
      exact Or.inl (hcon w x hv')
  | destroy w =>
    rcases hupd _ w _ hv with hx | hx
    · cases hx
    · exact Or.inl ⟨v, hx⟩

/-- The regions registered stay where they are in the list. -/
theorem regions_next (h : s.regions[i]? = some v) (a : Action) :
    (next s a).regions[i]? = some v := by
  cases a with
  | regMr w p given =>
    cases given with
    | false => exact h
    | true =>
      obtain ⟨hlt, -⟩ := List.getElem?_eq_some_iff.mp h
      exact (List.getElem?_append_left hlt).trans h
  | _ => exact h

theorem domains_reach (h : machine.Reach init s) : Domains s := by
  refine h.invariant (P := Domains) (fun _ _ _ h => by cases h) ?_
  intro s a t hs _ ht v o i hv hi
  obtain ⟨he, rfl⟩ := Machine.guarded_step_eq_some.mp ht
  rcases vars_next he hv hi with ⟨w, hw⟩ | ⟨w, p, rfl, rfl⟩
  · obtain ⟨p, hp, hip⟩ := hs w o i hw hi
    exact ⟨p, hp, regions_next hip a⟩
  · obtain rfl : s.regions.length = i := Option.some.inj hi
    refine ⟨p, rfl, ?_⟩
    show (s.regions ++ [p])[s.regions.length]? = some p
    simp

/-! ## 5. The runs -/

theorem held_eq_some : s.held v = some i ↔ ∃ o, s.vars v = some o ∧ o.mr_ = some i :=
  Option.bind_eq_some_iff

/-- One holder for each region, each region accounted for, and the domains: that is `Exact`. -/
theorem exact_of_accounted (hs : Owners.Single s.owners) (ha : Owners.Accounted s.owners)
    (hd : Domains s) : Exact s where
  held i hi hm := by
    obtain ⟨v, hv⟩ := (ha i hi).resolve_left hm
    obtain ⟨o, ho, hoi⟩ := held_eq_some.mp hv
    obtain ⟨p, hp, hip⟩ := hd v o i ho hoi
    exact ⟨v, o, ho, hoi, hp.trans hip.symm, fun w hw => hs.inj w v i hw hv⟩
  ended hnone i hi := by
    refine ha.closed_once hs (fun c => ?_) hi
    show (s.vars c).bind Object.mr_ = none
    rw [hnone c, Option.bind_none]

theorem Exact.accounted (h : Exact s) : Owners.Accounted s.owners := by
  intro i hi
  by_cases hm : i ∈ s.deregistered
  · exact Or.inl hm
  · obtain ⟨v, o, ho, hoi, -⟩ := h.held i hi hm
    exact Or.inr ⟨v, held_eq_some.mpr ⟨o, ho, hoi⟩⟩

end Moves

/-- **Regions are held and deregistered exactly in the runs that never assign to an object that
    holds one**; what such an assignment overwrites is lost for the rest of the run. -/
theorem exact_until_overwritten (s : State) :
    (machine.ReachIf (fun s a => ¬ Overwrites s a) init s → Exact s) ∧
      ∀ a t u, machine.Reach init s → Overwrites s a → machine.step s a = some t →
        machine.Reach t u → ¬ Exact u := by
  constructor
  · intro h
    exact exact_of_accounted (Owners.single_reach (owners_reach h.reach))
      (Owners.accounted_reach (owners_reachIf h)) (domains_reach h.reach)
  · intro a t u hs hc ht hu he
    obtain ⟨hen, rfl⟩ := Machine.guarded_step_eq_some.mp ht
    rcases owners_step hen with ⟨-, hnot⟩ | ⟨b, hb, hnext, hiff⟩
    · exact hnot hc
    · have hstep : (Owners.machine Nat).step s.owners b = some (next s a).owners :=
        Machine.guarded_step_eq_some.mpr ⟨hb, hnext⟩
      exact Owners.not_accounted_reach (owners_reach hs) (hiff.mpr hc) hstep (owners_reach hu)
        he.accounted

/-- A region moved into a second object and back, and the objects destroyed. -/
theorem exact_until_overwritten_moved :
    ∃ s, machine.ReachIf (fun s a => ¬ Overwrites s a) init s ∧ s.deregistered = [0] ∧ Exact s := by
  have step : ∀ {s a}, machine.ReachIf (fun s a => ¬ Overwrites s a) init s → ¬ Overwrites s a →
      Enabled s a → machine.ReachIf (fun s a => ¬ Overwrites s a) init (next s a) :=
    fun h hc he => .step _ h hc (Machine.guarded_step_eq_some.mpr ⟨he, rfl⟩)
  have h := step (a := .regMr 0 7 true) .start id (by decide)
  have h := step (a := .moveConstruct 0 1) h id (by decide)
  have h := step (a := .moveAssign 1 0) h (fun hc => hc rfl) (by decide)
  have h := step (a := .destroy 1) h id (by decide)
  have h := step (a := .destroy 0) h id (by decide)
  exact ⟨_, h, rfl, (exact_until_overwritten _).1 h⟩

/-- Two regions and `a = std::move(b)`; or one and `a = std::move(a)`: objects destroyed, region
    `0` is never deregistered. -/
theorem assigned_region_lost :
    (∃ s, machine.Reach init s ∧ (s.vars 0).isNone ∧ (s.vars 1).isNone ∧ 0 < s.regions.length ∧
      s.deregistered = [1]) ∧
    ∃ s, machine.Reach init s ∧ (s.vars 0).isNone ∧ 0 < s.regions.length ∧
      s.deregistered = [] := by
  constructor
  · obtain ⟨s, hs, hp⟩ := Machine.exists_reach_of_run (M := machine) (s := init)
      [.regMr 0 7 true, .regMr 1 7 true, .moveAssign 1 0, .destroy 0, .destroy 1]
      (fun s => (s.vars 0).isNone && (s.vars 1).isNone && decide (0 < s.regions.length) &&
        decide (s.deregistered = [1])) (by decide +kernel)
    simp only [Bool.and_eq_true, decide_eq_true_eq] at hp
    exact ⟨s, hs, hp.1.1.1, hp.1.1.2, hp.1.2, hp.2⟩
  · obtain ⟨s, hs, hp⟩ := Machine.exists_reach_of_run (M := machine) (s := init)
      [.regMr 0 7 true, .moveAssign 0 0, .destroy 0]
      (fun s => (s.vars 0).isNone && decide (0 < s.regions.length) &&
        decide (s.deregistered = [])) (by decide +kernel)
    simp only [Bool.and_eq_true, decide_eq_true_eq] at hp
    exact ⟨s, hs, hp.1.1, hp.1.2, hp.2⟩

end LocalMrMoves

end Rdmapp
