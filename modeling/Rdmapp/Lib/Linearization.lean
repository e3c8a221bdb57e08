/-
  File:      Rdmapp/Lib/Linearization.lean
  Subject:   LINEARIZABILITY: calls and returns that overlap, and one order that explains them.

  A sequential object says what each operation makes of a value and what it returns. A history of
  calls and returns is explained by an order of operations if each return is what the object gives at
  its place, and no operation comes before one that had returned when it was called.

  Where every operation takes effect in one step between its call and its return, the steps' order
  explains the history (`Object.inv_reach`). So a concurrent program is linearizable as soon as
  its steps, seen through its calls, effects and returns, are steps of `Object.machine`.
-/
import Mathlib.Data.List.Nodup
import Rdmapp.Lib.Transition

namespace Lib

/-- What happens at the interface of an object, with operations `ι` and results `R`. -/
inductive Event (ι R : Type*) where
  | call (i : ι)
  | ret (i : ι) (r : R)
  deriving DecidableEq

/-- The operation that returns. -/
def Event.returns {ι R : Type*} : Event ι R → Option ι
  | .call _ => none
  | .ret i _ => some i

theorem Event.mem_returns {ι R : Type*} {history : List (Event ι R)} {i : ι} :
    i ∈ history.filterMap Event.returns ↔ ∃ r, .ret i r ∈ history := by
  rw [List.mem_filterMap]
  constructor
  · rintro ⟨e, he, hi⟩
    cases e with
    | call j => cases hi
    | ret j r =>
      cases hi
      exact ⟨r, he⟩
  · rintro ⟨r, hr⟩
    exact ⟨.ret i r, hr, rfl⟩

/-- A sequential object with values `V`. -/
structure Object (ι V R : Type*) where
  apply : ι → V → V × R

namespace Object

variable {ι V R : Type*}

/-! ## 1. Histories -/

/-- The value after some operations, one after the other. -/
def value (X : Object ι V R) (v : V) (order : List ι) : V :=
  order.foldl (fun v i => (X.apply i v).1) v

/-- What operation `i` returns after those. -/
def result (X : Object ι V R) (v : V) (before : List ι) (i : ι) : R :=
  (X.apply i (X.value v before)).2

/-- **The order explains the history.** It may have operations that were called and have not
    returned. -/
structure Linearization (X : Object ι V R) (v : V) (history : List (Event ι R)) (order : List ι) :
    Prop where
  nodup : order.Nodup
  called : ∀ i ∈ order, .call i ∈ history
  returned : ∀ i r, .ret i r ∈ history →
    ∃ before after, order = before ++ i :: after ∧ r = X.result v before i
  /-- An operation that had returned when another was called comes before it. -/
  realTime : ∀ before after i r j, history = before ++ .call j :: after → .ret i r ∈ before →
    ∃ first rest, order = first ++ rest ∧ i ∈ first ∧ j ∉ first

theorem value_concat (X : Object ι V R) (v : V) (order : List ι) (i : ι) :
    X.value v (order ++ [i]) = (X.apply i (X.value v order)).1 := by
  unfold value
  rw [List.foldl_append]
  rfl

section Count

variable {p : ι → Bool} {order before before' after after' : List ι} {i j : ι}

end Count

/-! ## 2. One step between call and return -/

structure State (ι V R : Type*) where
  history : List (Event ι R)
  order : List ι
  value : V
  /-- What the operation will return. -/
  result : ι → Option R

inductive Action (ι : Type*) where
  | call (i : ι)
  /-- The operation takes effect. -/
  | effect (i : ι)
  | ret (i : ι)

def init (v : V) : State ι V R := ⟨[], [], v, fun _ => none⟩

variable [DecidableEq ι] [DecidableEq R]

def step (X : Object ι V R) (s : State ι V R) : Action ι → Option (State ι V R)
  | .call i => if .call i ∈ s.history then none else some { s with history := s.history ++ [.call i] }
  | .effect i =>
    if .call i ∈ s.history ∧ i ∉ s.order then
      some { s with
        order := s.order ++ [i]
        value := (X.apply i s.value).1
        result := Function.update s.result i (some (X.apply i s.value).2) }
    else none
  | .ret i => (s.result i).map fun r => { s with history := s.history ++ [.ret i r] }

def machine (X : Object ι V R) : Machine (State ι V R) (Action ι) := ⟨X.step⟩

variable {X : Object ι V R} {v : V} {s t : State ι V R}

/-- The steps. -/
inductive Moves (X : Object ι V R) (s : State ι V R) : State ι V R → Prop
  | called (i : ι) (h : .call i ∉ s.history) :
      Moves X s { s with history := s.history ++ [.call i] }
  | took (i : ι) (hc : .call i ∈ s.history) (ho : i ∉ s.order) :
      Moves X s { s with
        order := s.order ++ [i]
        value := (X.apply i s.value).1
        result := Function.update s.result i (some (X.apply i s.value).2) }
  | returned (i : ι) (r : R) (h : s.result i = some r) :
      Moves X s { s with history := s.history ++ [.ret i r] }

theorem moves_of_step {a : Action ι} (h : X.machine.step s a = some t) : Moves X s t := by
  cases a with
  | call i =>
    obtain ⟨hi, h⟩ := Option.ite_none_left_eq_some.mp h
    cases h
    exact .called i hi
  | effect i =>
    obtain ⟨hi, h⟩ := Option.ite_none_right_eq_some.mp h
    cases h
    exact .took i hi.1 hi.2
  | ret i =>
    obtain ⟨r, hr, h⟩ := Option.map_eq_some_iff.mp h
    cases h
    exact .returned i r hr

/-- The steps taken so far explain what has been called and returned. -/
structure Inv (X : Object ι V R) (v : V) (s : State ι V R) : Prop where
  linear : Linearization X v s.history s.order
  value : s.value = X.value v s.order
  result : ∀ i r, s.result i = some r →
    ∃ before after, s.order = before ++ i :: after ∧ r = X.result v before i

omit [DecidableEq ι] [DecidableEq R] in
theorem Inv.called_step (h : Inv X v s) {i : ι} (hi : .call i ∉ s.history) :
    Inv X v { s with history := s.history ++ [.call i] } := by
  refine ⟨⟨h.linear.nodup, fun j hj => List.mem_append_left _ (h.linear.called j hj),
    fun j r hr => h.linear.returned j r ?_, fun before after j r k he hr => ?_⟩, h.value, h.result⟩
  · rcases List.mem_append.mp hr with hr | hr
    · exact hr
    · cases List.mem_singleton.mp hr
  · have he : s.history ++ [.call i] = before ++ .call k :: after := he
    rcases List.eq_nil_or_concat' after with rfl | ⟨after, e, rfl⟩
    · -- the call just made: all that has returned is in the order, and the new operation is not
      obtain ⟨rfl, hk⟩ := List.append_inj' he rfl
      cases hk
      obtain ⟨first, rest, ho, -⟩ := h.linear.returned j r hr
      refine ⟨s.order, [], (List.append_nil _).symm, ?_, fun hmem => hi (h.linear.called i hmem)⟩
      rw [ho]
      exact List.mem_append_right _ List.mem_cons_self
    · have he' : s.history ++ [.call i] = (before ++ .call k :: after) ++ [e] := by
        rw [he]
        exact (List.append_assoc before (.call k :: after) [e]).symm
      exact h.linear.realTime before after j r k (List.append_inj_left' he' rfl) hr

omit [DecidableEq R] in
theorem Inv.took_step (h : Inv X v s) {i : ι} (hc : .call i ∈ s.history) (ho : i ∉ s.order) :
    Inv X v { s with
      order := s.order ++ [i]
      value := (X.apply i s.value).1
      result := Function.update s.result i (some (X.apply i s.value).2) } := by
  have hgrow : ∀ {j : ι} {r : R}, (∃ before after, s.order = before ++ j :: after ∧
      r = X.result v before j) → ∃ before after, s.order ++ [i] = before ++ j :: after ∧
        r = X.result v before j := by
    rintro j r ⟨before, after, he, hr⟩
    refine ⟨before, after ++ [i], ?_, hr⟩
    rw [he, List.append_assoc]
    rfl
  refine ⟨⟨?_, fun j hj => ?_, fun j r hr => hgrow (h.linear.returned j r hr),
    fun before after j r k he hr => ?_⟩, ?_, fun j r hr => ?_⟩
  · exact List.concat_eq_append ▸ h.linear.nodup.concat ho
  · rcases List.mem_append.mp hj with hj | hj
    · exact h.linear.called j hj
    · rw [List.mem_singleton.mp hj]
      exact hc
  · obtain ⟨first, rest, ho', hj, hk⟩ := h.linear.realTime before after j r k he hr
    refine ⟨first, rest ++ [i], ?_, hj, hk⟩
    show s.order ++ [i] = _
    rw [ho', List.append_assoc]
  · show (X.apply i s.value).1 = X.value v (s.order ++ [i])
    rw [value_concat, h.value]
  · have hr : Function.update s.result i (some (X.apply i s.value).2) j = some r := hr
    by_cases hji : j = i
    · rw [hji, Function.update_self] at hr
      refine ⟨s.order, [], by rw [hji], ?_⟩
      rw [← Option.some.inj hr, h.value, hji]
      rfl
    · rw [Function.update_of_ne hji] at hr
      exact hgrow (h.result j r hr)

omit [DecidableEq ι] [DecidableEq R] in
theorem Inv.returned_step (h : Inv X v s) {i : ι} {r : R} (hi : s.result i = some r) :
    Inv X v { s with history := s.history ++ [.ret i r] } := by
  refine ⟨⟨h.linear.nodup, fun j hj => List.mem_append_left _ (h.linear.called j hj),
    fun j r' hr => ?_, fun before after j r' k he hr => ?_⟩, h.value, h.result⟩
  · rcases List.mem_append.mp hr with hr | hr
    · exact h.linear.returned j r' hr
    · cases List.mem_singleton.mp hr
      exact h.result i r hi
  · have he : s.history ++ [.ret i r] = before ++ .call k :: after := he
    rcases List.eq_nil_or_concat' after with rfl | ⟨after, e, rfl⟩
    · -- the last event is a return
      cases (List.append_inj' he rfl).2
    · have he' : s.history ++ [.ret i r] = (before ++ .call k :: after) ++ [e] := by
        rw [he]
        exact (List.append_assoc before (.call k :: after) [e]).symm
      exact h.linear.realTime before after j r' k (List.append_inj_left' he' rfl) hr

omit [DecidableEq R] in
theorem inv_step (h : Inv X v s) (hs : Moves X s t) : Inv X v t := by
  cases hs with
  | called i hi => exact h.called_step hi
  | took i hc ho => exact h.took_step hc ho
  | returned i r hi => exact h.returned_step hi

/-- **The order of the effects explains the history.** -/
theorem inv_reach (h : X.machine.Reach (init v) s) : Inv X v s :=
  h.invariant ⟨⟨List.nodup_nil, nofun, nofun, fun before after i r j he => by
    cases before <;> cases he⟩, rfl, nofun⟩ fun _ _ _ hi _ ht => inv_step hi (moves_of_step ht)

end Object

end Lib
