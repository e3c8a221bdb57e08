/-
  File:      Rdmapp/BlockingQueue.lean
  Subject:   `blocking_queue`: pushes, pops and closes of any number of threads.

  Each call holds the mutex from its first look at the members to its last, but for a `pop` that
  waits: it gives the mutex up, is woken by a notification or for no reason, and looks again. So
  the steps are the sections under the mutex.

  The constructor leaves `closed_` as it finds it. The queue is a FIFO that can be closed, with no
  wake-up lost, exactly if the flag is constructed false (`closable_fifo_iff`).
-/
import Rdmapp.Lib.Transition

namespace Rdmapp
namespace BlockingQueue

open Lib

/-! ## 1. The queue -/

/-- What a call comes to, in the order of the sections under the mutex. -/
inductive Event (T : Type*) where
  /-- A push, that succeeds or throws. -/
  | push (item : T) (ok : Bool)
  | pop (item : T)
  /-- A pop that throws `queue_closed_error`. -/
  | popThrew
  | close

structure State (T : Type*) where
  queue : List T
  closed : Bool
  /-- The consumers that wait on `cv_`. -/
  waiting : List Nat
  /-- Those woken that have not looked again. -/
  woken : List Nat
  history : List (Event T)

/-- The implicit constructor. It gives `closed_` no value, which then is what its byte was before,
    unless the object is value-initialised, hence zeroed first. -/
def construct (T : Type*) (valueInit : Bool) (byte : UInt8) : State T :=
  ⟨[], !valueInit && byte != 0, [], [], []⟩

inductive Action (T : Type*) where
  /-- `push`; `notify_one` wakes the consumer given, if one waits. -/
  | push (item : T) (notified : Option Nat)
  /-- `pop` of consumer `c`, up to its return or its wait. -/
  | pop (c : Nat)
  /-- A wait that returns without a notification. -/
  | spurious (c : Nat)
  /-- A woken consumer has the mutex again and looks. -/
  | retry (c : Nat)
  | close

section Queue

variable {T : Type*}

def Enabled (s : State T) : Action T → Prop
  | .push _ none => s.closed = true ∨ s.waiting = []
  | .push _ (some c) => s.closed = false ∧ c ∈ s.waiting
  | .pop c => c ∉ s.waiting ∧ c ∉ s.woken
  | .spurious c => c ∈ s.waiting
  | .retry c => c ∈ s.woken
  | .close => True

instance (s : State T) (a : Action T) : Decidable (Enabled s a) :=
  match a with
  | .push _ none => inferInstanceAs (Decidable (_ ∨ _))
  | .push _ (some _) | .pop _ => inferInstanceAs (Decidable (_ ∧ _))
  | .spurious _ | .retry _ => inferInstanceAs (Decidable (_ ∈ _))
  | .close => inferInstanceAs (Decidable True)

/-- A consumer with the mutex: the predicate, and what follows the wait when it holds. -/
def look (s : State T) (c : Nat) : State T :=
  match s.queue with
  | item :: rest => { s with queue := rest, history := s.history ++ [.pop item] }
  | [] =>
    if s.closed then { s with history := s.history ++ [.popThrew] }
    else { s with waiting := s.waiting ++ [c] }

def next (s : State T) : Action T → State T
  | .push item notified =>
    if s.closed then { s with history := s.history ++ [.push item false] }
    else { s with
      queue := s.queue ++ [item]
      waiting := notified.elim s.waiting s.waiting.erase
      woken := notified.toList ++ s.woken
      history := s.history ++ [.push item true] }
  | .pop c => look s c
  | .spurious c => { s with waiting := s.waiting.erase c, woken := c :: s.woken }
  | .retry c => look { s with woken := s.woken.erase c } c
  | .close => { s with
      closed := true
      waiting := []
      woken := s.waiting ++ s.woken
      history := s.history ++ [.close] }

def machine (T : Type*) : Machine (State T) (Action T) := .guarded Enabled next

/-! ## 2. What it is for -/

/-- The values pushed successfully, and those returned. -/
def pushed (history : List (Event T)) : List T :=
  history.filterMap fun
    | .push item true => some item
    | _ => none

def popped (history : List (Event T)) : List T :=
  history.filterMap fun
    | .pop item => some item
    | _ => none

/-- The event happened, after `before`. -/
def Happened (s : State T) (before : List (Event T)) (e : Event T) : Prop :=
  ∃ rest, s.history = before ++ e :: rest

/-- **A FIFO that can be closed, no wake-up being lost.** -/
structure ClosableFifo (s : State T) : Prop where
  /-- A push succeeds if and only if no close precedes it. -/
  push : ∀ before item ok, Happened s before (.push item ok) → (ok = true ↔ .close ∉ before)
  /-- What is returned is what was pushed, in order; the rest is in the queue. -/
  fifo : popped s.history <+: pushed s.history
  contents : pushed s.history = popped s.history ++ s.queue
  /-- A pop throws only when the queue is closed and drained. -/
  drained : ∀ before, Happened s before .popThrew →
    .close ∈ before ∧ popped before = pushed before
  /-- A push that throws leaves the contents. -/
  refused : ∀ item c t, (machine T).step s (.push item c) = some t →
    t.history = s.history ++ [.push item false] → t.queue = s.queue
  /-- Where every consumer woken has looked, none waits beside an item or a closed queue. -/
  awake : s.woken = [] → s.queue ≠ [] ∨ s.closed = true → s.waiting = []

/-! ## 3. The invariant -/

structure Inv (s : State T) : Prop where
  closed : s.closed = true ↔ .close ∈ s.history
  contents : pushed s.history = popped s.history ++ s.queue
  push : ∀ before item ok, Happened s before (.push item ok) → (ok = true ↔ .close ∉ before)
  drained : ∀ before, Happened s before .popThrew →
    .close ∈ before ∧ popped before = pushed before
  /-- There is a woken consumer for every item while others wait. -/
  waiting : s.waiting ≠ [] → s.closed = false ∧ s.queue.length ≤ s.woken.length

variable {s t : State T} {a : Action T} {e : Event T} {before : List (Event T)} {c : Nat}

theorem pushed_append (h₁ h₂ : List (Event T)) : pushed (h₁ ++ h₂) = pushed h₁ ++ pushed h₂ :=
  List.filterMap_append

theorem popped_append (h₁ h₂ : List (Event T)) : popped (h₁ ++ h₂) = popped h₁ ++ popped h₂ :=
  List.filterMap_append

/-- What has happened after one more event: that event, or something before. -/
theorem happened_concat {f : Event T} (ht : t.history = s.history ++ [e])
    (h : Happened t before f) : Happened s before f ∨ before = s.history ∧ f = e := by
  obtain ⟨rest, hrest⟩ := h
  rw [ht] at hrest
  rcases List.eq_nil_or_concat rest with rfl | ⟨init, last, rfl⟩
  · obtain ⟨hb, he⟩ := List.append_inj' hrest rfl
    exact Or.inr ⟨hb.symm, (List.head_eq_of_cons_eq he).symm⟩
  · rw [List.concat_eq_append, ← List.cons_append, ← List.append_assoc] at hrest
    exact Or.inl ⟨init, (List.append_inj' hrest rfl).1⟩

theorem inv_construct (T : Type*) {valueInit : Bool} {byte : UInt8}
    (h : valueInit = true ∨ byte = 0) : Inv (construct T valueInit byte) where
  closed := by
    refine iff_of_false ?_ List.not_mem_nil
    show ¬ (!valueInit && byte != 0) = true
    rcases h with rfl | rfl <;> simp
  contents := rfl
  push before item ok h := by
    obtain ⟨rest, hrest⟩ := h
    cases before <;> cases hrest
  drained before h := by
    obtain ⟨rest, hrest⟩ := h
    cases before <;> cases hrest
  waiting h := absurd rfl h

/-- One more event, and what it must be like in the state before. -/
theorem Inv.concat (h : Inv s) (ht : t.history = s.history ++ [e])
    (hclosed : t.closed = true ↔ .close ∈ t.history)
    (hcontents : pushed t.history = popped t.history ++ t.queue)
    (hpush : ∀ item ok, e = .push item ok → ok = !s.closed)
    (hthrew : e = .popThrew → s.closed = true ∧ s.queue = [])
    (hwaiting : t.waiting ≠ [] → t.closed = false ∧ t.queue.length ≤ t.woken.length) : Inv t where
  closed := hclosed
  contents := hcontents
  push before item ok hb := by
    rcases happened_concat ht hb with hb | ⟨rfl, he⟩
    · exact h.push before item ok hb
    · rw [hpush item ok he.symm, Bool.not_eq_true', ← h.closed, Bool.not_eq_true]
  drained before hb := by
    rcases happened_concat ht hb with hb | ⟨rfl, he⟩
    · exact h.drained before hb
    · obtain ⟨hc, hq⟩ := hthrew he.symm
      refine ⟨h.closed.mp hc, ?_⟩
      rw [h.contents, hq, List.append_nil]
  waiting := hwaiting

theorem look_drained (hq : s.queue = []) (hc : s.closed = true) (c : Nat) :
    look s c = { s with history := s.history ++ [.popThrew] } := by
  unfold look
  rw [hq]
  exact if_pos hc

/-- A consumer that looks, `w` being the others woken. -/
theorem Inv.look (h : Inv s) (w : List Nat)
    (hw : s.waiting ≠ [] → s.queue.length ≤ w.length + 1) (c : Nat) :
    Inv (look { s with woken := w } c) := by
  unfold BlockingQueue.look
  split
  · next item rest hq =>
    have hq' : s.queue = item :: rest := hq
    refine h.concat (e := .pop item) rfl ?_ ?_ nofun nofun fun hne => ?_
    · simpa using h.closed
    · simp only [pushed_append, popped_append, h.contents, hq']
      simp [pushed, popped]
    · have hlen := hw hne
      rw [hq', List.length_cons] at hlen
      exact ⟨(h.waiting hne).1, Nat.le_of_succ_le_succ hlen⟩
  · next hq =>
    have hq' : s.queue = [] := hq
    by_cases hc : s.closed = true
    · rw [if_pos hc]
      refine h.concat (e := .popThrew) rfl ?_ ?_ nofun (fun _ => ⟨hc, hq'⟩) fun hne => ?_
      · simpa using h.closed
      · simp only [pushed_append, popped_append, h.contents, hq']
        simp [pushed, popped]
      · rw [(h.waiting hne).1] at hc
        cases hc
    · rw [if_neg hc]
      refine ⟨h.closed, h.contents, h.push, h.drained, fun _ => ⟨eq_false_of_ne_true hc, ?_⟩⟩
      dsimp only
      rw [hq']
      exact Nat.zero_le _

/-- **Every section under the mutex keeps it.** -/
theorem inv_step (h : Inv s) (he : Enabled s a) : Inv (next s a) := by
  cases a with
  | push item notified =>
    show Inv (if s.closed then _ else _)
    by_cases hc : s.closed = true
    · rw [if_pos hc]
      refine h.concat (e := .push item false) rfl ?_ ?_ ?_ nofun h.waiting
      · simpa using h.closed
      · simp only [pushed_append, popped_append, h.contents]
        simp [pushed, popped]
      · rintro _ _ ⟨⟩
        rw [hc]
        rfl
    · rw [if_neg hc]
      refine h.concat (e := .push item true) rfl ?_ ?_ ?_ nofun fun hne => ?_
      · simpa using h.closed
      · simp only [pushed_append, popped_append, h.contents]
        simp [pushed, popped]
      · rintro _ _ ⟨⟩
        rw [eq_false_of_ne_true hc]
        rfl
      · -- a waiting consumer is woken for the item, if there is one
        cases notified with
        | none =>
          rcases he with he | he
          · exact absurd he hc
          · exact absurd he hne
        | some c =>
          obtain ⟨hclosed, hlen⟩ := h.waiting (List.ne_nil_of_mem he.2)
          refine ⟨hclosed, ?_⟩
          show (s.queue ++ [item]).length ≤ (c :: s.woken).length
          simp only [List.length_append, List.length_cons, List.length_nil]
          omega
  | pop c => exact h.look s.woken (fun hne => Nat.le_succ_of_le (h.waiting hne).2) c
  | spurious c =>
    refine ⟨h.closed, h.contents, h.push, h.drained, fun _ => ?_⟩
    obtain ⟨hclosed, hlen⟩ := h.waiting (List.ne_nil_of_mem he)
    exact ⟨hclosed, Nat.le_succ_of_le hlen⟩
  | retry c =>
    refine h.look (s.woken.erase c) (fun hne => ?_) c
    have hmem : c ∈ s.woken := he
    have hlen := (h.waiting hne).2
    have hpos := List.length_pos_of_mem hmem
    rw [List.length_erase_of_mem hmem]
    omega
  | close =>
    refine h.concat (e := .close) rfl ?_ ?_ nofun nofun fun hne => absurd rfl hne
    · exact iff_of_true rfl (List.mem_append_right _ (List.mem_singleton_self _))
    · simp only [next, pushed_append, popped_append, h.contents]
      simp [pushed, popped]

theorem inv_reach {s₀ : State T} (h₀ : Inv s₀) (h : (machine T).Reach s₀ s) : Inv s :=
  h.invariant h₀ fun _ _ _ hi _ ht => by
    obtain ⟨he, rfl⟩ := Machine.guarded_step_eq_some.mp ht
    exact inv_step hi he

theorem Inv.closableFifo (h : Inv s) : ClosableFifo s where
  push := h.push
  fifo := ⟨s.queue, h.contents.symm⟩
  contents := h.contents
  drained := h.drained
  refused item c t ht hhist := by
    obtain ⟨-, rfl⟩ := Machine.guarded_step_eq_some.mp ht
    by_cases hc : s.closed = true
    · show (if s.closed then _ else _ : State T).queue = _
      rw [if_pos hc]
    · exfalso
      have hnext : (next s (.push item c)).history = s.history ++ [.push item true] := by
        show (if s.closed then _ else _ : State T).history = _
        rw [if_neg hc]
      rw [hnext] at hhist
      cases List.append_cancel_left hhist
  awake hwoken hany := by
    refine Classical.byContradiction fun hne => ?_
    obtain ⟨hclosed, hlen⟩ := h.waiting hne
    rw [hwoken, List.length_nil, Nat.le_zero, List.length_eq_zero_iff] at hlen
    rcases hany with hq | hc
    · exact hq hlen
    · rw [hclosed] at hc
      cases hc

end Queue

/-- **The queue is a closable FIFO in all its runs exactly if its flag is constructed false.** -/
theorem closable_fifo_iff (T : Type*) (valueInit : Bool) (byte : UInt8) :
    (∀ s, (machine T).Reach (construct T valueInit byte) s → ClosableFifo s) ↔
      valueInit = true ∨ byte = 0 := by
  constructor
  · intro h
    refine Classical.byContradiction fun hno => ?_
    obtain ⟨hv, hb⟩ := not_or.mp hno
    have hclosed : (construct T valueInit byte).closed = true := by
      show (!valueInit && byte != 0) = true
      simp [hv, hb]
    -- a pop finds the new queue closed
    have hnext : (next (construct T valueInit byte) (.pop 0)).history = [.popThrew] := by
      show (look (construct T valueInit byte) 0).history = _
      rw [look_drained rfl hclosed]
      rfl
    have hstep : (machine T).step (construct T valueInit byte) (.pop 0) =
        some (next (construct T valueInit byte) (.pop 0)) :=
      Machine.guarded_step_eq_some.mpr ⟨⟨List.not_mem_nil, List.not_mem_nil⟩, rfl⟩
    have hf := h _ (.step (.pop 0) .start trivial hstep)
    exact List.not_mem_nil (hf.drained [] ⟨[], hnext⟩).1
  · intro h s hs
    exact (inv_reach (inv_construct T h) hs).closableFifo

/-- Storage that held a one: the first push of the new queue throws. -/
theorem first_push_throws : ∃ s, (machine Nat).Reach (construct Nat false 1) s ∧
    Happened s [] (.push 7 false) ∧ ¬ ClosableFifo s := by
  have hr : (machine Nat).Reach (construct Nat false 1) _ :=
    Machine.reach_of_run [.push 7 none] rfl
  refine ⟨_, hr, ⟨[], rfl⟩, fun h => ?_⟩
  have hf := (h.push [] 7 false ⟨[], rfl⟩).mpr List.not_mem_nil
  cases hf

end BlockingQueue
end Rdmapp
