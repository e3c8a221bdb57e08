/-
  File:      Rdmapp/Registration.lean
  Subject:   OPERATIONS ON SPANS: a temporary region for each, and what becomes of one that cannot
             be registered.

  The constructor of an awaitable registers the span and throws where `ibv_reg_mr` fails. It is
  called in `make_send_awaitable` or `make_recv_awaitable`, and these are `noexcept`: the exception
  reaches no caller and the process ends. So failed registrations are contained in a run exactly
  when there are none (`contained_iff`), for any operations, tokens and interleaving.
-/
import Rdmapp.Delivery

namespace Rdmapp

open Lib

/-! ## 1. From a span to an awaitable -/

/-- What `ibv_reg_mr` gives: the keys of the region, or the null pointer and `errno`. -/
structure RegResult where
  keys : Option (UInt32 × UInt32)
  errno : Int
  deriving DecidableEq, Repr

/-- How a call is left. -/
inductive Exit (α : Type) where
  | returned (a : α)
  | threw (e : Exc)
  /-- `std::terminate`. -/
  | terminated
  deriving DecidableEq, Repr

/-- A function that is `noexcept`. -/
def Exit.ofNoexcept {α : Type} : Except Exc α → Exit α
  | .ok a => .returned a
  | .error _ => .terminated

section Construction

variable (strerror : Int → String)

/-- `pd::reg_mr`. -/
def regMr (buffer : Span) (r : RegResult) : Except Exc LocalMr := do
  let mr ← checkPtr strerror (r.keys.map fun k => IbvMr.mk buffer.data buffer.size k.1 k.2) r.errno
    "failed to reg mr"
  return ⟨mr⟩

/-- The constructors of `send_awaitable` and `recv_awaitable` from a span. -/
def QpOperation.construct (op : QpOperation) (buffer : Span) (r : RegResult) :
    Except Exc Awaitable := do
  let mr ← regMr strerror buffer r
  return op.awaitable (.span mr)

/-- `make_send_awaitable` and `make_recv_awaitable`. With the asio token the awaitable is converted
    in the return statement, which only moves it to the heap. -/
def QpOperation.make (op : QpOperation) (buffer : Span) (r : RegResult) : Exit Awaitable :=
  .ofNoexcept (op.construct strerror buffer r)

variable {strerror} {op : QpOperation} {buffer : Span} {r : RegResult}

theorem regMr_of_some {k : UInt32 × UInt32} (h : r.keys = some k) :
    regMr strerror buffer r = .ok ⟨⟨buffer.data, buffer.size, k.1, k.2⟩⟩ := by
  unfold regMr
  rw [h]
  rfl

variable (strerror buffer) in
theorem regMr_of_none (h : r.keys = none) :
    ∃ text, regMr strerror buffer r = .error (.runtimeError text) := by
  unfold regMr
  rw [h]
  exact ⟨_, rfl⟩

theorem construct_of_some {k : UInt32 × UInt32} (h : r.keys = some k) :
    op.construct strerror buffer r =
      .ok (op.awaitable (.span ⟨⟨buffer.data, buffer.size, k.1, k.2⟩⟩)) := by
  unfold QpOperation.construct
  rw [regMr_of_some h]
  rfl

variable (strerror op buffer) in
theorem construct_of_none (h : r.keys = none) :
    ∃ text, op.construct strerror buffer r = .error (.runtimeError text) := by
  obtain ⟨text, ht⟩ := regMr_of_none strerror buffer h
  unfold QpOperation.construct
  rw [ht]
  exact ⟨text, rfl⟩

variable (strerror op buffer) in
/-- **The exception of the constructor does not leave the factory.** -/
theorem make_of_none (h : r.keys = none) : op.make strerror buffer r = .terminated := by
  obtain ⟨text, ht⟩ := construct_of_none strerror op buffer h
  unfold QpOperation.make
  rw [ht]
  rfl

end Construction

/-! ## 2. Runs -/

namespace Registration

open Delivery (Token)

/-- A span-based operation. -/
structure SpanOp where
  token : Token
  operation : QpOperation
  buffer : Span
  reg : RegResult
  env : PostEnv
  coroutine : Nat
  address : UInt64

/-- How far an operation is. -/
inductive Stage where
  | fresh
  /-- The call has returned its awaitable. -/
  | made (a : Awaitable)
  /-- `suspend` has returned true. -/
  | posted (a : Awaitable)
  /-- What its caller observes. -/
  | over (outcome : Asio.Outcome)
  deriving DecidableEq, Repr

/-- The temporary region; it goes with the awaitable. -/
def Stage.region : Stage → Option LocalMr
  | .made (.send a) | .posted (.send a) => a.localMr
  | .made (.recv a) | .posted (.recv a) => a.localMr
  | _ => none

/-- What ended the process. -/
inductive Cause (ι : Type*) where
  | registration (i : ι)
  | completion (i : ι)

structure State (ι : Type*) where
  stage : ι → Stage
  /-- The work requests posted. -/
  posts : ι → Option WorkRequest
  terminated : Option (Cause ι)

inductive Action (ι : Type*) where
  /-- `send`, `write`, `write_with_imm`, `read`, `fetch_and_add`, `compare_and_swap`, `recv`. -/
  | call (i : ι)
  | await (i : ι)
  | complete (i : ι) (wc : IbvWc)

/-- The operation that moves. -/
def Action.op {ι : Type*} : Action ι → ι
  | .call i | .await i | .complete i _ => i

def State.init (ι : Type*) : State ι := ⟨fun _ => .fresh, fun _ => none, none⟩

section Machine

variable {ι : Type*} [DecidableEq ι] (strerror : Int → String) (S : ι → SpanOp)

def State.to (s : State ι) (i : ι) (g : Stage) : State ι :=
  { s with stage := Function.update s.stage i g }

/-- `co_await` begins: the request is posted, or the refusal is stored in the awaitable. The asio
    token loses it. -/
def onAwait (s : State ι) (i : ι) (a : Awaitable) : State ι :=
  match (S i).token with
  | .native =>
    let r := a.awaitSuspend strerror (S i).env (S i).coroutine (S i).address
    if r.ret then { s.to i (.posted r.self) with posts := Function.update s.posts i r.posted }
    else match r.self.awaitResume with
      | .ok v => s.to i (.over (.returned v))
      | .error e => s.to i (.over (.threw e))
  | .asio =>
    let r := a.suspend strerror (S i).env (S i).address
    if r.ret then { s.to i (.posted r.self) with posts := Function.update s.posts i r.posted }
    else s.to i (.over .dropped)

/-- The completion entry reaches the operation. -/
def onComplete (s : State ι) (i : ι) (wc : IbvWc) (a : Awaitable) : State ι :=
  match (S i).token with
  | .native =>
    match (a.setFromWc wc).awaitResume with
    | .ok v => s.to i (.over (.returned v))
    | .error e => s.to i (.over (.threw e))
  | .asio =>
    match Asio.complete (a.setFromWc wc) with
    | .ok (none, v) => s.to i (.over (.returned v))
    | .ok (some e, _) => s.to i (.over (.threw e))
    | .error _ => { s with terminated := some (.completion i) }

/-- Nothing moves once the process has ended. -/
def step (s : State ι) (a : Action ι) : Option (State ι) :=
  if s.terminated.isSome then none else
  match a with
  | .call i =>
    match s.stage i with
    | .fresh =>
      match (S i).operation.make strerror (S i).buffer (S i).reg with
      | .returned a => some (s.to i (.made a))
      | .threw e => some (s.to i (.over (.threw e)))
      | .terminated => some { s with terminated := some (.registration i) }
    | _ => none
  | .await i =>
    match s.stage i with
    | .made a => some (onAwait strerror S s i a)
    | _ => none
  | .complete i wc =>
    match s.stage i with
    | .posted a => some (onComplete S s i wc a)
    | _ => none

def machine : Machine (State ι) (Action ι) := ⟨step strerror S⟩

end Machine

/-! ## 3. Containment -/

section Containment

variable {ι : Type*} [DecidableEq ι] {strerror : Int → String} {S : ι → SpanOp} {s t : State ι}
  {as : List (Action ι)} {a : Action ι} {i : ι}

/-- `ibv_reg_mr` fails for the operation. -/
def SpanOp.Fails (o : SpanOp) : Prop := o.reg.keys = none

instance (o : SpanOp) : Decidable o.Fails := inferInstanceAs (Decidable (_ = _))

variable (strerror S) in
/-- The run `as` to the state `s` contains its failed registrations. -/
structure Contained (as : List (Action ι)) (s : State ι) : Prop where
  alive : ∀ i, s.terminated ≠ some (.registration i)
  /-- The caller can catch what the operation throws, and nothing is posted or registered. -/
  failed : ∀ i, (S i).Fails → .call i ∈ as →
    (∃ e, s.stage i = .over (.threw e)) ∧ s.posts i = none ∧ (s.stage i).region = none
  /-- Without the failed operations the run gives the others the same. -/
  others : ∃ t, (machine strerror S).run (.init ι) (as.filter fun a => ¬ (S a.op).Fails) = some t ∧
    ∀ i, ¬ (S i).Fails → t.stage i = s.stage i ∧ t.posts i = s.posts i

/-- What a step can do. -/
inductive Step (S : ι → SpanOp) (s : State ι) : Action ι → State ι → Prop
  | made (i : ι) (h : s.stage i = .fresh) (hf : ¬ (S i).Fails) (a : Awaitable) :
      Step S s (.call i) (s.to i (.made a))
  | failed (i : ι) (h : s.stage i = .fresh) (hf : (S i).Fails) :
      Step S s (.call i) { s with terminated := some (.registration i) }
  | posted (i : ι) (a b : Awaitable) (h : s.stage i = .made a) (wr : Option WorkRequest) :
      Step S s (.await i) { s.to i (.posted b) with posts := Function.update s.posts i wr }
  | refused (i : ι) (a : Awaitable) (h : s.stage i = .made a) (o : Asio.Outcome) :
      Step S s (.await i) (s.to i (.over o))
  | completed (i : ι) (a : Awaitable) (h : s.stage i = .posted a) (wc : IbvWc)
      (o : Asio.Outcome) : Step S s (.complete i wc) (s.to i (.over o))
  | ended (i : ι) (a : Awaitable) (h : s.stage i = .posted a) (wc : IbvWc) :
      Step S s (.complete i wc) { s with terminated := some (.completion i) }

variable (strerror S) in
theorem onAwait_cases (s : State ι) (i : ι) (a : Awaitable) :
    (∃ b wr, onAwait strerror S s i a =
      { s.to i (.posted b) with posts := Function.update s.posts i wr }) ∨
    ∃ o, onAwait strerror S s i a = s.to i (.over o) := by
  unfold onAwait
  cases (S i).token with
  | native =>
    dsimp only
    split
    · exact Or.inl ⟨_, _, rfl⟩
    · split <;> exact Or.inr ⟨_, rfl⟩
  | asio =>
    dsimp only
    split
    · exact Or.inl ⟨_, _, rfl⟩
    · exact Or.inr ⟨_, rfl⟩

theorem onComplete_cases (s : State ι) (i : ι) (wc : IbvWc) (a : Awaitable) :
    (∃ o, onComplete S s i wc a = s.to i (.over o)) ∨
    onComplete S s i wc a = { s with terminated := some (.completion i) } := by
  unfold onComplete
  cases (S i).token with
  | native =>
    dsimp only
    split <;> exact Or.inl ⟨_, rfl⟩
  | asio =>
    dsimp only
    split
    · exact Or.inl ⟨_, rfl⟩
    · exact Or.inl ⟨_, rfl⟩
    · exact Or.inr rfl

/-- **Every step is one of `Step`**, taken before the process ends. -/
theorem step_cases (h : (machine strerror S).step s a = some t) :
    s.terminated = none ∧ Step S s a t := by
  unfold machine step at h
  dsimp only at h
  split at h
  · cases h
  rename_i hz
  refine ⟨Option.not_isSome_iff_eq_none.mp hz, ?_⟩
  cases a with
  | call i =>
    dsimp only at h
    cases hs : s.stage i with
    | fresh =>
      rw [hs] at h
      dsimp only at h
      cases hk : (S i).reg.keys with
      | none =>
        rw [make_of_none strerror _ _ hk] at h
        cases h
        exact .failed i hs hk
      | some k =>
        unfold QpOperation.make at h
        rw [construct_of_some hk] at h
        cases h
        refine .made i hs (fun hf => ?_) _
        cases hk.symm.trans hf
    | _ =>
      rw [hs] at h
      cases h
  | await i =>
    dsimp only at h
    cases hs : s.stage i with
    | made a =>
      rw [hs] at h
      cases h
      rcases onAwait_cases strerror S s i a with ⟨b, wr, he⟩ | ⟨o, he⟩
      · rw [he]
        exact .posted i a b hs wr
      · rw [he]
        exact .refused i a hs o
    | _ =>
      rw [hs] at h
      cases h
  | complete i wc =>
    dsimp only at h
    cases hs : s.stage i with
    | posted a =>
      rw [hs] at h
      cases h
      rcases onComplete_cases (S := S) s i wc a with ⟨o, he⟩ | he
      · rw [he]
        exact .completed i a hs wc o
      · rw [he]
        exact .ended i a hs wc
    | _ =>
      rw [hs] at h
      cases h

/-- A step of one operation leaves the others where they are. -/
theorem Step.stage (h : Step S s a t) (hi : a.op ≠ i) : t.stage i = s.stage i := by
  cases h with
  | failed | ended => rfl
  | _ => exact Function.update_of_ne (Ne.symm hi) _ _

/-- Before its call an operation does nothing else. -/
theorem Step.fresh (h : Step S s a t) (hf : s.stage a.op = .fresh) : a = .call a.op := by
  cases h with
  | made | failed => rfl
  | posted i a b hs | refused i a hs =>
    cases hf.symm.trans hs
  | completed i a hs | ended i a hs =>
    cases hf.symm.trans hs

theorem Step.terminated (h : Step S s a t) (hs : s.terminated = none)
    (ht : t.terminated = some (.registration i)) : a = .call i ∧ (S i).Fails := by
  cases h with
  | failed j _ hf =>
    obtain rfl : j = i := Cause.registration.inj (Option.some.inj ht)
    exact ⟨rfl, hf⟩
  | ended => cases ht
  | _ => cases hs.symm.trans ht

/-- An operation that is not called does nothing. -/
theorem not_called (h : (machine strerror S).run s as = some t) (hf : s.stage i = .fresh)
    (hc : .call i ∉ as) : ∀ a ∈ as, a.op ≠ i := by
  induction as generalizing s with
  | nil => exact fun a ha => nomatch ha
  | cons b bs ih =>
    obtain ⟨u, hs, hr⟩ := Machine.run_cons_eq_some.mp h
    obtain ⟨-, hb⟩ := step_cases hs
    have hne : b.op ≠ i := by
      rintro rfl
      exact hc (List.mem_cons.mpr (Or.inl (hb.fresh hf).symm))
    have hrest := ih hr ((hb.stage hne).trans hf) fun hm => hc (List.mem_cons_of_mem b hm)
    intro a ha
    rcases List.mem_cons.mp ha with rfl | ha
    · exact hne
    · exact hrest a ha

/-- **A failed registration is the end of the run.** -/
theorem terminated_of_fails (h : (machine strerror S).run s as = some t) (hc : .call i ∈ as)
    (hf : (S i).Fails) : t.terminated = some (.registration i) := by
  induction as generalizing s with
  | nil => cases hc
  | cons b bs ih =>
    obtain ⟨u, hs, hr⟩ := Machine.run_cons_eq_some.mp h
    rcases List.mem_cons.mp hc with rfl | hc
    · have hu : u.terminated = some (.registration i) := by
        cases (step_cases hs).2 with
        | made _ _ hn => exact absurd hf hn
        | failed => rfl
      cases bs with
      | nil =>
        cases hr
        exact hu
      | cons b bs =>
        obtain ⟨v, hv, -⟩ := Machine.run_cons_eq_some.mp hr
        cases hu.symm.trans (step_cases hv).1
    · exact ih hr hc

/-- Only a failed registration ends the process as one. -/
theorem fails_of_terminated (h : (machine strerror S).run s as = some t) (hs : s.terminated = none)
    (ht : t.terminated = some (.registration i)) : .call i ∈ as ∧ (S i).Fails := by
  induction as generalizing s with
  | nil =>
    cases h
    cases hs.symm.trans ht
  | cons b bs ih =>
    obtain ⟨u, hb, hr⟩ := Machine.run_cons_eq_some.mp h
    obtain ⟨-, hstep⟩ := step_cases hb
    cases bs with
    | nil =>
      cases hr
      obtain ⟨rfl, hf⟩ := hstep.terminated hs ht
      exact ⟨List.mem_cons_self, hf⟩
    | cons c cs =>
      obtain ⟨v, hv, -⟩ := Machine.run_cons_eq_some.mp hr
      obtain ⟨hc, hf⟩ := ih hr (step_cases hv).1
      exact ⟨List.mem_cons_of_mem b hc, hf⟩

/-- **Failed registrations are contained exactly where there are none**: in every run of span-based
    operations, with either token, in any interleaving and with any posts and completions. -/
theorem contained_iff (strerror : Int → String) (S : ι → SpanOp) (as : List (Action ι))
    (s : State ι) (h : (machine strerror S).run (.init ι) as = some s) :
    Contained strerror S as s ↔ ∀ i, .call i ∈ as → ¬ (S i).Fails := by
  constructor
  · intro hc i hi hf
    exact hc.alive i (terminated_of_fails h hi hf)
  · intro hn
    have hall : as.filter (fun a => ¬ (S a.op).Fails) = as := by
      refine List.filter_eq_self.mpr fun a ha => decide_eq_true fun hf => ?_
      exact not_called h rfl (fun hi => hn a.op hi hf) a ha rfl
    refine ⟨fun i ht => ?_, fun i hf hi => absurd hf (hn i hi), s, ?_, fun _ _ => ⟨rfl, rfl⟩⟩
    · obtain ⟨hi, hf⟩ := fails_of_terminated h rfl ht
      exact hn i hi hf
    · rw [hall]
      exact h

/-- A read of 64 bytes whose region cannot be registered (`ENOMEM`). -/
def unregistered (token : Token) : Unit → SpanOp := fun _ =>
  ⟨token, .read ⟨65536, 64, 9⟩, ⟨4096, 64⟩, ⟨none, 12⟩, ⟨some .postRecvRq, 0⟩, 0, 8192⟩

theorem unregistered_terminates (token : Token) :
    ∃ s, (machine (fun _ => "") (unregistered token)).run (.init Unit) [.call ()] = some s ∧
      s.terminated = some (.registration ()) ∧
      ¬ Contained (fun _ => "") (unregistered token) [.call ()] s :=
  ⟨_, rfl, rfl, fun h => h.alive () rfl⟩

/-- It ends the process, by either token. -/
theorem registration_terminates :
    (∃ s, (machine (fun _ => "") (unregistered .native)).run (.init Unit) [.call ()] = some s ∧
      s.terminated = some (.registration ()) ∧
      ¬ Contained (fun _ => "") (unregistered .native) [.call ()] s) ∧
    ∃ s, (machine (fun _ => "") (unregistered .asio)).run (.init Unit) [.call ()] = some s ∧
      s.terminated = some (.registration ()) ∧
      ¬ Contained (fun _ => "") (unregistered .asio) [.call ()] s :=
  ⟨unregistered_terminates .native, unregistered_terminates .asio⟩

/-- A registered send is carried out. -/
theorem contained_iff_sent :
    ∃ s, (machine (fun _ => "") fun _ : Unit => ⟨.native, .send, ⟨4096, 64⟩, ⟨some (7, 9), 0⟩,
        ⟨some .postRecvRq, 0⟩, 0, 8192⟩).run (.init Unit)
        [.call (), .await (), .complete () ⟨8192, .success, 0, 64, 0⟩] = some s ∧
      s.stage () = .over (.returned (.send 0)) ∧
      Contained (fun _ => "") (fun _ : Unit => ⟨.native, .send, ⟨4096, 64⟩, ⟨some (7, 9), 0⟩,
        ⟨some .postRecvRq, 0⟩, 0, 8192⟩)
        [.call (), .await (), .complete () ⟨8192, .success, 0, 64, 0⟩] s := by
  refine ⟨_, rfl, rfl, (contained_iff _ _ _ _ rfl).mpr fun _ _ => ?_⟩
  exact nofun

end Containment

end Registration

end Rdmapp
