/-
  File:      Rdmapp/Pollers.lean
  Subject:   THE POLLERS OF THE CONNECTION HELPERS: what a failed handshake leaves behind.

  `accept` and `connect` as `qp_acceptor.cc` and `qp_connector.cc` have them, every step of which
  may throw; `alloc_cq` appends a poller in the middle and nothing takes it out again. A call is
  `Late` when it fails after its first `alloc_cq`: exactly the runs without such a call leave
  `pollers_` to the QPs that were returned (`pollers_iff_not_late`).
-/
import Rdmapp.Handshake.Protocol

namespace Rdmapp
namespace Pollers

open Lib
open Handshake (remoteOf)

/-! ## 1. The helpers -/

/-- `pollers_`, by the CQs polled, and the number of the next CQ. -/
structure HelperState where
  pollers : List Nat
  nextCq : Nat
  deriving DecidableEq, Repr

abbrev HelperM (α : Type) := ExceptT Stop (StateM HelperState) α

/-- A queue pair the helper made. -/
structure HelperQp where
  recvCq : Nat
  sendCq : Nat
  object : QpObject
  userData : List UInt8
  deriving DecidableEq, Repr

/-- Something outside the helper that returns or throws. -/
def raise {α : Type} (r : Except Exc α) : HelperM α := fun s =>
  match r with
  | .ok a => (.ok a, s)
  | .error e => (.error (.exception e), s)

/-- The results in one `alloc_cq`: of `make_shared<cq>`, and of the poller's construction. -/
structure AllocResult where
  cq : Except Exc Unit
  poller : Except Exc Unit

/-- `alloc_cq`, of acceptor and connector alike. -/
def allocCq (r : AllocResult) : HelperM Nat := do
  raise r.cq
  let cq ← fun s => (.ok s.nextCq, { s with nextCq := s.nextCq + 1 })
  raise r.poller
  fun s => (.ok cq, { s with pollers := s.pollers ++ [cq] })

/-- A function of the QP object. -/
def onQp {α : Type} (body : QpM α) (o : QpObject) : HelperM QpObject := fun s =>
  match body o with
  | (.ok _, o) => (.ok o, s)
  | (.error e, _) => (.error e, s)

/-- `catch (std::exception const &e) { co_return nullptr; }`. -/
def orNull (body : HelperM HelperQp) : HelperM (Option HelperQp) := fun s =>
  match body s with
  | (.ok qp, s) => (.ok (some qp), s)
  | (.error (.exception _), s) => (.ok none, s)
  | (.error .crash, s) => (.error .crash, s)

/-- What one `accept` meets. -/
structure AcceptEnv where
  asyncAccept : Except Exc Unit
  recvQp : Except Exc DeserializedQp
  sendCq : AllocResult
  recvCq : AllocResult
  qp : VerbsEnv
  sendQp : Except Exc Unit

/-- What one `connect` meets. `async_resolve` gives the number of endpoints. -/
structure ConnectEnv where
  asyncResolve : Except Exc Nat
  asyncConnect : Except Exc Unit
  cq : AllocResult
  qp : VerbsEnv
  sendQp : Except Exc Unit
  recvQp : Except Exc DeserializedQp

section Calls

variable (strerror : Int → String) (device : Device)

/-- The body of `basic_qp_acceptor::accept`. -/
def acceptBody (env : AcceptEnv) : HelperM HelperQp := do
  raise env.asyncAccept
  let remoteQp ← raise env.recvQp
  let sendCq ← allocCq env.sendCq
  let recvCq ← allocCq env.recvCq
  let object ← onQp (construct strerror env.qp device (.remoteCqs (remoteOf remoteQp)))
    QpObject.blank
  raise env.sendQp
  pure ⟨recvCq, sendCq, object, remoteQp.userData⟩

/-- `basic_qp_acceptor::accept`. -/
def accept (env : AcceptEnv) : HelperM (Option HelperQp) := orNull (acceptBody strerror device env)

/-- `basic_qp_connector::from_socket`. -/
def fromSocket (env : ConnectEnv) : HelperM HelperQp := do
  let sendCq ← allocCq env.cq
  let recvCq := sendCq
  let object ← onQp (construct strerror env.qp device .cqs) QpObject.blank
  raise env.sendQp
  let remoteQp ← raise env.recvQp
  let object ← onQp (rtr strerror env.qp device (remoteOf remoteQp)) object
  let object ← onQp (rts strerror env.qp) object
  pure ⟨recvCq, sendCq, object, remoteQp.userData⟩

/-- `basic_qp_connector::connect`. -/
def connect (env : ConnectEnv) : HelperM HelperQp := do
  let endpoints ← raise env.asyncResolve
  -- `std::terminate`
  if endpoints = 0 then throw .crash
  raise env.asyncConnect
  fromSocket strerror device env

inductive Helper where
  | acceptor
  | connector
  deriving DecidableEq, Repr

def Helper.Env : Helper → Type
  | .acceptor => AcceptEnv
  | .connector => ConnectEnv

/-- One call. -/
def Helper.call : (h : Helper) → h.Env → HelperM (Option HelperQp)
  | .acceptor, env => accept strerror device env
  | .connector, env => do
    let qp ← connect strerror device env
    pure (some qp)

/-! ## 2. Runs of calls -/

/-- The helper, and the QPs its calls returned. -/
structure Service where
  helper : HelperState
  returned : List HelperQp

def Service.start : Service := ⟨⟨[], 0⟩, []⟩

/-- One call, to its end. -/
def step (h : Helper) (s : Service) (env : h.Env) : Option Service :=
  match h.call strerror device env s.helper with
  | (.ok (some qp), st) => some ⟨st, s.returned ++ [qp]⟩
  | (.ok none, st) => some ⟨st, s.returned⟩
  | (.error (.exception _), st) => some ⟨st, s.returned⟩
  | (.error .crash, _) => none

def machine (h : Helper) : Machine Service h.Env where
  step := step strerror device h

/-- The call returns `nullptr`, or throws. -/
def Fails (h : Helper) (s : Service) (env : h.Env) : Prop :=
  ∀ qp, (h.call strerror device env s.helper).1 ≠ .ok (some qp)

/-- In the run every failing call leaves `pollers_` as it was. -/
def FailuresLeaveAlone (h : Helper) (calls : List h.Env) : Prop :=
  ∀ before env after s₁ s₂, calls = before ++ env :: after →
    (machine strerror device h).run Service.start before = some s₁ →
    step strerror device h s₁ env = some s₂ → Fails strerror device h s₁ env →
    s₂.helper.pollers = s₁.helper.pollers

end Calls

/-- The CQs of a QP, in the order they were allocated: the connector's QP has one. -/
def HelperQp.cqs (qp : HelperQp) : List Nat :=
  if qp.sendCq = qp.recvCq then [qp.sendCq] else [qp.sendCq, qp.recvCq]

/-- `pollers_` has the pollers of the CQs of the QPs returned, each once, and no others. -/
def Service.Exact (s : Service) : Prop :=
  s.helper.pollers.Nodup ∧ ∀ cq, cq ∈ s.helper.pollers ↔ ∃ qp ∈ s.returned, cq ∈ qp.cqs

/-! ## 3. Which calls fail late -/

def AllocResult.Made (r : AllocResult) : Prop := r.cq = .ok () ∧ r.poller = .ok ()

/-- `ibv_create_qp` returns a QP, and the next `n` transitions are granted. -/
def QpMade (env : VerbsEnv) (n : Nat) : Prop :=
  env.created ≠ none ∧ Granted env 1 (List.replicate n true)

/-- The call gets past its first `alloc_cq` and fails after it. -/
def Helper.Late : (h : Helper) → h.Env → Prop
  | .acceptor, (env : AcceptEnv) => env.asyncAccept = .ok () ∧ (∃ d, env.recvQp = .ok d) ∧
      env.sendCq.Made ∧ ¬ (env.recvCq.Made ∧ QpMade env.qp 3 ∧ env.sendQp = .ok ())
  | .connector, (env : ConnectEnv) => (∃ n, n ≠ 0 ∧ env.asyncResolve = .ok n) ∧
      env.asyncConnect = .ok () ∧ env.cq.Made ∧
      ¬ (QpMade env.qp 3 ∧ env.sendQp = .ok () ∧ ∃ d, env.recvQp = .ok d)

/-! ## 4. What each function does -/

/-- `new` were appended to the pollers, all of them fresh. -/
structure Leaves (s st : HelperState) (new : List Nat) : Prop where
  pollers : st.pollers = s.pollers ++ new
  nodup : new.Nodup
  fresh : ∀ cq ∈ new, s.nextCq ≤ cq ∧ cq < st.nextCq
  next : s.nextCq ≤ st.nextCq

section Functions

variable {strerror : Int → String} {device : Device} {s st u : HelperState}

theorem Leaves.refl (s : HelperState) : Leaves s s [] :=
  ⟨(List.append_nil _).symm, List.nodup_nil, fun _ hm => absurd hm List.not_mem_nil, Nat.le_refl _⟩

theorem Leaves.trans {new₁ new₂ : List Nat} (h₁ : Leaves s st new₁) (h₂ : Leaves st u new₂) :
    Leaves s u (new₁ ++ new₂) := by
  refine ⟨?_, ?_, ?_, h₁.next.trans h₂.next⟩
  · rw [h₂.pollers, h₁.pollers, List.append_assoc]
  · rw [List.nodup_append]
    refine ⟨h₁.nodup, h₂.nodup, fun a ha b hb hab => ?_⟩
    -- the second list starts where the first one stopped
    have hlt := (h₁.fresh a ha).2
    have hge := (h₂.fresh b hb).1
    omega
  · intro cq hm
    rcases List.mem_append.mp hm with hm | hm
    · exact ⟨(h₁.fresh cq hm).1, (h₁.fresh cq hm).2.trans_le h₂.next⟩
    · exact ⟨h₁.next.trans (h₂.fresh cq hm).1, (h₂.fresh cq hm).2⟩

theorem raise_ok {α : Type} {r : Except Exc α} {a : α} (h : r = .ok a) :
    raise r s = (.ok a, s) := by
  rw [h]
  rfl

theorem raise_error {α : Type} {r : Except Exc α} {e : Exc} (h : r = .error e) :
    raise r s = (.error (.exception e), s) := by
  rw [h]
  rfl

/-- `alloc_cq` appends the new CQ's poller. -/
theorem allocCq_made {r : AllocResult} (h : r.Made) (s : HelperState) :
    ∃ st, allocCq r s = (.ok s.nextCq, st) ∧ Leaves s st [s.nextCq] ∧ st.nextCq = s.nextCq + 1 := by
  refine ⟨⟨s.pollers ++ [s.nextCq], s.nextCq + 1⟩, ?_, ?_, rfl⟩
  · unfold allocCq
    rw [bind_ok (raise_ok h.1)]
    refine (bind_ok rfl _).trans ?_
    rw [bind_ok (raise_ok h.2)]
  · refine ⟨rfl, List.nodup_cons.mpr ⟨List.not_mem_nil, List.nodup_nil⟩, fun cq hm => ?_, Nat.le_succ _⟩
    rw [List.mem_singleton.mp hm]
    exact ⟨Nat.le_refl _, Nat.lt_succ_self _⟩

/-- `alloc_cq` throws with nothing appended. -/
theorem allocCq_failed {r : AllocResult} (h : ¬ r.Made) (s : HelperState) :
    ∃ e st, allocCq r s = (.error (.exception e), st) ∧ Leaves s st [] := by
  unfold allocCq
  cases hq : r.cq with
  | error e => exact ⟨e, s, bind_error (raise_error rfl) _, .refl s⟩
  | ok _ =>
    cases hp : r.poller with
    | error e =>
      -- the CQ is made and dropped
      refine ⟨e, { s with nextCq := s.nextCq + 1 }, ?_, ?_⟩
      · rw [bind_ok (raise_ok rfl)]
        exact (bind_ok rfl _).trans (bind_error (raise_error rfl) _)
      · exact ⟨(List.append_nil _).symm, List.nodup_nil,
          fun _ hm => absurd hm List.not_mem_nil, Nat.le_succ _⟩
    | ok _ => exact absurd ⟨hq, hp⟩ h

/-- A function that keeps the handle touches no poller. -/
theorem onQp_keeps {env : VerbsEnv} {h : QpHandle} {body : QpM Unit} {marks : List Bool}
    (hb : Keeps env h body marks) {n : Nat} {o : QpObject} (ho : Owns h n o) (s : HelperState) :
    (Granted env n marks ∧ ∃ o', onQp body o s = (.ok o', s) ∧ Owns h (n + marks.length) o') ∨
    (¬ Granted env n marks ∧ ∃ e, onQp body o s = (.error (.exception e), s)) := by
  unfold onQp
  rcases hb n o ho with ⟨hg, o', hr, ho'⟩ | ⟨hg, e, o', hr, -⟩
  · exact Or.inl ⟨hg, o', by rw [hr], ho'⟩
  · exact Or.inr ⟨hg, e, by rw [hr]⟩

variable (strerror device) in
/-- `make_shared<qp>` touches no poller. -/
theorem onQp_construct (env : VerbsEnv) (ctor : Ctor) (s : HelperState) :
    (QpMade env ctor.transitions ∧ ∃ h o,
      onQp (construct strerror env device ctor) QpObject.blank s = (.ok o, s) ∧
        Owns h (1 + ctor.transitions) o) ∨
    (¬ QpMade env ctor.transitions ∧ ∃ e,
      onQp (construct strerror env device ctor) QpObject.blank s =
        (.error (.exception e), s)) := by
  unfold onQp
  rw [construct_eq]
  cases hk : env.created with
  | none =>
    obtain ⟨e, he⟩ := create_none strerror hk
    exact Or.inr ⟨fun hm => hm.1 hk, e, by rw [bind_error he]⟩
  | some h =>
    rw [bind_ok (create_some strerror hk)]
    rcases keeps_afterCreate strerror device ctor 1 _ (owns_created env.nextSqPsn) with
      ⟨hg, o, hr, ho⟩ | ⟨hg, e, o, hr, -⟩
    · rw [List.length_replicate] at ho
      exact Or.inl ⟨⟨by rw [hk]; exact Option.some_ne_none h, hg⟩, h, o, by rw [hr], ho⟩
    · exact Or.inr ⟨fun hm => hg hm.2, e, by rw [hr]⟩

/-- What a call does to the pollers: a QP comes with its own, a failure leaves some behind exactly
    when it is late. -/
inductive Ran (late : Prop) (s : HelperState) : Except Stop HelperQp → HelperState → Prop
  | returned {qp : HelperQp} {st : HelperState} (hl : ¬ late) (h : Leaves s st qp.cqs) :
      Ran late s (.ok qp) st
  | early {e : Exc} {st : HelperState} (hl : ¬ late) (h : Leaves s st []) :
      Ran late s (.error (.exception e)) st
  | late {e : Exc} {st : HelperState} {cq : Nat} {new : List Nat} (hl : late)
      (h : Leaves s st (cq :: new)) : Ran late s (.error (.exception e)) st
  | ended {st : HelperState} (hl : ¬ late) : Ran late s (.error .crash) st

variable (strerror device) in
/-- The acceptor's call. -/
theorem ran_acceptBody (env : AcceptEnv) (s : HelperState) :
    Ran (Helper.Late .acceptor env) s (acceptBody strerror device env s).1
      (acceptBody strerror device env s).2 := by
  unfold acceptBody
  cases hacc : env.asyncAccept with
  | error e =>
    rw [bind_error (raise_error rfl)]
    refine .early (fun hl => ?_) (.refl s)
    cases hacc.symm.trans hl.1
  | ok _ =>
  rw [bind_ok (raise_ok rfl)]
  cases hrecv : env.recvQp with
  | error e =>
    rw [bind_error (raise_error rfl)]
    refine .early (fun hl => ?_) (.refl s)
    obtain ⟨d, hd⟩ := hl.2.1
    cases hrecv.symm.trans hd
  | ok remoteQp =>
  rw [bind_ok (raise_ok rfl)]
  by_cases hsend : env.sendCq.Made
  case neg =>
    obtain ⟨e, st, ha, hst⟩ := allocCq_failed hsend s
    rw [bind_error ha]
    exact .early (fun hl => hsend hl.2.2.1) hst
  obtain ⟨st, ha, hst, hnext⟩ := allocCq_made hsend s
  rw [bind_ok ha]
  -- from here on a failure leaves the first CQ's poller behind
  have hlate : ¬ (env.recvCq.Made ∧ QpMade env.qp 3 ∧ env.sendQp = .ok ()) →
      Helper.Late .acceptor env := fun hn => ⟨hacc, ⟨remoteQp, hrecv⟩, hsend, hn⟩
  by_cases hrcq : env.recvCq.Made
  case neg =>
    obtain ⟨e, u, hb, hu⟩ := allocCq_failed hrcq st
    rw [bind_error hb]
    exact .late (hlate fun hc => hrcq hc.1) (hst.trans hu)
  obtain ⟨u, hb, hu, -⟩ := allocCq_made hrcq st
  have htwo : Leaves s u [s.nextCq, st.nextCq] := hst.trans hu
  rw [bind_ok hb]
  rcases onQp_construct strerror device env.qp (.remoteCqs (remoteOf remoteQp)) u with
    ⟨hmade, h, o, hc, -⟩ | ⟨hmade, e, hc⟩
  case inr =>
    rw [bind_error hc]
    exact .late (hlate fun hc => hmade hc.2.1) htwo
  rw [bind_ok hc]
  cases hwrite : env.sendQp with
  | error e =>
    rw [bind_error (raise_error rfl)]
    exact .late (hlate fun hc => by cases hwrite.symm.trans hc.2.2) htwo
  | ok _ =>
  rw [bind_ok (raise_ok rfl)]
  refine .returned (fun hl => hl.2.2.2 ⟨hrcq, hmade, hwrite⟩) ?_
  show Leaves s u (if s.nextCq = st.nextCq then [s.nextCq] else [s.nextCq, st.nextCq])
  rw [if_neg (by omega)]
  exact htwo

variable (strerror device) in
/-- The connector's call, once the socket is connected: only its first step leaves nothing. -/
theorem ran_fromSocket (env : ConnectEnv) (s : HelperState) :
    Ran (env.cq.Made ∧ ¬ (QpMade env.qp 3 ∧ env.sendQp = .ok () ∧ ∃ d, env.recvQp = .ok d)) s
      (fromSocket strerror device env s).1 (fromSocket strerror device env s).2 := by
  unfold fromSocket
  by_cases hcq : env.cq.Made
  case neg =>
    obtain ⟨e, st, ha, hst⟩ := allocCq_failed hcq s
    rw [bind_error ha]
    exact .early (fun hl => hcq hl.1) hst
  obtain ⟨st, ha, hst, -⟩ := allocCq_made hcq s
  rw [bind_ok ha]
  have hthree : QpMade env.qp 3 ↔
      QpMade env.qp 1 ∧ Granted env.qp 2 [true] ∧ Granted env.qp 3 [true] := by
    unfold QpMade
    rw [show List.replicate 3 true = List.replicate 1 true ++ ([true] ++ [true]) from rfl,
      granted_append, granted_append, and_assoc]
    rfl
  rw [hthree]
  rcases onQp_construct strerror device env.qp .cqs st with
    ⟨hmade, h, o, hc, ho⟩ | ⟨hmade, e, hc⟩
  case inr =>
    rw [bind_error hc]
    exact .late ⟨hcq, fun hn => hmade hn.1.1⟩ hst
  rw [bind_ok hc]
  cases hwrite : env.sendQp with
  | error e =>
    rw [bind_error (raise_error rfl)]
    exact .late ⟨hcq, fun hn => by cases hn.2.1⟩ hst
  | ok _ =>
  rw [bind_ok (raise_ok rfl)]
  cases hrecv : env.recvQp with
  | error e =>
    rw [bind_error (raise_error rfl)]
    refine .late ⟨hcq, fun hn => ?_⟩ hst
    obtain ⟨d, hd⟩ := hn.2.2
    cases hd
  | ok remoteQp =>
  rw [bind_ok (raise_ok rfl)]
  rcases onQp_keeps (keeps_transition (rtrAttr device (remoteOf remoteQp)) rtrMask _) ho st with
    ⟨hrtr, o₁, hr, ho₁⟩ | ⟨hrtr, e, hr⟩
  case inr =>
    rw [rtr, bind_error hr]
    exact .late ⟨hcq, fun hn => hrtr hn.1.2.1⟩ hst
  rw [rtr, bind_ok hr]
  rcases onQp_keeps (keeps_rts : Keeps env.qp h (rts strerror env.qp) [true]) ho₁ st with
    ⟨hrts, o₂, ht, -⟩ | ⟨hrts, e, ht⟩
  case inr =>
    rw [bind_error ht]
    exact .late ⟨hcq, fun hn => hrts hn.1.2.2⟩ hst
  rw [bind_ok ht]
  refine .returned (fun hl => hl.2 ⟨⟨hmade, hrtr, hrts⟩, rfl, remoteQp, rfl⟩) ?_
  show Leaves s st (if s.nextCq = s.nextCq then [s.nextCq] else [s.nextCq, s.nextCq])
  rw [if_pos rfl]
  exact hst

theorem Ran.of_iff {late late' : Prop} {r : Except Stop HelperQp} (h : Ran late s r st)
    (hl : late ↔ late') : Ran late' s r st :=
  propext hl ▸ h

variable (strerror device) in
/-- The connector's call. -/
theorem ran_connect (env : ConnectEnv) (s : HelperState) :
    Ran (Helper.Late .connector env) s (connect strerror device env s).1
      (connect strerror device env s).2 := by
  unfold connect
  cases hres : env.asyncResolve with
  | error e =>
    rw [bind_error (raise_error rfl)]
    refine .early (fun hl => ?_) (.refl s)
    obtain ⟨n, -, hn⟩ := hl.1
    cases hres.symm.trans hn
  | ok endpoints =>
  rw [bind_ok (raise_ok rfl)]
  by_cases hz : endpoints = 0
  case pos =>
    have hthrow : (throw Stop.crash : HelperM PUnit) s = (.error .crash, s) := rfl
    rw [if_pos hz, bind_error hthrow]
    refine .ended fun hl => ?_
    obtain ⟨n, hn, he⟩ := hl.1
    cases hres.symm.trans he
    exact hn hz
  rw [if_neg hz]
  dsimp only
  cases hcon : env.asyncConnect with
  | error e =>
    rw [bind_error (raise_error rfl)]
    refine .early (fun hl => ?_) (.refl s)
    cases hcon.symm.trans hl.2.1
  | ok _ =>
  rw [bind_ok (raise_ok rfl)]
  refine (ran_fromSocket strerror device env s).of_iff ?_
  exact ⟨fun hl => ⟨⟨endpoints, hz, hres⟩, hcon, hl.1, hl.2⟩, fun hl => hl.2.2⟩

end Functions

/-! ## 5. The pollers over a run of calls -/

section Runs

variable (strerror : Int → String) (device : Device)

variable {strerror device} {h : Helper} {env : h.Env} {s t : Service} {leaked : List Nat}

/-- What a call of either helper does to the pollers. -/
inductive RanCall (late : Prop) (s : HelperState) :
    Except Stop (Option HelperQp) → HelperState → Prop
  | returned {qp : HelperQp} {st : HelperState} (hl : ¬ late) (h : Leaves s st qp.cqs) :
      RanCall late s (.ok (some qp)) st
  | failed {r : Except Stop (Option HelperQp)} {st : HelperState} {new : List Nat}
      (hr : r = .ok none ∨ ∃ e, r = .error (.exception e)) (hl : late ↔ new ≠ [])
      (h : Leaves s st new) : RanCall late s r st
  | ended {st : HelperState} (hl : ¬ late) : RanCall late s (.error .crash) st

variable (strerror device) in
theorem ran_call (h : Helper) (env : h.Env) (s : HelperState) :
    RanCall (h.Late env) s (h.call strerror device env s).1 (h.call strerror device env s).2 := by
  cases h with
  | acceptor =>
    have hran := ran_acceptBody strerror device env s
    unfold Helper.call accept orNull
    dsimp only
    generalize acceptBody strerror device env s = res at hran
    obtain ⟨r, st⟩ := res
    cases hran with
    | returned hl h => exact .returned hl h
    | early hl h => exact .failed (.inl rfl) (iff_of_false hl fun hn => hn rfl) h
    | late hl h => exact .failed (.inl rfl) (iff_of_true hl (List.cons_ne_nil _ _)) h
    | ended hl => exact .ended hl
  | connector =>
    have hran := ran_connect strerror device env s
    unfold Helper.call
    dsimp only
    rcases hc : connect strerror device env s with ⟨r, st⟩
    rw [hc] at hran
    cases hran with
    | returned hl h =>
      rw [bind_ok hc]
      exact .returned hl h
    | early hl h =>
      rw [bind_error hc]
      exact .failed (.inr ⟨_, rfl⟩) (iff_of_false hl fun hn => hn rfl) h
    | late hl h =>
      rw [bind_error hc]
      exact .failed (.inr ⟨_, rfl⟩) (iff_of_true hl (List.cons_ne_nil _ _)) h
    | ended hl =>
      rw [bind_error hc]
      exact .ended hl

/-- The pollers are those of the returned QPs and the leaked ones, each once. -/
structure Accounts (s : Service) (leaked : List Nat) : Prop where
  perm : s.helper.pollers.Perm (s.returned.flatMap HelperQp.cqs ++ leaked)
  nodup : s.helper.pollers.Nodup
  below : ∀ cq ∈ s.helper.pollers, cq < s.helper.nextCq

theorem accounts_start : Accounts Service.start [] :=
  ⟨List.Perm.refl _, List.nodup_nil, fun _ hm => absurd hm List.not_mem_nil⟩

theorem Accounts.leaves {st : HelperState} {new : List Nat} (ha : Accounts s leaked)
    (hs : Leaves s.helper st new) :
    st.pollers.Nodup ∧ ∀ cq ∈ st.pollers, cq < st.nextCq := by
  rw [hs.pollers, List.nodup_append]
  refine ⟨⟨ha.nodup, hs.nodup, fun a hma b hmb hab => ?_⟩, fun cq hm => ?_⟩
  · have hlt := ha.below a hma
    have hge := (hs.fresh b hmb).1
    omega
  · rcases List.mem_append.mp hm with hm | hm
    · exact (ha.below cq hm).trans_le hs.next
    · exact (hs.fresh cq hm).2

/-- One call: late calls, and only they, fail and leave something behind. -/
theorem Accounts.step (ha : Accounts s leaked)
    (ht : Pollers.step strerror device h s env = some t) :
    ∃ new, Accounts t (leaked ++ new) ∧ (h.Late env ↔ new ≠ []) ∧
      (h.Late env ↔ Fails strerror device h s env ∧ t.helper.pollers ≠ s.helper.pollers) := by
  have hran := ran_call strerror device h env s.helper
  unfold Pollers.step at ht
  rcases hc : h.call strerror device env s.helper with ⟨r, st⟩
  rw [hc] at hran ht
  cases hran with
  | returned hl hs =>
    cases ht
    obtain ⟨hnodup, hbelow⟩ := ha.leaves hs
    refine ⟨[], ⟨?_, hnodup, hbelow⟩, iff_of_false hl (fun hn => hn rfl),
      iff_of_false hl (fun hf => hf.1 _ (by rw [hc]))⟩
    rw [hs.pollers, List.append_nil, List.flatMap_append, List.flatMap_singleton]
    refine (ha.perm.append_right _).trans ?_
    rw [List.append_assoc, List.append_assoc]
    exact List.perm_append_comm.append_left _
  | @failed _ _ new hr hl hs =>
    have ht' : t = ⟨st, s.returned⟩ ∧ Fails strerror device h s env := by
      unfold Fails
      rw [hc]
      rcases hr with rfl | ⟨e, rfl⟩
      · cases ht
        exact ⟨rfl, fun qp hq => nomatch hq⟩
      · cases ht
        exact ⟨rfl, fun qp hq => nomatch hq⟩
    obtain ⟨rfl, hf⟩ := ht'
    obtain ⟨hnodup, hbelow⟩ := ha.leaves hs
    refine ⟨new, ⟨?_, hnodup, hbelow⟩, hl, ?_⟩
    · rw [hs.pollers, ← List.append_assoc]
      exact ha.perm.append_right _
    · rw [hl, hs.pollers, and_iff_right hf, Ne, Ne, List.append_right_eq_self]
  | ended hl => cases ht

/-- A run of calls leaves something behind exactly when one of them is late. -/
theorem Accounts.run (ha : Accounts s leaked) (calls : List h.Env)
    (hr : (machine strerror device h).run s calls = some t) :
    ∃ leaked', Accounts t leaked' ∧
      (leaked' ≠ [] ↔ leaked ≠ [] ∨ ∃ env ∈ calls, h.Late env) := by
  induction calls generalizing s leaked with
  | nil =>
    cases hr
    refine ⟨leaked, ha, (or_iff_left ?_).symm⟩
    rintro ⟨env, hm, -⟩
    exact List.not_mem_nil hm
  | cons env calls ih =>
    obtain ⟨u, hu, hr⟩ := Machine.run_cons_eq_some.mp hr
    obtain ⟨new, hau, hnew, -⟩ := ha.step hu
    obtain ⟨leaked', hat, hiff⟩ := ih hau hr
    refine ⟨leaked', hat, ?_⟩
    rw [hiff, List.exists_mem_cons_iff, hnew, Ne, Ne, List.append_eq_nil_iff, not_and_or, or_assoc]

/-- The pollers are exactly those of the returned QPs when nothing is leaked. -/
theorem Accounts.exact_iff (ha : Accounts s leaked) : s.Exact ↔ leaked = [] := by
  constructor
  · rintro ⟨-, hexact⟩
    rw [List.eq_nil_iff_forall_not_mem]
    intro cq hm
    have hdis := (List.nodup_append.mp (ha.perm.nodup_iff.mp ha.nodup)).2.2
    have hp : cq ∈ s.helper.pollers := ha.perm.mem_iff.mpr (List.mem_append_right _ hm)
    exact hdis cq (List.mem_flatMap.mpr ((hexact cq).mp hp)) cq hm rfl
  · rintro rfl
    refine ⟨ha.nodup, fun cq => ?_⟩
    rw [ha.perm.mem_iff, List.append_nil, List.mem_flatMap]

/-- **When failed handshakes leave the helper as it was.** In a run of calls every failing call
    leaves `pollers_` alone, and `pollers_` has exactly the pollers of the QPs returned, if and only
    if no call fails after its first `alloc_cq`. -/
theorem pollers_iff_not_late (strerror : Int → String) (device : Device) (h : Helper)
    (calls : List h.Env) (s : Service)
    (hr : (machine strerror device h).run Service.start calls = some s) :
    (FailuresLeaveAlone strerror device h calls ↔ ∀ env ∈ calls, ¬ h.Late env) ∧
    (s.Exact ↔ ∀ env ∈ calls, ¬ h.Late env) := by
  constructor
  · constructor
    · intro hall env hm hl
      obtain ⟨before, after, rfl⟩ := List.append_of_mem hm
      obtain ⟨u, hbefore, hrest⟩ := Machine.run_append_eq_some.mp hr
      obtain ⟨v, hstep, -⟩ := Machine.run_cons_eq_some.mp hrest
      obtain ⟨leaked, ha, -⟩ := accounts_start.run before hbefore
      obtain ⟨_, -, -, hlate⟩ := ha.step hstep
      exact (hlate.mp hl).2 (hall before env after u v rfl hbefore hstep (hlate.mp hl).1)
    · rintro hall before env after u v rfl hbefore hstep hf
      obtain ⟨leaked, ha, -⟩ := accounts_start.run before hbefore
      obtain ⟨_, -, -, hlate⟩ := ha.step hstep
      by_contra hne
      exact hall env (List.mem_append_right _ List.mem_cons_self) (hlate.mpr ⟨hf, hne⟩)
  · obtain ⟨leaked, ha, hiff⟩ := accounts_start.run calls hr
    rw [ha.exact_iff]
    constructor
    · rintro rfl env hm hl
      exact hiff.mpr (Or.inr ⟨env, hm, hl⟩) rfl
    · intro hall
      by_contra hne
      rcases hiff.mp hne with hn | ⟨env, hm, hl⟩
      · exact hn rfl
      · exact hall env hm hl

end Runs

/-! ## 6. Two acceptors -/

def aDevice : Device := ⟨1, ⟨List.replicate 16 0, rfl⟩, 1, 0⟩

/-- A call in which everything goes well. -/
def goodAccept : AcceptEnv where
  asyncAccept := .ok ()
  recvQp := .ok ⟨⟨1, 5, 7, 0, ⟨List.replicate 16 0, rfl⟩⟩, []⟩
  sendCq := ⟨.ok (), .ok ()⟩
  recvCq := ⟨.ok (), .ok ()⟩
  qp := ⟨some 7, 0, fun _ => 0, 0⟩
  sendQp := .ok ()

/-- A QP is returned, then a peer leaves before it has sent its description. -/
theorem pollers_iff_not_late_acceptor :
    ∃ s : Service, s.returned.length = 1 ∧ s.Exact := by
  have hr := (pollers_iff_not_late (fun _ => "") aDevice .acceptor
    [goodAccept, { goodAccept with recvQp := .error (.runtimeError "eof") }] _ rfl).2
  refine ⟨_, ?_, hr.mpr ?_⟩
  · rfl
  intro env hm hl
  rcases List.mem_cons.mp hm with rfl | hm
  · refine hl.2.2.2 ⟨⟨rfl, rfl⟩, ⟨Option.some_ne_none 7, fun _ _ => rfl⟩, rfl⟩
  · cases List.mem_singleton.mp hm
    obtain ⟨d, hd⟩ := hl.2.1
    cases hd

/-- The peer's socket is gone when the description is sent: two pollers stay, for no QP. -/
theorem failed_accept_leaves_pollers :
    ∃ s : Service, (machine (fun _ => "") aDevice .acceptor).run Service.start
        [{ goodAccept with sendQp := .error (.runtimeError "broken pipe") }] = some s ∧
      s.returned = [] ∧ s.helper.pollers = [0, 1] ∧ ¬ s.Exact := by
  refine ⟨_, rfl, rfl, rfl, fun he => ?_⟩
  obtain ⟨qp, hm, -⟩ := (he.2 0).mp List.mem_cons_self
  exact List.not_mem_nil hm

end Pollers
end Rdmapp
