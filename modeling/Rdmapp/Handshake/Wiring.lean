/-
  File:      Rdmapp/Handshake/Wiring.lean
  Subject:   MANY HANDSHAKES: how the QPs of connectors and acceptor are wired to each other.

  Any number of handshakes side by side, in any interleaving, their parties in processes that
  each count `next_sq_psn` for themselves. The acceptor's handshakes may overlap; its loop, one
  `accept` after the other, is a case of that.

  `handshake_wires`: returned QPs are wired in pairs, no two of them to one peer, and a connector's
  QP never leaves INIT before the acceptor's has reached RTS.
-/
import Rdmapp.Handshake.Connection

namespace Rdmapp
namespace Handshake

open Lib

/-! ## 1. The system -/

/-- `next_sq_psn` of a process after `n` creations; it starts at 1. -/
def nextSqPsn (n : Nat) : UInt32 := UInt32.ofNat (1 + n)

/-- The handshakes `ι`, and how many QPs each process has created. -/
structure State (ι π : Type*) where
  conn : ι → Conn
  created : π → Nat

def State.start (ι π : Type*) : State ι π := ⟨fun _ => Conn.start, fun _ => 0⟩

def State.party {ι π : Type*} (s : State ι π) (q : ι × Side) : Party := (s.conn q.1).party q.2

inductive Action (ι π : Type*) where
  | conn (i : ι) (a : ConnAction)
  /-- The process creates a QP elsewhere. -/
  | create (process : π)

section System

variable {ι π : Type*} [DecidableEq ι] [DecidableEq π] (strerror : Int → String)
  (host : ι × Side → Host π)

def step (s : State ι π) : Action ι π → Option (State ι π)
  | .conn i a =>
    let psn (x : Side) : UInt32 := nextSqPsn (s.created (host (i, x)).process)
    ((s.conn i).step strerror (fun x => host (i, x)) psn a).map fun c =>
      { conn := Function.update s.conn i c
        created :=
          match (s.conn i).creates a with
          | none => s.created
          | some x =>
            let process := (host (i, x)).process
            Function.update s.created process (s.created process + 1) }
  | .create process =>
    some { s with created := Function.update s.created process (s.created process + 1) }

def machine : Machine (State ι π) (Action ι π) where
  step := step strerror host

/-- Two parties' QPs share a port. -/
def SamePort (q r : ι × Side) : Prop :=
  (host q).device.lid = (host r).device.lid ∧ (host q).device.gid = (host r).device.gid

/-- `ibv_create_qp` gives a number no live QP of the port has. -/
def FreshNumber (s : State ι π) : Action ι π → Prop
  | .conn i (.exec x out) =>
    (s.conn i).creates (.exec x out) = some x →
      ∀ q, (s.party q).alive = true → SamePort host (i, x) q → (s.party q).qpNum ≠ out.qpNum
  | _ => True

end System

/-! ## 2. Steps -/

section Steps

variable {ι π : Type*} [DecidableEq ι] [DecidableEq π] {strerror : Int → String}
  {host : ι × Side → Host π} {s t : State ι π}

/-- **What a step does to the QPs**: one is created, with the next sequence number of its process,
    or none. -/
inductive Moves (host : ι × Side → Host π) (s t : State ι π) : Prop
  | born (q : ι × Side) (new : ¬ Did q.2 .create (s.party q))
      (created : Did q.2 .create (t.party q))
      (sqPsn : (t.party q).qp.sqPsn = nextSqPsn (s.created (host q).process))
      (fresh : ∀ r, (s.party r).alive = true → SamePort host q r →
        (s.party r).qpNum ≠ (t.party q).qpNum)
      (others : ∀ r, r ≠ q → Kept r.2 (s.party r) (t.party r))
      (count : t.created = Function.update s.created (host q).process
        (s.created (host q).process + 1)) : Moves host s t
  | kept (all : ∀ r, Kept r.2 (s.party r) (t.party r))
      (count : ∀ p, s.created p ≤ t.created p) : Moves host s t

theorem le_update_succ (f : π → Nat) (p p' : π) : f p ≤ Function.update f p' (f p' + 1) p := by
  by_cases h : p = p'
  · subst h
    rw [Function.update_self]
    exact Nat.le_succ _
  · rw [Function.update_of_ne h]

/-- Every step keeps the invariant of every handshake, and moves the QPs so. -/
theorem moves_of_step (hi : ∀ i, ConnInv (fun x => host (i, x)) (s.conn i)) {a : Action ι π}
    (hf : FreshNumber host s a) (h : (machine strerror host).step s a = some t) :
    (∀ i, ConnInv (fun x => host (i, x)) (t.conn i)) ∧ Moves host s t := by
  cases a with
  | create process =>
    cases h
    exact ⟨hi, .kept (fun r => kept_refl r.2 _) fun p => le_update_succ s.created p process⟩
  | conn i a =>
    obtain ⟨c, hc, rfl⟩ := Option.map_eq_some_iff.mp h
    have hconn : ∀ j, ConnInv (fun x => host (j, x)) (Function.update s.conn i c j) :=
      (Function.forall_update_iff s.conn fun j c => ConnInv (fun x => host (j, x)) c).mpr
        ⟨(hi i).step hc, fun j _ => hi j⟩
    refine ⟨hconn, ?_⟩
    -- a QP that the step does not create stays
    have kept : ∀ r : ι × Side, (r.1 = i → (s.conn i).creates a ≠ some r.2) →
        Kept r.2 (s.party r) ((Function.update s.conn i c r.1).party r.2) := by
      rintro ⟨j, y⟩ hne
      unfold State.party
      by_cases hj : j = i
      · subst hj
        dsimp only
        rw [Function.update_self]
        exact kept_of_step (hi j) hc (hne rfl)
      · rw [Function.update_of_ne hj]
        exact kept_refl y _
    cases hcr : (s.conn i).creates a with
    | none =>
      refine .kept (fun r => kept r fun _ hcr' => ?_) fun p => Nat.le_refl _
      rw [hcr] at hcr'
      cases hcr'
    | some x =>
      obtain ⟨out, rfl, hnew, hdid, hpsn, hnum⟩ := born_of_step (hi i) hc hcr
      have hself : (Function.update s.conn i c i).party x = c.party x := by
        rw [Function.update_self]
      refine .born (i, x) hnew ?_ ?_ ?_ (fun r hr => kept r fun hri hcr' => hr ?_) rfl
      · show Did x .create ((Function.update s.conn i c i).party x)
        rw [hself]
        exact hdid
      · show ((Function.update s.conn i c i).party x).qp.sqPsn = _
        rw [hself]
        exact hpsn
      · show ∀ r, _ → _ → _ ≠ ((Function.update s.conn i c i).party x).qpNum
        rw [hself, hnum]
        exact hf hcr
      · rw [hcr] at hcr'
        exact Prod.ext hri (Option.some.inj hcr').symm

end Steps

/-! ## 3. The invariant -/

section Invariant

variable {ι π : Type*} {host : ι × Side → Host π} {s t : State ι π}

/-- Two live QPs of a port with one number. -/
structure SameNumber (host : ι × Side → Host π) (s : State ι π) (q r : ι × Side) : Prop where
  alive : (s.party q).alive = true ∧ (s.party r).alive = true
  port : SamePort host q r
  qpNum : (s.party q).qpNum = (s.party r).qpNum

/-- Two QPs of a process with one first sequence number. -/
structure SamePsn (host : ι × Side → Host π) (s : State ι π) (q r : ι × Side) : Prop where
  did : Did q.2 .create (s.party q) ∧ Did r.2 .create (s.party r)
  process : (host q).process = (host r).process
  sqPsn : (s.party q).qp.sqPsn = (s.party r).qp.sqPsn

/-- What holds of all handshakes together. -/
structure Inv (host : ι × Side → Host π) (s : State ι π) : Prop where
  conn : ∀ i, ConnInv (fun x => host (i, x)) (s.conn i)
  numbers : ∀ q r, SameNumber host s q r → q = r
  /-- Sequence numbers are drawn from the process' counter. -/
  drawn : ∀ q, Did q.2 .create (s.party q) →
    ∃ n < s.created (host q).process, (s.party q).qp.sqPsn = nextSqPsn n
  /-- Until the counter wraps they differ. -/
  psns : (∀ p, s.created p < 2 ^ 32) → ∀ q r, SamePsn host s q r → q = r

theorem nextSqPsn_inj {m n : Nat} (hm : m < 2 ^ 32) (hn : n < 2 ^ 32)
    (h : nextSqPsn m = nextSqPsn n) : m = n := by
  have ht := congrArg UInt32.toNat h
  unfold nextSqPsn at ht
  rw [UInt32.toNat_ofNat', UInt32.toNat_ofNat'] at ht
  omega

theorem inv_start (host : ι × Side → Host π) : Inv host (State.start ι π) where
  conn _ := connInv_start
  numbers _ _ h := by cases h.alive.1
  drawn _ hq := absurd hq (Nat.not_lt_zero _)
  psns _ _ _ h := absurd h.did.1 (Nat.not_lt_zero _)

theorem SameNumber.symm {q r : ι × Side} (h : SameNumber host s q r) : SameNumber host s r q :=
  ⟨h.alive.symm, ⟨h.port.1.symm, h.port.2.symm⟩, h.qpNum.symm⟩

theorem SamePsn.symm {q r : ι × Side} (h : SamePsn host s q r) : SamePsn host s r q :=
  ⟨h.did.symm, h.process.symm, h.sqPsn.symm⟩

/-- QPs that a step keeps have a number in common only if they had it before. -/
theorem SameNumber.of_kept {q r : ι × Side} (hq : Kept q.2 (s.party q) (t.party q))
    (hr : Kept r.2 (s.party r) (t.party r)) (h : SameNumber host t q r) :
    SameNumber host s q r where
  alive := ⟨hq.alive h.alive.1, hr.alive h.alive.2⟩
  port := h.port
  qpNum := hq.qpNum.symm.trans (h.qpNum.trans hr.qpNum)

theorem SamePsn.of_kept {q r : ι × Side} (hq : Kept q.2 (s.party q) (t.party q))
    (hr : Kept r.2 (s.party r) (t.party r)) (h : SamePsn host t q r) : SamePsn host s q r where
  did := ⟨hq.did.mp h.did.1, hr.did.mp h.did.2⟩
  process := h.process
  sqPsn := hq.sqPsn.symm.trans (h.sqPsn.trans hr.sqPsn)

/-- What a kept QP drew it still has drawn. -/
theorem Inv.drawn_of_kept (hi : Inv host s) (count : ∀ p, s.created p ≤ t.created p)
    {q : ι × Side} (hq : Kept q.2 (s.party q) (t.party q)) (hd : Did q.2 .create (t.party q)) :
    ∃ n < t.created (host q).process, (t.party q).qp.sqPsn = nextSqPsn n := by
  obtain ⟨n, hlt, hn⟩ := hi.drawn q (hq.did.mp hd)
  exact ⟨n, Nat.lt_of_lt_of_le hlt (count _), hq.sqPsn.trans hn⟩

/-- A symmetric relation that never holds between the new element and an old one, and between old
    ones only of equals, holds only of equals. -/
theorem eq_of_new {α : Type*} {R : α → α → Prop} {a₀ : α} (symm : ∀ a b, R a b → R b a)
    (new : ∀ a, a ≠ a₀ → ¬ R a a₀) (old : ∀ a b, a ≠ a₀ → b ≠ a₀ → R a b → a = b) (a b : α)
    (h : R a b) : a = b := by
  by_cases ha : a = a₀
  · by_cases hb : b = a₀
    · exact ha.trans hb.symm
    · exact absurd (symm a b h) (ha ▸ new b hb)
  · by_cases hb : b = a₀
    · exact absurd h (hb ▸ new a ha)
    · exact old a b ha hb h

/-- Steps that create no QP. -/
theorem Inv.kept (hi : Inv host s) (hconn : ∀ i, ConnInv (fun x => host (i, x)) (t.conn i))
    (all : ∀ r, Kept r.2 (s.party r) (t.party r)) (count : ∀ p, s.created p ≤ t.created p) :
    Inv host t where
  conn := hconn
  numbers q r h := hi.numbers q r (h.of_kept (all q) (all r))
  drawn q hd := hi.drawn_of_kept count (all q) hd
  psns hb q r h :=
    hi.psns (fun p => Nat.lt_of_le_of_lt (count p) (hb p)) q r (h.of_kept (all q) (all r))

/-- A step that creates one: its number is fresh, and so is the sequence number it draws. -/
theorem Inv.born (hi : Inv host s) (hconn : ∀ i, ConnInv (fun x => host (i, x)) (t.conn i))
    {q₀ : ι × Side} (sqPsn : (t.party q₀).qp.sqPsn = nextSqPsn (s.created (host q₀).process))
    (fresh : ∀ r, (s.party r).alive = true → SamePort host q₀ r →
      (s.party r).qpNum ≠ (t.party q₀).qpNum)
    (others : ∀ r, r ≠ q₀ → Kept r.2 (s.party r) (t.party r))
    (count : ∀ p, s.created p ≤ t.created p)
    (hown : t.created (host q₀).process = s.created (host q₀).process + 1) : Inv host t where
  conn := hconn
  numbers := by
    refine eq_of_new (fun q r h => h.symm) (fun r hr h => ?_)
      (fun q r hq hr h => hi.numbers q r (h.of_kept (others q hq) (others r hr)))
    have hk := others r hr
    exact fresh r (hk.alive h.alive.1) h.symm.port (hk.qpNum.symm.trans h.qpNum)
  drawn := by
    intro q hd
    by_cases hq : q = q₀
    · subst hq
      exact ⟨_, by omega, sqPsn⟩
    · exact hi.drawn_of_kept count (others q hq) hd
  psns := by
    intro hb
    have hb' : ∀ p, s.created p < 2 ^ 32 := fun p => Nat.lt_of_le_of_lt (count p) (hb p)
    refine eq_of_new (fun q r h => h.symm) (fun r hr h => ?_)
      (fun q r hq hr h => hi.psns hb' q r (h.of_kept (others q hq) (others r hr)))
    -- the old QP drew from the counter before the new one
    have hk := others r hr
    obtain ⟨n, hlt, hn⟩ := hi.drawn r (hk.did.mp h.did.1)
    have heq := hn.symm.trans (hk.sqPsn.symm.trans (h.sqPsn.trans sqPsn))
    rw [h.process] at hlt
    have hown' := hb' (host q₀).process
    have hnn := nextSqPsn_inj (by omega) hown' heq
    omega

end Invariant

section Reach

variable {ι π : Type*} [DecidableEq ι] [DecidableEq π] {strerror : Int → String}
  {host : ι × Side → Host π} {s t : State ι π}

/-- **Every step keeps the invariant.** -/
theorem Inv.step (hi : Inv host s) {a : Action ι π} (hf : FreshNumber host s a)
    (h : (machine strerror host).step s a = some t) : Inv host t := by
  obtain ⟨hconn, hm⟩ := moves_of_step hi.conn hf h
  cases hm with
  | kept all count => exact hi.kept hconn all count
  | born q₀ new created sqPsn fresh others count =>
    refine hi.born hconn sqPsn fresh others ?_ ?_
    · intro p
      rw [count]
      exact le_update_succ s.created p _
    · rw [count, Function.update_self]

theorem inv_reach (h : (machine strerror host).ReachIf (FreshNumber host) (State.start ι π) s) :
    Inv host s :=
  h.invariant (inv_start host) fun _ _ _ hi hf hs => hi.step hf hs

end Reach

/-! ## 4. The handshake -/

/-- A returned QP is where the handshake promises: moved to RTR with the peer's address, then to
    RTS with the sequence number the peer was told. -/
structure Wired {π : Type*} (host : Side → Host π) (c : Conn) (x : Side) : Prop where
  rtr : .rtr ∈ (c.party x).reached
  rts : .rts ∈ (c.party x).reached
  target : (c.party x).targets = [some ((c.party x.other).address (host x.other))]
  sqPsn : ∃ d, (c.party x.other).remote = some d ∧ d.header.sqPsn = (c.party x).qp.sqPsn ∧
    (c.party x).sqPsns = [some d.header.sqPsn]

theorem ConnInv.wired {π : Type*} {host : Side → Host π} {c : Conn} (hi : ConnInv host c)
    (h : ∀ x, c.Returned x) (x : Side) : Wired host c x := by
  obtain ⟨-, hrem⟩ := hi.remote_eq ((h x.other).did .recv)
  rw [Side.other_other] at hrem
  exact
    { rtr := (hi.party x).reachedRtr.mpr ((h x).did .rtr)
      rts := (hi.party x).reachedRts.mpr ((h x).did .rts)
      target := hi.targets_eq (h x)
      sqPsn := ⟨_, hrem, rfl, hi.sqPsns_eq (h x)⟩ }

section Pairing

variable {ι π : Type*} [DecidableEq ι] [DecidableEq π] {strerror : Int → String}
  {host : ι × Side → Host π} {s : State ι π}

/-- The other party of a party's handshake. -/
def peer (q : ι × Side) : ι × Side := (q.1, q.2.other)

omit [DecidableEq ι] in
theorem peer_injective {q r : ι × Side} (h : peer q = peer r) : q = r := by
  obtain ⟨i, x⟩ := q
  obtain ⟨j, y⟩ := r
  obtain ⟨rfl, hxy⟩ := Prod.mk.inj h
  rw [← Side.other_other x, ← Side.other_other y, hxy]

/-- The party has its QP to return. -/
def State.Returned (s : State ι π) (q : ι × Side) : Prop := (s.conn q.1).Returned q.2

def State.address (host : ι × Side → Host π) (s : State ι π) (q : ι × Side) : RemoteQp :=
  (s.party q).address (host q)

/-- Two returned QPs name different peers: different parties' QPs, whose addresses differ while
    both are live, and whose sequence numbers differ within a process. -/
structure NamesApart (host : ι × Side → Host π) (s : State ι π) (q r : ι × Side) : Prop where
  targets : (s.party q).targets = [some (s.address host (peer q))] ∧
    (s.party r).targets = [some (s.address host (peer r))]
  peers : peer q ≠ peer r
  live : (s.party (peer q)).alive = true → (s.party (peer r)).alive = true →
    ¬ ((s.address host (peer q)).lid = (s.address host (peer r)).lid ∧
      (s.address host (peer q)).gid = (s.address host (peer r)).gid ∧
      (s.address host (peer q)).qpn = (s.address host (peer r)).qpn)
  psn : (host (peer q)).process = (host (peer r)).process →
    (s.address host (peer q)).psn ≠ (s.address host (peer r)).psn

omit [DecidableEq ι] [DecidableEq π] in
theorem Inv.namesApart (hi : Inv host s) (hcount : ∀ p, s.created p < 2 ^ 32) {q r : ι × Side}
    (hq : s.Returned q) (hr : s.Returned r) (hne : q ≠ r) : NamesApart host s q r := by
  -- the peer of a returned QP has told its address, so its QP exists
  have hcreated : ∀ q : ι × Side, s.Returned q → Did (peer q).2 .create (s.party (peer q)) := by
    intro q hq
    obtain ⟨hsent, -⟩ := (hi.conn q.1).remote_eq (hq.did .recv)
    obtain ⟨-, -, -, hcs, -, -, -⟩ := program_order (peer q).2
    exact hcs.trans hsent
  have hpeers : peer q ≠ peer r := fun h => hne (peer_injective h)
  exact
    { targets := ⟨(hi.conn q.1).targets_eq hq, (hi.conn r.1).targets_eq hr⟩
      peers := hpeers
      live := fun hlq hlr hsame =>
        hpeers (hi.numbers _ _ ⟨⟨hlq, hlr⟩, ⟨hsame.1, hsame.2.1⟩, hsame.2.2⟩)
      psn := fun hproc hsame =>
        hpeers (hi.psns hcount _ _ ⟨⟨hcreated q hq, hcreated r hr⟩, hproc, hsame⟩) }

/-- **The handshake wires QPs pairwise and in a safe order.** In every state that any number of
    handshakes reach, whatever fails: both QPs of a handshake that returned both are wired to each
    other; no two returned QPs name one peer; and a connector's QP has not left INIT before the
    acceptor's has reached RTS. -/
theorem handshake_wires (strerror : Int → String) (host : ι × Side → Host π) {s : State ι π}
    (h : (machine strerror host).ReachIf (FreshNumber host) (State.start ι π) s)
    (hcount : ∀ p, s.created p < 2 ^ 32) :
    (∀ i, (∀ x, (s.conn i).Returned x) → ∀ x, Wired (fun x => host (i, x)) (s.conn i) x) ∧
    (∀ q r, s.Returned q → s.Returned r → q ≠ r → NamesApart host s q r) ∧
    (∀ i, .rtr ∈ (s.party (i, .connector)).reached ∨ .rts ∈ (s.party (i, .connector)).reached →
      .rts ∈ (s.party (i, .acceptor)).reached) := by
  have hi := inv_reach h
  exact ⟨fun i hr => (hi.conn i).wired hr, fun q r hq hr hne => hi.namesApart hcount hq hr hne,
    fun i hc => (hi.conn i).acceptor_first hc⟩

end Pairing

/-- Two hosts with one process each, of different byte orders. -/
def twoHosts : Unit × Side → Host Side
  | (_, .connector) => ⟨.connector, ⟨1, ⟨List.replicate 16 1, rfl⟩, 1, 0⟩, .little⟩
  | (_, .acceptor) => ⟨.acceptor, ⟨2, ⟨List.replicate 16 2, rfl⟩, 1, 0⟩, .big⟩

/-- An operation that creates no QP and that the environment lets succeed, or the arrival of a
    description. -/
def succeeding (a : Side × Bool) : Action Unit Side :=
  .conn () (if a.2 then .exec a.1 ⟨none, 0, 0, 0, 30⟩ else .deliver a.1 30)

theorem fresh_succeeding (s : State Unit Side) (a : Side × Bool) :
    FreshNumber twoHosts s (succeeding a) := by
  obtain ⟨x, b⟩ := a
  cases b with
  | false => trivial
  | true =>
    intro hc
    have hno : (s.conn ()).creates (.exec x ⟨none, 0, 0, 0, 30⟩) = none :=
      if_neg fun h => h.2 rfl
    cases hno.symm.trans hc

theorem reachIf_succeeding {s t : State Unit Side} (as : List (Side × Bool))
    (h : (machine (fun _ => "") twoHosts).run s (as.map succeeding) = some t) :
    (machine (fun _ => "") twoHosts).ReachIf (FreshNumber twoHosts) s t := by
  refine Machine.reachIf_of_run _ (fun a ha s => ?_) h
  obtain ⟨b, -, rfl⟩ := List.mem_map.mp ha
  exact fresh_succeeding s b

/-- A handshake that succeeds on both sides: the connector creates its QP and describes it, the
    acceptor creates its own, readies and describes it, the connector follows. -/
theorem handshake_wires_once : ∃ s : State Unit Side,
    (∀ x, (s.conn ()).Returned x) ∧
    (s.party ((), .connector)).targets = [some ⟨2, 23, 1, ⟨List.replicate 16 2, rfl⟩⟩] ∧
    (∀ x, Wired (fun x => twoHosts ((), x)) (s.conn ()) x) ∧
    NamesApart twoHosts s ((), .connector) ((), .acceptor) ∧
    .rts ∈ (s.party ((), .acceptor)).reached := by
  have h₀ : (machine (fun _ => "") twoHosts).ReachIf (FreshNumber twoHosts)
      (State.start Unit Side) (State.start Unit Side) := .start
  have h₁ := h₀.step (.conn () (.exec .connector ⟨some 8, 17, 0, 0, 0⟩))
    (by intro _ q hq; cases hq) rfl
  have h₂ := h₁.trans (reachIf_succeeding [(.connector, true), (.connector, true),
    (.connector, true), (.connector, false), (.acceptor, true)] rfl)
  have h₃ := h₂.step (.conn () (.exec .acceptor ⟨some 9, 23, 0, 0, 0⟩))
    (by rintro _ ⟨⟨⟩, x⟩ _ _; cases x <;> decide) rfl
  have h₄ := h₃.trans (reachIf_succeeding [(.acceptor, true), (.acceptor, true),
    (.acceptor, true), (.acceptor, true), (.acceptor, true), (.acceptor, true),
    (.acceptor, false), (.connector, true), (.connector, true), (.connector, true),
    (.connector, true)] rfl)
  obtain ⟨hwired, hapart, hfirst⟩ := handshake_wires (fun _ => "") twoHosts h₄
    (by intro p; cases p <;> decide)
  refine ⟨_, ?_, rfl, hwired () ?_, hapart _ _ ⟨rfl, rfl⟩ ⟨rfl, rfl⟩ (by decide),
    hfirst () (Or.inl (by decide))⟩
  · rintro (_ | _)
    · exact ⟨rfl, rfl⟩
    · exact ⟨rfl, rfl⟩
  · rintro (_ | _)
    · exact ⟨rfl, rfl⟩
    · exact ⟨rfl, rfl⟩

end Handshake
end Rdmapp
