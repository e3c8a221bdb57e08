/-
  File:      Rdmapp/Handshake/Connection.lean
  Subject:   ONE HANDSHAKE OVER ITS SOCKET: the invariant of both parties and the bytes between.

  `Carried` ties the bytes on their way, and then what the reader has, to the QP they describe.
  `ConnInv` is that for both directions with both parties' own invariants; every step of the
  handshake keeps it (`ConnInv.step`), whatever verbs and the socket do.
-/
import Rdmapp.Handshake.Protocol

namespace Rdmapp
namespace Handshake

open Lib

/-! ## 1. A description on its way -/

/-- A description `e` on its way: not sent yet, then cut in three between reader, network and
    writer, then read. -/
structure Carried (order : ByteOrder) (e : QpEndpoint) (sent : Prop) (pending : List UInt8)
    (ch : Channel) (read : Prop) (remote : Option DeserializedQp) : Prop where
  unsent : ¬ sent → ch.arrived = [] ∧ ch.inFlight = [] ∧ pending = []
  unread : sent → ¬ read → ch.arrived ++ ch.inFlight ++ pending = e.serialize order
  read : read → sent ∧ remote = some ⟨e.header, []⟩

section Carried

variable {order o' : ByteOrder} {e e' : QpEndpoint} {sent sent' read read' : Prop}
  {pending : List UInt8} {ch : Channel} {remote remote' : Option DeserializedQp}

theorem carried_start (hs : ¬ sent) (hr : ¬ read) :
    Carried order e sent [] ⟨[], []⟩ read remote :=
  ⟨fun _ => ⟨rfl, rfl, rfl⟩, fun h => absurd h hs, fun h => absurd h hr⟩

/-- Before it is sent the QP may still change. -/
theorem Carried.change (h : Carried order e sent pending ch read remote) (hs : ¬ sent)
    (hs' : ¬ sent') : Carried order e' sent' pending ch read remote :=
  ⟨fun _ => h.unsent hs, fun hc => absurd hc hs', fun hr => absurd (h.read hr).1 hs⟩

/-- `serialize`. -/
theorem Carried.send (h : Carried order e sent pending ch read remote) (hs : ¬ sent)
    (hs' : sent') (hr : ¬ read) : Carried order e sent' (e.serialize order) ch read remote := by
  obtain ⟨ha, hf, -⟩ := h.unsent hs
  refine ⟨fun hc => absurd hs' hc, ?_, fun hc => absurd hc hr⟩
  intro _ _
  rw [ha, hf]
  rfl

/-- `async_write`: bytes go from the writer to the network. -/
theorem Carried.write (h : Carried order e sent pending ch read remote) (hs : sent) (n : Nat) :
    Carried order e sent (pending.drop n)
      { ch with inFlight := ch.inFlight ++ pending.take n } read remote := by
  refine ⟨fun hc => absurd hs hc, ?_, h.read⟩
  intro _ hr
  rw [← h.unread hs hr]
  simp only [List.append_assoc, List.take_append_drop]

/-- Bytes arrive. -/
theorem Carried.deliver (h : Carried order e sent pending ch read remote) (n : Nat) :
    Carried order e sent pending (ch.deliver n) read remote := by
  refine ⟨?_, ?_, h.read⟩
  · intro hs
    obtain ⟨ha, hf, hp⟩ := h.unsent hs
    unfold Channel.deliver
    rw [ha, hf, hp]
    simp
  · intro hs hr
    rw [← h.unread hs hr]
    unfold Channel.deliver
    simp only [List.append_assoc, List.take_append_drop]

/-- **What the reader reads is the description**, however its bytes arrived. -/
theorem Carried.receive (h : Carried order e sent pending ch read remote) (hr : ¬ read)
    (hu : e.userData = []) {d : DeserializedQp} {rest : List UInt8}
    (hd : recvQp o' ch.arrived = some (d, rest)) : sent ∧ d = ⟨e.header, []⟩ := by
  by_cases hs : sent
  · have hmore := recvQp_mono hd (ch.inFlight ++ pending)
    have hall := recvQp_serialize order o' e []
    rw [List.append_nil, ← h.unread hs hr, List.append_assoc, hmore] at hall
    have hdeq := congrArg Prod.fst (Option.some.inj hall)
    rw [hu] at hdeq
    exact ⟨hs, hdeq⟩
  · rw [(h.unsent hs).1] at hd
    cases hd

end Carried

theorem Side.other_other (x : Side) : x.other.other = x := by
  cases x <;> rfl

theorem Side.other_ne (x : Side) : x.other ≠ x := by
  cases x <;> decide

theorem Side.eq_or_other (x y : Side) : y = x ∨ y = x.other := by
  cases x <;> cases y <;> decide

section Ran

variable {π : Type*} {host : Host π} {psn : UInt32} {out : Outcome} {x : Side} {p : Party}
  {incoming outgoing : Channel} {op : Op} {r : Party × Channel × Channel}

/-- The party as writer. -/
theorem Ran.sends {read : Prop} {remote : Option DeserializedQp}
    (h : Ran host psn out p incoming outgoing op r) (hi : PartyInv host x p)
    (hpc : p.pc = pos x op)
    (hc : Carried host.order (p.endpoint host) (Did x .serialize p) p.pending outgoing read
      remote) :
    Carried host.order (r.1.endpoint host) (Did x .serialize r.1) r.1.pending r.2.2 read
      remote := by
  obtain ⟨-, -, -, hcs, hsw, -, -⟩ := program_order x
  have same : ∀ {q : Party}, q.endpoint host = p.endpoint host →
      (Did x .serialize q ↔ Did x .serialize p) → q.pending = p.pending →
      Carried host.order (q.endpoint host) (Did x .serialize q) q.pending outgoing read remote := by
    intro q he hd hp
    rw [he, hp, hd]
    exact hc
  cases h with
  | refused o hpsn _ =>
    refine same ?_ Iff.rfl rfl
    unfold Party.endpoint
    rw [hpsn]
  | created k hop hk =>
    subst hop
    have hunsent : ¬ Did x .serialize p := by
      unfold Did
      omega
    exact hc.change hunsent ((did_other hpc rfl (by decide)).not.mpr hunsent)
  | granted k attr mask hqp hprog =>
    refine same rfl (did_other hpc rfl ?_) rfl
    rintro rfl
    cases hprog
  | serialized hop =>
    subst hop
    have hnew : ¬ Did x .serialize p := not_did_here hpc
    refine Carried.send hc hnew ((did_succ hpc rfl).mpr (Or.inr rfl)) ?_
    exact fun hr => hnew (hc.read hr).1
  | wrote hop =>
    subst hop
    have hsent : Did x .serialize p := by
      unfold Did
      omega
    rw [did_wrote hpc (by decide)]
    exact hc.write hsent out.nbytes
  | received d rest hop hd =>
    subst hop
    exact same rfl (did_other hpc rfl (by decide)) rfl
  | stored d hop hd =>
    subst hop
    refine same ?_ (did_other hpc rfl (by decide)) rfl
    unfold Party.endpoint
    dsimp only
    rw [hi.remoteData d hd, hi.userData]
    rfl

/-- The party as reader. -/
theorem Ran.receives {order : ByteOrder} {e : QpEndpoint} {sent : Prop} {pending : List UInt8}
    (h : Ran host psn out p incoming outgoing op r) (hpc : p.pc = pos x op)
    (hu : e.userData = [])
    (hc : Carried order e sent pending incoming (Did x .recv p) p.remote) :
    Carried order e sent pending r.2.1 (Did x .recv r.1) r.1.remote := by
  have same : ∀ {q : Party}, (Did x .recv q ↔ Did x .recv p) → q.remote = p.remote →
      Carried order e sent pending incoming (Did x .recv q) q.remote := by
    intro q hd hr
    rw [hd, hr]
    exact hc
  cases h with
  | refused o hpsn _ => exact same Iff.rfl rfl
  | created k hop hk =>
    subst hop
    exact same (did_other hpc rfl (by decide)) rfl
  | granted k attr mask hqp hprog =>
    refine same (did_other hpc rfl ?_) rfl
    rintro rfl
    cases hprog
  | serialized hop =>
    subst hop
    exact same (did_other hpc rfl (by decide)) rfl
  | wrote hop =>
    subst hop
    exact same (did_wrote hpc (by decide)) rfl
  | received d rest hop hd =>
    subst hop
    have hnew : ¬ Did x .recv p := not_did_here hpc
    have hdid : Did x .recv { p.next with remote := some d } :=
      (did_succ hpc rfl).mpr (Or.inr rfl)
    obtain ⟨hs, hdeq⟩ := hc.receive hnew hu hd
    exact ⟨fun hn => absurd hs hn, fun _ hn => absurd hdid hn, fun _ => ⟨hs, congrArg some hdeq⟩⟩
  | stored d hop hd =>
    subst hop
    exact same (did_other hpc rfl (by decide)) rfl

end Ran

/-! ## 2. The connection -/

/-- **What holds of a handshake in every state.** -/
structure ConnInv {π : Type*} (host : Side → Host π) (c : Conn) : Prop where
  party : ∀ x, PartyInv (host x) x (c.party x)
  /-- What `x` writes, and its peer has read. -/
  chan : ∀ x, Carried (host x).order ((c.party x).endpoint (host x))
    (Did x .serialize (c.party x)) (c.party x).pending (c.chan x)
    (Did x.other .recv (c.party x.other)) (c.party x.other).remote

section Conn

variable {π : Type*} {strerror : Int → String} {host : Side → Host π} {psn : Side → UInt32}
  {c c' : Conn}

theorem connInv_start : ConnInv host Conn.start where
  party _ := partyInv_start
  chan _ := carried_start (Nat.not_lt_zero _) (Nat.not_lt_zero _)

/-- A party changed in a way neither direction of the socket sees. -/
theorem ConnInv.setParty (hi : ConnInv host c) {x : Side} {q : Party}
    (hq : PartyInv (host x) x q)
    (hend : q.endpoint (host x) = (c.party x).endpoint (host x))
    (hpc : q.pc = (c.party x).pc) (hpend : q.pending = (c.party x).pending)
    (hrem : q.remote = (c.party x).remote) : ConnInv host (c.setParty x q) := by
  have hself : (c.setParty x q).party x = q := Function.update_self ..
  have hother : (c.setParty x q).party x.other = c.party x.other :=
    Function.update_of_ne x.other_ne ..
  refine ⟨?_, ?_⟩
  · exact (Function.forall_update_iff c.party fun y q => PartyInv (host y) y q).mpr
      ⟨hq, fun y _ => hi.party y⟩
  · intro y
    rcases Side.eq_or_other x y with rfl | rfl
    · have h := hi.chan y
      rw [hself, hother, hend, hpend]
      unfold Did at h ⊢
      rw [hpc]
      exact h
    · have h := hi.chan x.other
      rw [Side.other_other] at h ⊢
      rw [hself, hother, hrem]
      unfold Did at h ⊢
      rw [hpc]
      exact h

/-- **The step of a handshake, taken apart.** -/
inductive ConnMoves (host : Side → Host π) (psn : Side → UInt32) (c : Conn) :
    ConnAction → Conn → Prop
  | exec (x : Side) (out : Outcome) (op : Op) (r : Party × Channel × Channel)
      (running : (c.party x).failed = false) (here : (program x)[(c.party x).pc]? = some op)
      (ran : Ran (host x) (psn x) out (c.party x) (c.chan x.other) (c.chan x) op r) :
      ConnMoves host psn c (.exec x out)
        { party := Function.update c.party x r.1
          chan := Function.update (Function.update c.chan x.other r.2.1) x r.2.2 }
  | deliver (x : Side) (n : Nat) :
      ConnMoves host psn c (.deliver x n)
        { c with chan := Function.update c.chan x ((c.chan x).deliver n) }
  | abort (x : Side) (running : (c.party x).failed = false) (notReturned : ¬ c.Returned x) :
      ConnMoves host psn c (.abort x) (c.setParty x { c.party x with failed := true })
  | release (x : Side) (out : Outcome) (h : QpHandle) (qp : (c.party x).qp.qp = some h)
      (ended : (c.party x).failed = true ∨ c.Returned x) (alive : (c.party x).alive = true) :
      ConnMoves host psn c (.release x out)
        (c.setParty x
          { c.party x with
            qp := { (c.party x).qp with
              calls := (c.party x).qp.calls ++ [.modifyQp h errAttr [.state]] ++ [.destroyQp h] }
            alive := false })

theorem connMoves_of_step (hi : ConnInv host c) {a : ConnAction}
    (h : c.step strerror host psn a = some c') : ConnMoves host psn c a c' := by
  cases a with
  | exec x out =>
    obtain ⟨hf, h⟩ := Option.ite_none_left_eq_some.mp h
    obtain ⟨op, hop, h⟩ := Option.bind_eq_some_iff.mp h
    obtain ⟨r, hr, h⟩ := Option.bind_eq_some_iff.mp h
    cases h
    have hrun : (c.party x).failed = false := Bool.eq_false_iff.mpr hf
    exact .exec x out op r hrun hop (ran_of_exec (hi.party x) hrun (pos_of_program hop) hr)
  | deliver x n =>
    cases h
    exact .deliver x n
  | abort x =>
    obtain ⟨hg, h⟩ := Option.ite_none_left_eq_some.mp h
    rw [not_or] at hg
    cases h
    exact .abort x (Bool.eq_false_iff.mpr hg.1) hg.2
  | release x out =>
    obtain ⟨⟨hover, halive, hqp⟩, h⟩ := Option.ite_none_right_eq_some.mp h
    obtain ⟨k, hk⟩ := Option.ne_none_iff_exists'.mp hqp
    have hd : destructor (out.env 0) (c.party x).qp = _ := destroy_some hk
    rw [hd] at h
    cases h
    exact .release x out k hk hover halive

/-- **Every step of the handshake keeps its invariant.** -/
theorem ConnInv.step (hi : ConnInv host c) {a : ConnAction}
    (h : c.step strerror host psn a = some c') : ConnInv host c' := by
  cases connMoves_of_step hi h with
  | exec x out op r hrun hop hran =>
    have hpc := pos_of_program hop
    have hin := hi.chan x.other
    rw [Side.other_other] at hin
    have huser : ((c.party x.other).endpoint (host x.other)).userData = [] :=
      (hi.party x.other).userData
    have hout' := hran.sends (hi.party x) hpc (hi.chan x)
    have hin' := hran.receives hpc huser hin
    have hparty : PartyInv (host x) x r.1 := by
      refine (hi.party x).ran hrun hpc (fun d rest hrecv hd => ?_) hran
      have hnew : ¬ Did x .recv (c.party x) := not_did_here (hrecv ▸ hpc)
      rw [(hin.receive hnew huser hd).2]
    refine ⟨?_, ?_⟩
    · exact (Function.forall_update_iff c.party fun y q => PartyInv (host y) y q).mpr
        ⟨hparty, fun y _ => hi.party y⟩
    · intro y
      dsimp only
      rcases Side.eq_or_other x y with rfl | rfl
      · rw [Function.update_self, Function.update_self, Function.update_of_ne y.other_ne]
        exact hout'
      · rw [Function.update_of_ne x.other_ne, Function.update_of_ne x.other_ne,
          Function.update_self, Side.other_other, Function.update_self]
        exact hin'
  | deliver x n =>
    exact ⟨hi.party, (Function.forall_update_iff c.chan fun y ch =>
      Carried (host y).order ((c.party y).endpoint (host y)) (Did y .serialize (c.party y))
        (c.party y).pending ch (Did y.other .recv (c.party y.other)) (c.party y.other).remote).mpr
      ⟨(hi.chan x).deliver n, fun y _ => hi.chan y⟩⟩
  | abort x _ _ => exact hi.setParty ((hi.party x).fail (c.party x).qp) rfl rfl rfl rfl
  | release x out k hk _ _ => exact hi.setParty ((hi.party x).release hk) rfl rfl rfl rfl

/-! ## 3. What a returned QP is wired to -/

/-- The remote QP a modification to RTR programs. -/
def rtrTarget : IbvQpAttr × List IbvQpAttrMask → Option RemoteQp
  | (attr, mask) =>
    if .av ∈ mask ∧ .destQpn ∈ mask ∧ .rqPsn ∈ mask then
      attr.ahAttr.map fun ah => ⟨ah.dlid, attr.destQpNum, attr.rqPsn, ah.dgid⟩
    else none

/-- The send sequence number a modification to RTS programs. -/
def rtsPsn : IbvQpAttr × List IbvQpAttrMask → Option UInt32
  | (attr, mask) => if .sqPsn ∈ mask then some attr.sqPsn else none

/-- The remote QPs a party has programmed into its QP, one for each call. -/
def Party.targets (p : Party) : List (Option RemoteQp) :=
  (modifications .rtr p.qp.calls).map rtrTarget

def Party.sqPsns (p : Party) : List (Option UInt32) :=
  (modifications .rts p.qp.calls).map rtsPsn

/-- Where a party's QP is: its port, its number, its first sequence number. -/
def Party.address (host : Host π) (p : Party) : RemoteQp :=
  ⟨host.device.lid, p.qpNum, p.qp.sqPsn, host.device.gid⟩

theorem Conn.Returned.did {x : Side} (h : c.Returned x) (op : Op) : Did x op (c.party x) := by
  unfold Did
  rw [h.2]
  exact pos_lt_length x op

/-- What a party has read is the description of its peer's QP. -/
theorem ConnInv.remote_eq (hi : ConnInv host c) {x : Side} (h : Did x .recv (c.party x)) :
    Did x.other .serialize (c.party x.other) ∧
      (c.party x).remote = some ⟨((c.party x.other).endpoint (host x.other)).header, []⟩ := by
  have hc := hi.chan x.other
  rw [Side.other_other] at hc
  exact hc.read h

/-- **A returned QP is wired to the peer's**, by the one modification to RTR it has seen, and
    sends from the sequence number the peer was told. -/
theorem ConnInv.targets_eq (hi : ConnInv host c) {x : Side} (h : c.Returned x) :
    (c.party x).targets = [some ((c.party x.other).address (host x.other))] := by
  obtain ⟨d, hd, hm⟩ := (hi.party x).rtr h.1 (h.did .rtr)
  obtain ⟨-, hrem⟩ := hi.remote_eq (h.did .recv)
  have hdeq : d = _ := Option.some.inj (hd.symm.trans hrem)
  unfold Party.targets
  rw [hm, hdeq]
  rfl

theorem ConnInv.sqPsns_eq (hi : ConnInv host c) {x : Side} (h : c.Returned x) :
    (c.party x).sqPsns = [some (c.party x).qp.sqPsn] := by
  unfold Party.sqPsns
  rw [(hi.party x).rts h.1 (h.did .rts)]
  rfl

/-- **The order of the handshake**: the connector's QP leaves INIT after the acceptor's has
    reached RTS. -/
theorem ConnInv.acceptor_first (hi : ConnInv host c)
    (h : .rtr ∈ (c.party .connector).reached ∨ .rts ∈ (c.party .connector).reached) :
    .rts ∈ (c.party .acceptor).reached := by
  obtain ⟨-, -, hrs, -, -, hrecv, -⟩ := program_order .connector
  have hread : Did .connector .recv (c.party .connector) := by
    unfold Did
    rcases h with h | h
    · exact hrecv.trans ((hi.party .connector).reachedRtr.mp h)
    · exact (hrecv.trans hrs).trans ((hi.party .connector).reachedRts.mp h)
  obtain ⟨hsent, -⟩ := hi.remote_eq hread
  refine (hi.party .acceptor).reachedRts.mpr ?_
  unfold Did
  exact acceptor_order.trans hsent

/-! ## 4. The identity of the QPs -/

/-- A party's QP is the one it was, or none as before. -/
structure Kept (x : Side) (p q : Party) : Prop where
  did : Did x .create q ↔ Did x .create p
  sqPsn : q.qp.sqPsn = p.qp.sqPsn
  qpNum : q.qpNum = p.qpNum
  alive : q.alive = true → p.alive = true

theorem kept_refl (x : Side) (p : Party) : Kept x p p := ⟨Iff.rfl, rfl, rfl, id⟩

theorem Ran.kept {host : Host π} {psn : UInt32} {out : Outcome} {x : Side} {p : Party}
    {incoming outgoing : Channel} {op : Op} {r : Party × Channel × Channel}
    (h : Ran host psn out p incoming outgoing op r) (hpc : p.pc = pos x op)
    (hc : ¬ (op = .create ∧ out.created ≠ none)) : Kept x p r.1 := by
  cases h with
  | refused o hpsn _ => exact ⟨Iff.rfl, hpsn, rfl, id⟩
  | created k hop hk => exact absurd ⟨hop, by rw [hk]; exact Option.some_ne_none k⟩ hc
  | granted k attr mask hqp hprog =>
    refine ⟨did_other hpc rfl ?_, rfl, rfl, id⟩
    rintro rfl
    cases hprog
  | serialized hop => exact ⟨did_other hpc rfl (hop ▸ by decide), rfl, rfl, id⟩
  | wrote hop =>
    subst hop
    exact ⟨did_wrote hpc (by decide), rfl, rfl, id⟩
  | received d rest hop hd => exact ⟨did_other hpc rfl (hop ▸ by decide), rfl, rfl, id⟩
  | stored d hop hd => exact ⟨did_other hpc rfl (hop ▸ by decide), rfl, rfl, id⟩

/-- A step that creates no QP for the party keeps the one it has. -/
theorem kept_of_step (hi : ConnInv host c) {a : ConnAction}
    (h : c.step strerror host psn a = some c') {y : Side} (hc : c.creates a ≠ some y) :
    Kept y (c.party y) (c'.party y) := by
  have update : ∀ {x : Side} {q : Party}, (y = x → Kept x (c.party x) q) →
      Kept y (c.party y) (Function.update c.party x q y) := by
    intro x q hq
    by_cases hy : y = x
    · subst hy
      rw [Function.update_self]
      exact hq rfl
    · rw [Function.update_of_ne hy]
      exact kept_refl y _
  cases connMoves_of_step hi h with
  | exec x out op r hrun hop hran =>
    refine update fun hy => hran.kept (pos_of_program hop) fun hcr => hc ?_
    rw [hy]
    exact if_pos ⟨hop.trans (congrArg some hcr.1), hcr.2⟩
  | deliver x n => exact kept_refl y _
  | abort x _ _ => exact update fun _ => ⟨Iff.rfl, rfl, rfl, id⟩
  | release x out k hk _ _ => exact update fun _ => ⟨Iff.rfl, rfl, rfl, fun ha => by cases ha⟩

/-- A step that creates a QP for the party. -/
theorem born_of_step (hi : ConnInv host c) {a : ConnAction}
    (h : c.step strerror host psn a = some c') {x : Side} (hc : c.creates a = some x) :
    ∃ out, a = .exec x out ∧ ¬ Did x .create (c.party x) ∧ Did x .create (c'.party x) ∧
      (c'.party x).qp.sqPsn = psn x ∧ (c'.party x).qpNum = out.qpNum := by
  cases connMoves_of_step hi h with
  | exec y out op r hrun hop hran =>
    unfold Conn.creates at hc
    dsimp only at hc
    split at hc
    next hcr =>
      cases hc
      have hopc : op = .create := Option.some.inj (hop.symm.trans hcr.1)
      subst hopc
      have hpc := pos_of_program hop
      have hnew : ¬ Did x .create (c.party x) := not_did_here hpc
      refine ⟨out, rfl, hnew, ?_⟩
      dsimp only
      rw [Function.update_self]
      cases hran with
      | refused o _ hno => exact absurd (hno rfl) hcr.2
      | created k _ _ => exact ⟨(did_succ hpc rfl).mpr (Or.inr rfl), rfl, rfl⟩
      | granted k attr mask _ hprog => cases hprog
      | serialized hne => cases hne
      | wrote hne => cases hne
      | received d rest hne _ => cases hne
      | stored d hne _ => cases hne
    next => cases hc
  | deliver x n => cases hc
  | abort x _ _ => cases hc
  | release x out k hk _ _ => cases hc

end Conn

end Handshake
end Rdmapp
