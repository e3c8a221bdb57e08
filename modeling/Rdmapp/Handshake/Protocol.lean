/-
  File:      Rdmapp/Handshake/Protocol.lean
  Subject:   THE CONNECTION HANDSHAKE: connector and acceptor over one socket.

  `from_socket` and `accept` with `send_qp` and `recv_qp`, as programs of the same operations in
  their two orders. An operation runs the function of `qp.cc` it stands for on the party's own QP
  object; descriptions cross the socket byte by byte. A party can fail at any operation: verbs
  refuses it, or the socket does.

  `ConnInv` holds of one handshake along every run: what a party has programmed into its QP, and
  what the bytes on their way still say about the QP they describe.
-/
import Rdmapp.Lib.Transition
import Rdmapp.Qp
import Rdmapp.QpFormat

namespace Rdmapp
namespace Handshake

open Lib

/-! ## 1. Parties and their programs -/

inductive Side where
  | connector
  | acceptor
  deriving DecidableEq, Repr

def Side.other : Side → Side
  | .connector => .acceptor
  | .acceptor => .connector

/-- Where a party runs. -/
structure Host (π : Type*) where
  process : π
  device : Device
  order : ByteOrder

/-- One direction of the socket. -/
structure Channel where
  /-- Received, not yet read. -/
  arrived : List UInt8
  inFlight : List UInt8

/-- The next `n` bytes arrive. -/
def Channel.deliver (ch : Channel) (n : Nat) : Channel :=
  ⟨ch.arrived ++ ch.inFlight.take n, ch.inFlight.drop n⟩

/-- What a party does, one operation after the other. -/
inductive Op where
  | create
  | init
  | rtr
  | rts
  /-- `send_qp`: `qp.serialize()`. -/
  | serialize
  /-- `send_qp`: `async_write`. -/
  | write
  /-- `recv_qp`. -/
  | recv
  /-- `user_data() = std::move(remote_qp.user_data)`. -/
  | userData
  deriving DecidableEq, Repr

/-- `from_socket` of the connector and `accept` of the acceptor. The constructor stands as the
    calls it makes: `create` and `init`, and `rtr` and `rts` when it is given the remote QP. -/
def program : Side → List Op
  | .connector => [.create, .init, .serialize, .write, .recv, .rtr, .userData, .rts]
  | .acceptor => [.recv, .create, .init, .rtr, .rts, .userData, .serialize, .write]

/-- A party: how far it is, its QP object, and what it has of the peer's. -/
structure Party where
  pc : Nat
  failed : Bool
  qp : QpObject
  /-- `qp_->qp_num`. -/
  qpNum : UInt32
  userData : List UInt8
  remote : Option DeserializedQp
  /-- What `async_write` has not written yet. -/
  pending : List UInt8
  /-- The states verbs has moved the QP to. -/
  reached : List IbvQpState
  /-- Verbs has the QP. -/
  alive : Bool

def Party.start : Party := ⟨0, false, QpObject.blank, 0, [], none, [], [], false⟩

/-- What the environment decides in one operation. -/
structure Outcome where
  /-- What `ibv_create_qp` returns, and the number of the new QP. -/
  created : Option QpHandle
  qpNum : UInt32
  errno : Int
  /-- What `ibv_modify_qp` returns. -/
  rc : Int
  /-- How much of the buffer the socket takes. -/
  nbytes : Nat

def Outcome.env (out : Outcome) (psn : UInt32) : VerbsEnv :=
  ⟨out.created, out.errno, fun _ => out.rc, psn⟩

/-- What `serialize` reads of a party's QP. -/
def Party.endpoint {π : Type*} (host : Host π) (p : Party) : QpEndpoint :=
  ⟨host.device.lid, p.qpNum, p.qp.sqPsn, host.device.gid, p.userData⟩

/-- The arguments of `rtr`, out of the received header. -/
def remoteOf (d : DeserializedQp) : RemoteQp :=
  ⟨d.header.lid, d.header.qpNum, d.header.sqPsn, d.header.gid⟩

/-! ## 2. One operation -/

def Party.next (p : Party) : Party := { p with pc := p.pc + 1 }

/-- After `init`, `rtr` or `rts`: an exception ends the handshake. -/
def Party.transitioned (p : Party) (state : IbvQpState) : Except Stop Unit × QpObject → Party
  | (.ok (), o) => { p.next with qp := o, reached := p.reached ++ [state] }
  | (.error _, o) => { p with qp := o, failed := true }

section Exec

variable {π : Type*} (strerror : Int → String) (host : Host π) (psn : UInt32)

/-- One operation of a party: the party after it, and the two directions of the socket, the
    incoming one first. None when the socket has too little to read yet. -/
def Party.exec (out : Outcome) (p : Party) (incoming outgoing : Channel) :
    Op → Option (Party × Channel × Channel)
  | .create =>
    match Rdmapp.create strerror (out.env psn) p.qp with
    | (.ok (), o) =>
      some ({ p.next with qp := o, qpNum := out.qpNum, alive := true }, incoming, outgoing)
    | (.error _, o) => some ({ p with qp := o, failed := true }, incoming, outgoing)
  | .init =>
    some (p.transitioned .init (Rdmapp.init strerror (out.env psn) host.device p.qp),
      incoming, outgoing)
  | .rtr => do
    let d ← p.remote
    some (p.transitioned .rtr (Rdmapp.rtr strerror (out.env psn) host.device (remoteOf d) p.qp),
      incoming, outgoing)
  | .rts => some (p.transitioned .rts (Rdmapp.rts strerror (out.env psn) p.qp), incoming, outgoing)
  | .serialize =>
    some ({ p.next with pending := (p.endpoint host).serialize host.order }, incoming, outgoing)
  | .write =>
    let rest := p.pending.drop out.nbytes
    some ({ p with pending := rest, pc := if rest = [] then p.pc + 1 else p.pc }, incoming,
      { outgoing with inFlight := outgoing.inFlight ++ p.pending.take out.nbytes })
  | .recv => do
    let (d, rest) ← recvQp host.order incoming.arrived
    some ({ p.next with remote := some d }, { incoming with arrived := rest }, outgoing)
  | .userData => do
    let d ← p.remote
    some ({ p.next with userData := d.userData }, incoming, outgoing)

end Exec

/-! ## 3. One handshake -/

/-- Two parties and the socket; `chan x` carries what `x` writes. -/
structure Conn where
  party : Side → Party
  chan : Side → Channel

def Conn.start : Conn := ⟨fun _ => Party.start, fun _ => ⟨[], []⟩⟩

inductive ConnAction where
  /-- The party's next operation. -/
  | exec (x : Side) (out : Outcome)
  /-- `n` bytes written by the party arrive. -/
  | deliver (x : Side) (n : Nat)
  /-- The party's handshake fails, outside verbs. -/
  | abort (x : Side)
  /-- The party's QP object is destroyed, after the handshake. -/
  | release (x : Side) (out : Outcome)

/-- The party has its QP to return. -/
def Conn.Returned (c : Conn) (x : Side) : Prop :=
  (c.party x).failed = false ∧ (c.party x).pc = (program x).length

instance (c : Conn) (x : Side) : Decidable (c.Returned x) :=
  inferInstanceAs (Decidable (_ ∧ _))

def Conn.setParty (c : Conn) (x : Side) (p : Party) : Conn :=
  { c with party := Function.update c.party x p }

section Step

variable {π : Type*} (strerror : Int → String) (host : Side → Host π) (psn : Side → UInt32)

def Conn.step (c : Conn) : ConnAction → Option Conn
  | .exec x out =>
    if (c.party x).failed then none
    else do
      let op ← (program x)[(c.party x).pc]?
      let (p, incoming, outgoing) ← (c.party x).exec strerror (host x) (psn x) out
        (c.chan x.other) (c.chan x) op
      some
        { party := Function.update c.party x p
          chan := Function.update (Function.update c.chan x.other incoming) x outgoing }
  | .deliver x n => some { c with chan := Function.update c.chan x ((c.chan x).deliver n) }
  | .abort x =>
    if (c.party x).failed ∨ c.Returned x then none
    else some (c.setParty x { c.party x with failed := true })
  | .release x out =>
    if ((c.party x).failed ∨ c.Returned x) ∧ (c.party x).alive ∧ (c.party x).qp.qp ≠ none then
      some (c.setParty x
        { c.party x with
          qp := (destructor (out.env 0) (c.party x).qp).2
          alive := false })
    else none

/-- The action creates a QP for the party. -/
def Conn.creates (c : Conn) : ConnAction → Option Side
  | .exec x out =>
    if (program x)[(c.party x).pc]? = some .create ∧ out.created ≠ none then some x else none
  | _ => none

end Step

/-! ## 4. The order of the operations -/

/-- The operation's place in the program. -/
def pos (x : Side) (op : Op) : Nat := (program x).idxOf op

/-- The party has done the operation. -/
def Did (x : Side) (op : Op) (p : Party) : Prop := pos x op < p.pc

theorem program_nodup (x : Side) : (program x).Nodup := by
  cases x with
  | connector => decide
  | acceptor => decide

theorem mem_program (x : Side) (op : Op) : op ∈ program x := by
  cases x with
  | connector => cases op <;> decide
  | acceptor => cases op <;> decide

theorem pos_of_program {x : Side} {n : Nat} {op : Op} (h : (program x)[n]? = some op) :
    n = pos x op := by
  obtain ⟨hn, rfl⟩ := List.getElem?_eq_some_iff.mp h
  exact ((program_nodup x).idxOf_getElem n hn).symm

theorem pos_lt_length (x : Side) (op : Op) : pos x op < (program x).length :=
  List.idxOf_lt_length_iff.mpr (mem_program x op)

theorem pos_injective {x : Side} {op op' : Op} (h : pos x op = pos x op') : op = op' :=
  (List.idxOf_inj (mem_program x op)).mp h

/-- The orders everything below rests on. -/
theorem program_order (x : Side) :
    pos x .create < pos x .init ∧ pos x .init < pos x .rtr ∧ pos x .rtr < pos x .rts ∧
      pos x .create < pos x .serialize ∧ pos x .serialize < pos x .write ∧
      pos x .recv < pos x .rtr ∧ pos x .recv < pos x .userData := by
  cases x with
  | connector => decide
  | acceptor => decide

/-- The acceptor describes its QP when it is ready to send. -/
theorem acceptor_order : pos .acceptor .rts < pos .acceptor .serialize := by decide

/-- One operation further. -/
theorem did_succ {x : Side} {op op' : Op} {p q : Party} (hp : p.pc = pos x op)
    (hq : q.pc = p.pc + 1) : Did x op' q ↔ Did x op' p ∨ op' = op := by
  unfold Did
  constructor
  · intro h
    rcases Nat.lt_or_eq_of_le (Nat.le_of_lt_succ (hq ▸ h)) with h | h
    · exact Or.inl h
    · exact Or.inr (pos_injective (h.trans hp))
  · rintro (h | rfl)
    · omega
    · omega

theorem did_other {x : Side} {op op' : Op} {p q : Party} (hp : p.pc = pos x op)
    (hq : q.pc = p.pc + 1) (hne : op' ≠ op) : Did x op' q ↔ Did x op' p :=
  (did_succ hp hq).trans (or_iff_left hne)

theorem not_did_here {x : Side} {op : Op} {p : Party} (hp : p.pc = pos x op) : ¬ Did x op p := by
  unfold Did
  omega

/-- `async_write` is the operation in progress until nothing is left to write. -/
theorem did_wrote {x : Side} {op : Op} {p : Party} {rest : List UInt8}
    (hp : p.pc = pos x .write) (hne : op ≠ .write) :
    Did x op { p with pending := rest, pc := if rest = [] then p.pc + 1 else p.pc } ↔
      Did x op p := by
  by_cases hrest : rest = []
  · exact did_other hp (if_pos hrest) hne
  · unfold Did
    rw [if_neg hrest]

/-! ## 5. What a party has programmed -/

/-- The calls that ask verbs for a state, with their masks. -/
def modifications (state : IbvQpState) (calls : List VerbsCall) :
    List (IbvQpAttr × List IbvQpAttrMask) :=
  calls.filterMap fun
    | .modifyQp _ attr mask => if attr.qpState = state then some (attr, mask) else none
    | _ => none

theorem modifications_append (state : IbvQpState) (calls calls' : List VerbsCall) :
    modifications state (calls ++ calls') =
      modifications state calls ++ modifications state calls' :=
  List.filterMap_append

theorem modifications_modify (state : IbvQpState) (calls : List VerbsCall) (h : QpHandle)
    (attr : IbvQpAttr) (mask : List IbvQpAttrMask) :
    modifications state (calls ++ [.modifyQp h attr mask]) =
      if attr.qpState = state then modifications state calls ++ [(attr, mask)]
      else modifications state calls := by
  rw [modifications_append]
  unfold modifications
  by_cases hs : attr.qpState = state
  · rw [if_pos hs]
    simp [hs]
  · rw [if_neg hs]
    simp [hs]

/-- **A party's part of the handshake**: its QP object follows its place in the program, up to a
    failure. -/
structure PartyInv {π : Type*} (host : Host π) (x : Side) (p : Party) : Prop where
  userData : p.userData = []
  remoteData : ∀ d, p.remote = some d → d.userData = []
  blank : p.failed = false → ¬ Did x .create p → p.qp = QpObject.blank
  handle : p.failed = false → Did x .create p → ∃ h, p.qp.qp = some h
  alive : p.alive = true → Did x .create p
  noRtr : p.failed = false → ¬ Did x .rtr p → modifications .rtr p.qp.calls = []
  rtr : p.failed = false → Did x .rtr p → ∃ d, p.remote = some d ∧
    modifications .rtr p.qp.calls = [(rtrAttr host.device (remoteOf d), rtrMask)]
  noRts : p.failed = false → ¬ Did x .rts p → modifications .rts p.qp.calls = []
  rts : p.failed = false → Did x .rts p →
    modifications .rts p.qp.calls = [(rtsAttr p.qp.sqPsn, rtsMask)]
  reachedRtr : .rtr ∈ p.reached ↔ Did x .rtr p
  reachedRts : .rts ∈ p.reached ↔ Did x .rts p

section PartyInv

variable {π : Type*} {host : Host π} {x : Side} {p q : Party}

theorem partyInv_start : PartyInv host x Party.start := by
  have h : ∀ op, ¬ Did x op Party.start := fun op => Nat.not_lt_zero _
  exact
    { userData := rfl
      remoteData := fun d hd => by cases hd
      blank := fun _ _ => rfl
      handle := fun _ hd => absurd hd (h _)
      alive := fun ha => by cases ha
      noRtr := fun _ _ => rfl
      rtr := fun _ hd => absurd hd (h _)
      noRts := fun _ _ => rfl
      rts := fun _ hd => absurd hd (h _)
      reachedRtr := iff_of_false (fun hr => by cases hr) (h _)
      reachedRts := iff_of_false (fun hr => by cases hr) (h _) }

/-- A failure leaves what verbs granted. -/
theorem PartyInv.fail (hi : PartyInv host x p) (o : QpObject) :
    PartyInv host x { p with qp := o, failed := true } where
  userData := hi.userData
  remoteData := hi.remoteData
  blank := fun hf => Bool.noConfusion hf
  handle := fun hf => Bool.noConfusion hf
  alive := hi.alive
  noRtr := fun hf => Bool.noConfusion hf
  rtr := fun hf => Bool.noConfusion hf
  noRts := fun hf => Bool.noConfusion hf
  rts := fun hf => Bool.noConfusion hf
  reachedRtr := hi.reachedRtr
  reachedRts := hi.reachedRts

/-- An operation that does not touch the QP object. -/
theorem PartyInv.frame (hi : PartyInv host x p) (op₀ : Op) (hop : op₀ ∉ [.create, .rtr, .rts])
    (hdid : ∀ op, op ≠ op₀ → (Did x op q ↔ Did x op p)) (hqp : q.qp = p.qp)
    (hfailed : q.failed = p.failed) (halive : q.alive = p.alive)
    (hreached : q.reached = p.reached) (huser : q.userData = [])
    (hdata : ∀ d, q.remote = some d → d.userData = [])
    (hremote : Did x .rtr p → q.remote = p.remote) : PartyInv host x q := by
  have hcreate := hdid .create (fun h => hop (h ▸ by decide))
  have hrtr := hdid .rtr (fun h => hop (h ▸ by decide))
  have hrts := hdid .rts (fun h => hop (h ▸ by decide))
  refine ⟨huser, hdata, ?_, ?_, ?_, ?_, ?_, ?_, ?_, ?_, ?_⟩
  · rw [hfailed, hcreate, hqp]
    exact hi.blank
  · rw [hfailed, hcreate, hqp]
    exact hi.handle
  · rw [halive, hcreate]
    exact hi.alive
  · rw [hfailed, hrtr, hqp]
    exact hi.noRtr
  · rw [hfailed, hrtr, hqp]
    intro hf hd
    rw [hremote hd]
    exact hi.rtr hf hd
  · rw [hfailed, hrts, hqp]
    exact hi.noRts
  · rw [hfailed, hrts, hqp]
    exact hi.rts
  · rw [hreached, hrtr]
    exact hi.reachedRtr
  · rw [hreached, hrts]
    exact hi.reachedRts

/-- The destructor's calls are none of the handshake's. -/
theorem modifications_destroy {state : IbvQpState} (hs : state ≠ .err) (calls : List VerbsCall)
    (h : QpHandle) :
    modifications state (calls ++ [.modifyQp h errAttr [.state]] ++ [.destroyQp h]) =
      modifications state calls := by
  rw [modifications_append, modifications_modify, if_neg fun he => hs he.symm]
  exact List.append_nil _

theorem PartyInv.release (hi : PartyInv host x p) {h : QpHandle} (hqp : p.qp.qp = some h) :
    PartyInv host x
      { p with
        qp := { p.qp with
          calls := p.qp.calls ++ [.modifyQp h errAttr [.state]] ++ [.destroyQp h] }
        alive := false } := by
  have hrtr : modifications .rtr _ = modifications .rtr p.qp.calls :=
    modifications_destroy (by decide) p.qp.calls h
  have hrts : modifications .rts _ = modifications .rts p.qp.calls :=
    modifications_destroy (by decide) p.qp.calls h
  refine ⟨hi.userData, hi.remoteData, ?_, fun _ _ => ⟨h, hqp⟩, ?_,
    fun hf hd => hrtr.trans (hi.noRtr hf hd), ?_,
    fun hf hd => hrts.trans (hi.noRts hf hd), fun hf hd => hrts.trans (hi.rts hf hd),
    hi.reachedRtr, hi.reachedRts⟩
  · -- there is a handle, so the object is not blank
    intro hf hd
    have hb : p.qp = QpObject.blank := hi.blank hf hd
    rw [hb] at hqp
    cases hqp
  · intro ha
    cases ha
  · intro hf hd
    obtain ⟨d, hd, hm⟩ := hi.rtr hf hd
    exact ⟨d, hd, hrtr.trans hm⟩

end PartyInv

/-! ## 6. What an operation does -/

/-- The state an operation asks verbs for. -/
def stateOf : Op → IbvQpState
  | .rtr => .rtr
  | .rts => .rts
  | _ => .init

theorem stateOf_eq_rtr {op : Op} : stateOf op = .rtr ↔ op = .rtr := by
  cases op <;> decide

theorem stateOf_eq_rts {op : Op} : stateOf op = .rts ↔ op = .rts := by
  cases op <;> decide

/-- The modification an operation makes of a party's QP. -/
inductive Programs {π : Type*} (host : Host π) (p : Party) :
    Op → IbvQpAttr → List IbvQpAttrMask → Prop
  | init : Programs host p .init (initAttr host.device) initMask
  | rtr (d : DeserializedQp) (remote : p.remote = some d) :
      Programs host p .rtr (rtrAttr host.device (remoteOf d)) rtrMask
  | rts : Programs host p .rts (rtsAttr p.qp.sqPsn) rtsMask

/-- It enters the log of its own state alone. -/
theorem Programs.modifications {π : Type*} {host : Host π} {p : Party} {op op' : Op}
    {attr : IbvQpAttr} {mask : List IbvQpAttrMask} (hp : Programs host p op attr mask)
    (hop : op' = .rtr ∨ op' = .rts) (calls : List VerbsCall) (h : QpHandle) :
    modifications (stateOf op') (calls ++ [.modifyQp h attr mask]) =
      if op = op' then Handshake.modifications (stateOf op') calls ++ [(attr, mask)]
      else Handshake.modifications (stateOf op') calls := by
  rw [modifications_modify]
  cases hp with
  | init => rcases hop with rfl | rfl <;> rfl
  | rtr => rcases hop with rfl | rfl <;> rfl
  | rts => rcases hop with rfl | rfl <;> rfl

/-- **The outcomes of one operation.** -/
inductive Ran {π : Type*} (host : Host π) (psn : UInt32) (out : Outcome) (p : Party)
    (incoming outgoing : Channel) (op : Op) : Party × Channel × Channel → Prop
  /-- Verbs refuses. -/
  | refused (o : QpObject) (sqPsn : o.sqPsn = p.qp.sqPsn)
      (noQp : op = .create → out.created = none) :
      Ran host psn out p incoming outgoing op
        ({ p with qp := o, failed := true }, incoming, outgoing)
  | created (h : QpHandle) (isCreate : op = .create) (taken : out.created = some h) :
      Ran host psn out p incoming outgoing op
        ({ p.next with
            qp := ⟨some h, psn, [.createQp (some h)]⟩
            qpNum := out.qpNum
            alive := true }, incoming, outgoing)
  | granted (h : QpHandle) (attr : IbvQpAttr) (mask : List IbvQpAttrMask) (qp : p.qp.qp = some h)
      (programs : Programs host p op attr mask) :
      Ran host psn out p incoming outgoing op
        ({ p.next with
            qp := { p.qp with calls := p.qp.calls ++ [.modifyQp h attr mask] }
            reached := p.reached ++ [stateOf op] }, incoming, outgoing)
  | serialized (isSerialize : op = .serialize) :
      Ran host psn out p incoming outgoing op
        ({ p.next with pending := (p.endpoint host).serialize host.order }, incoming, outgoing)
  | wrote (isWrite : op = .write) :
      Ran host psn out p incoming outgoing op
        ({ p with
            pending := p.pending.drop out.nbytes
            pc := if p.pending.drop out.nbytes = [] then p.pc + 1 else p.pc }, incoming,
          { outgoing with inFlight := outgoing.inFlight ++ p.pending.take out.nbytes })
  | received (d : DeserializedQp) (rest : List UInt8) (isRecv : op = .recv)
      (read : recvQp host.order incoming.arrived = some (d, rest)) :
      Ran host psn out p incoming outgoing op
        ({ p.next with remote := some d }, { incoming with arrived := rest }, outgoing)
  | stored (d : DeserializedQp) (isUserData : op = .userData) (remote : p.remote = some d) :
      Ran host psn out p incoming outgoing op
        ({ p.next with userData := d.userData }, incoming, outgoing)

section Ran

variable {π : Type*} {strerror : Int → String} {host : Host π} {psn : UInt32} {out : Outcome}
  {x : Side} {p : Party} {incoming outgoing : Channel} {op : Op}
  {r : Party × Channel × Channel}

/-- A transition of the party's QP, granted or refused. -/
theorem ran_transition {h : QpHandle} {attr : IbvQpAttr} {mask : List IbvQpAttrMask}
    (message : String) (hqp : p.qp.qp = some h) (hprog : Programs host p op attr mask) :
    Ran host psn out p incoming outgoing op
      (p.transitioned (stateOf op) (transition strerror (out.env psn) attr mask message p.qp),
        incoming, outgoing) := by
  have hne : op ≠ .create := by
    rintro rfl
    cases hprog
  by_cases hr : (out.env psn).rc p.qp.calls.length = 0
  · rw [transition_ok hqp hr attr mask message]
    exact .granted h attr mask hqp hprog
  · obtain ⟨e, he⟩ := transition_refused strerror hqp hr attr mask message
    rw [he]
    exact .refused { p.qp with qp := none, calls := p.qp.calls ++ [.modifyQp h attr mask] } rfl
      fun hc => absurd hc hne

/-- **Every operation of a party that keeps its invariant has one of these outcomes.** -/
theorem ran_of_exec (hi : PartyInv host x p) (hf : p.failed = false) (hpc : p.pc = pos x op)
    (h : p.exec strerror host psn out incoming outgoing op = some r) :
    Ran host psn out p incoming outgoing op r := by
  obtain ⟨hci, hir, hrs, -, -, -, -⟩ := program_order x
  have handle : pos x .create < p.pc → ∃ h, p.qp.qp = some h := hi.handle hf
  cases op with
  | create =>
    have hb : p.qp = QpObject.blank := hi.blank hf (not_did_here hpc)
    unfold Party.exec at h
    rw [hb] at h
    cases hcr : (out.env psn).created with
    | none =>
      obtain ⟨e, he⟩ := create_none strerror hcr
      simp only [he, Option.some.injEq] at h
      subst h
      exact .refused _ (by rw [hb]) fun _ => hcr
    | some k =>
      simp only [create_some strerror hcr, Option.some.injEq] at h
      subst h
      exact .created k rfl hcr
  | init =>
    obtain ⟨k, hk⟩ := handle (by omega)
    cases h
    exact ran_transition _ hk .init
  | rtr =>
    obtain ⟨k, hk⟩ := handle (by omega)
    obtain ⟨d, hd, h⟩ := Option.bind_eq_some_iff.mp h
    cases h
    exact ran_transition _ hk (.rtr d hd)
  | rts =>
    obtain ⟨k, hk⟩ := handle (by omega)
    cases h
    exact ran_transition _ hk .rts
  | serialize =>
    cases h
    exact .serialized rfl
  | write =>
    cases h
    exact .wrote rfl
  | recv =>
    obtain ⟨⟨d, rest⟩, hd, h⟩ := Option.bind_eq_some_iff.mp h
    cases h
    exact .received d rest rfl hd
  | userData =>
    obtain ⟨d, hd, h⟩ := Option.bind_eq_some_iff.mp h
    cases h
    exact .stored d rfl hd

/-- A granted transition enters its attributes in the log of its own state. -/
theorem PartyInv.granted (hi : PartyInv host x p) (hf : p.failed = false) (hpc : p.pc = pos x op)
    {h : QpHandle} {attr : IbvQpAttr} {mask : List IbvQpAttrMask} (hqp : p.qp.qp = some h)
    (hprog : Programs host p op attr mask) :
    PartyInv host x
      { p.next with
        qp := { p.qp with calls := p.qp.calls ++ [.modifyQp h attr mask] }
        reached := p.reached ++ [stateOf op] } := by
  obtain ⟨hci, hir, hrs, -, -, -, -⟩ := program_order x
  have hdid : ∀ op', Did x op' { p.next with
        qp := { p.qp with calls := p.qp.calls ++ [.modifyQp h attr mask] }
        reached := p.reached ++ [stateOf op] } ↔ Did x op' p ∨ op' = op :=
    fun op' => did_succ hpc rfl
  have hnew : ¬ Did x op p := not_did_here hpc
  have hcreate : Did x .create p := by
    unfold Did
    rw [hpc]
    cases hprog with
    | init => exact hci
    | rtr => omega
    | rts => omega
  have hlogRtr := hprog.modifications (Or.inl rfl) p.qp.calls h
  have hlogRts := hprog.modifications (Or.inr rfl) p.qp.calls h
  refine ⟨hi.userData, hi.remoteData, ?_, fun _ _ => ⟨h, hqp⟩, ?_, ?_, ?_, ?_, ?_, ?_, ?_⟩
  · intro _ hd
    exact absurd ((hdid .create).mpr (Or.inl hcreate)) hd
  · intro _
    exact (hdid .create).mpr (Or.inl hcreate)
  · intro _ hd
    rw [hdid, not_or] at hd
    rw [if_neg fun hop => hd.2 hop.symm] at hlogRtr
    exact hlogRtr.trans (hi.noRtr hf hd.1)
  · intro _ hd
    by_cases hop : op = .rtr
    · subst hop
      cases hprog with
      | rtr d hremote =>
        rw [if_pos rfl, show modifications (stateOf .rtr) _ = [] from hi.noRtr hf hnew] at hlogRtr
        exact ⟨d, hremote, hlogRtr⟩
    · obtain ⟨d, hremote, hlog⟩ := hi.rtr hf (((hdid .rtr).mp hd).resolve_right fun h => hop h.symm)
      rw [if_neg hop] at hlogRtr
      exact ⟨d, hremote, hlogRtr.trans hlog⟩
  · intro _ hd
    rw [hdid, not_or] at hd
    rw [if_neg fun hop => hd.2 hop.symm] at hlogRts
    exact hlogRts.trans (hi.noRts hf hd.1)
  · intro _ hd
    by_cases hop : op = .rts
    · subst hop
      cases hprog with
      | rts =>
        rw [if_pos rfl, show modifications (stateOf .rts) _ = [] from hi.noRts hf hnew] at hlogRts
        exact hlogRts
    · have hlog := hi.rts hf (((hdid .rts).mp hd).resolve_right fun h => hop h.symm)
      rw [if_neg hop] at hlogRts
      exact hlogRts.trans hlog
  · rw [hdid, List.mem_append, List.mem_singleton, hi.reachedRtr]
    exact or_congr_right (eq_comm.trans (stateOf_eq_rtr.trans eq_comm))
  · rw [hdid, List.mem_append, List.mem_singleton, hi.reachedRts]
    exact or_congr_right (eq_comm.trans (stateOf_eq_rts.trans eq_comm))

/-- The step lemma of a party's invariant; what it reads carries no user data. -/
theorem PartyInv.ran (hi : PartyInv host x p) (hf : p.failed = false) (hpc : p.pc = pos x op)
    (hread : ∀ d rest, op = .recv → recvQp host.order incoming.arrived = some (d, rest) →
      d.userData = [])
    (h : Ran host psn out p incoming outgoing op r) : PartyInv host x r.1 := by
  obtain ⟨hci, hir, hrs, hcs, hsw, hrecv, hru⟩ := program_order x
  cases h with
  | refused o _ _ => exact hi.fail o
  | created k hop hk =>
    subst hop
    have hdid : ∀ op, Did x op { p.next with
        qp := ⟨some k, psn, [.createQp (some k)]⟩, qpNum := out.qpNum, alive := true } ↔
          Did x op p ∨ op = .create := fun op => did_succ hpc rfl
    have hold : ∀ op, pos x .create < pos x op → ¬ Did x op p := by
      intro op' hop'
      unfold Did
      omega
    refine ⟨hi.userData, hi.remoteData, ?_, fun _ _ => ⟨k, rfl⟩, ?_,
      fun _ _ => rfl, ?_, fun _ _ => rfl, ?_, ?_, ?_⟩
    · intro _ hd
      exact absurd ((hdid .create).mpr (Or.inr rfl)) hd
    · intro _
      exact (hdid .create).mpr (Or.inr rfl)
    · intro _ hd
      rcases (hdid .rtr).mp hd with hd | hd
      · exact absurd hd (hold .rtr (hci.trans hir))
      · cases hd
    · intro _ hd
      rcases (hdid .rts).mp hd with hd | hd
      · exact absurd hd (hold .rts (hci.trans (hir.trans hrs)))
      · cases hd
    · rw [hdid, or_iff_left (fun hc => by cases hc)]
      exact hi.reachedRtr
    · rw [hdid, or_iff_left (fun hc => by cases hc)]
      exact hi.reachedRts
  | granted k attr mask hqp hprog => exact hi.granted hf hpc hqp hprog
  | serialized hop =>
    subst hop
    exact hi.frame .serialize (by decide) (fun op => did_other hpc rfl) rfl rfl rfl rfl
      hi.userData hi.remoteData fun _ => rfl
  | wrote hop =>
    subst hop
    exact hi.frame .write (by decide) (fun op => did_wrote hpc) rfl rfl rfl rfl hi.userData
      hi.remoteData fun _ => rfl
  | received d rest hop hd =>
    subst hop
    have hnew : ¬ Did x .rtr p := by
      unfold Did
      omega
    refine hi.frame .recv (by decide) (fun op => did_other hpc rfl) rfl rfl rfl rfl hi.userData
      (fun d' hd' => ?_) fun hrtr => absurd hrtr hnew
    cases hd'
    exact hread d rest rfl hd
  | stored d hop hd =>
    subst hop
    exact hi.frame .userData (by decide) (fun op => did_other hpc rfl) rfl rfl rfl rfl
      (hi.remoteData d hd) hi.remoteData fun _ => rfl

end Ran

end Handshake
end Rdmapp
