/-
  File:      Rdmapp/Asio/Regions.lean
  Subject:   THE TEMPORARY REGION of a span-based operation awaited through the asio token.

  The constructor of the awaitable registers the span; `local_mr_` owns the region. The conversion
  to `asio::awaitable` moves the awaitable to the heap, and from then on it is shared: by the
  implementation of the composed operation, which lies in the `asio::awaitable` and then behind
  `self_ptr`, by the initiating function, by the callback, and by the handler in the cancellation
  slot. The last of them to go takes the region along.

  They go in any order, after the completion, after a refused post, after a cancellation. The
  region is there while the work request is (`RegionInv.registered`), since the callback is; and
  when all is over it was deregistered once (`RegionInv.deregistered`).
-/
import Rdmapp.Asio.Cancellation
import Rdmapp.LocalMrMoves

namespace Rdmapp.Asio

open Lib

/-! ## 1. The holders of an awaitable -/

/-- Where the awaitable is until the composed operation is initiated. -/
inductive Origin where
  | absent
  /-- The `send_awaitable` or `recv_awaitable` that the call made. -/
  | temporary
  /-- In the conversion: `awaitable_ptr` and the implementation hold it. -/
  | converting
  /-- The `asio::awaitable` is not awaited yet. -/
  | lazy
  | initiated
  /-- The `asio::awaitable` is destroyed, never awaited. -/
  | discarded
  deriving DecidableEq, Repr

structure RegionState where
  op : OpState
  origin : Origin
  /-- The use count of `awaitable_ptr`. -/
  uses : Nat
  /-- The implementation of the composed operation exists. -/
  implementation : Bool
  /-- The handler in the cancellation slot exists. -/
  handler : Bool
  /-- The `local_mr`s: `0` is the value of `reg_mr`, `1` the object behind `local_mr_`. -/
  mrs : LocalMrMoves.State

/-- `std::make_unique<local_mr>(pd->reg_mr(…))`. -/
def registered (pd : Nat) : LocalMrMoves.State :=
  LocalMrMoves.next (LocalMrMoves.next (LocalMrMoves.next LocalMrMoves.init (.regMr 0 pd true))
    (.moveConstruct 0 1)) (.destroy 0)

/-- The destructor of `local_mr_`. -/
def deregistered (mrs : LocalMrMoves.State) : LocalMrMoves.State :=
  LocalMrMoves.next mrs (.destroy 1)

def RegionState.init (scn : Scenario) : RegionState :=
  ⟨OpState.init scn, .absent, 0, false, false, LocalMrMoves.init⟩

/-- A copy of `awaitable_ptr`. -/
def RegionState.hold (s : RegionState) : RegionState := { s with uses := s.uses + 1 }

/-- A copy goes; the last one takes the awaitable along. -/
def RegionState.drop (s : RegionState) : RegionState :=
  if s.uses = 1 then { s with uses := 0, mrs := deregistered s.mrs }
  else { s with uses := s.uses - 1 }

/-- A reference to `self` is gone; the last one has taken the composed operation along. -/
def RegionState.dropSelf (s : RegionState) : RegionState :=
  if s.implementation = true ∧ s.op.selfRefs = 0 then
    RegionState.drop { s with implementation := false }
  else s

/-! ## 2. Steps -/

inductive RegionAction where
  /-- `send(buffer)`, `recv(buffer)` and so on. -/
  | construct
  | convert
  /-- The conversion returns. -/
  | convertReturn
  | discard
  /-- The slot is assigned anew, cleared, or its signal is destroyed. -/
  | clearSlot
  | op (a : Action)
  deriving DecidableEq, Repr

/-- What the action does to the holders. -/
def RegionState.after (s : RegionState) : Action → RegionState
  -- the local `awaitable_ptr`; the implementation moves behind `self_ptr`
  | .start => { s.hold with origin := .initiated }
  | .assignSlot => { s.hold with handler := true }
  | .makeCallback => s.hold
  -- the callback's captures
  | .destroyCallback | .executorDestroy => s.drop.dropSelf
  -- the initiating function's locals
  | .leave => s.drop.dropSelf
  | .signalComplete _ => s.dropSelf
  | _ => s

/-- The signal finds no handler in a slot that had one. -/
def RegionState.deaf (s : RegionState) : Action → Bool
  | .signal _ _ => s.op.slotAssigned && !s.handler
  | _ => false

section Step

variable (strerror : Int → String) (pd : Nat) (scn : Scenario)

def regionStep (s : RegionState) : RegionAction → Option RegionState
  | .construct =>
    if s.origin = .absent then some { s with origin := .temporary, mrs := registered pd } else none
  | .convert =>
    if s.origin = .temporary then
      some { s with origin := .converting, uses := 2, implementation := true }
    else none
  | .convertReturn =>
    if s.origin = .converting then some (RegionState.drop { s with origin := .lazy }) else none
  | .discard =>
    if s.origin = .lazy then
      some (RegionState.drop { s with origin := .discarded, implementation := false })
    else none
  | .clearSlot =>
    if s.handler = true then some (RegionState.drop { s with handler := false }) else none
  | .op a =>
    if s.origin ≠ if a = .start then .lazy else .initiated then none
    else if s.deaf a = true then some s
    else (step strerror scn s.op a).map fun op => RegionState.after { s with op := op } a

def regionMachine : Machine RegionState RegionAction := ⟨regionStep strerror pd scn⟩

end Step

/-- The operation's region is registered. -/
def RegionState.Registered (s : RegionState) : Prop :=
  0 < s.mrs.regions.length ∧ 0 ∉ s.mrs.deregistered

/-- Nothing is left to happen but emissions of the signal. -/
def Over (strerror : Int → String) (pd : Nat) (scn : Scenario) (s : RegionState) : Prop :=
  ∀ a t, regionStep strerror pd scn s a = some t → ∃ k type, a = .op (.signal k type)

/-! ## 3. The count -/

/-- The initiating function and the callback. -/
def OpState.holders (s : OpState) : Nat :=
  s.localSelf.toNat + if s.callback = .live then 1 else 0

/-- The holders of the awaitable. -/
def RegionState.owners (s : RegionState) : Nat :=
  (if s.origin = .converting then 1 else 0) + s.op.holders + s.implementation.toNat +
    s.handler.toNat

/-- The `local_mr`s of an awaitable with `n` holders. -/
def mrsOf (pd : Nat) : Origin → Nat → LocalMrMoves.State
  | .absent, _ => LocalMrMoves.init
  | .temporary, _ => registered pd
  | _, 0 => deregistered (registered pd)
  | _, _ + 1 => registered pd

/-- The awaitable has `n` holders. -/
structure Counted (pd : Nat) (s : RegionState) (n : Nat) : Prop where
  uses : s.uses = n
  mrs : s.mrs = mrsOf pd s.origin n

/-- **The invariant**: the use count is the number of holders. -/
structure RegionInv (pd : Nat) (scn : Scenario) (s : RegionState) : Prop where
  op : OpInv scn s.op
  started : s.op.initiator = .notStarted ↔ s.origin ≠ .initiated
  implementation : s.implementation = match s.origin with
    | .converting | .lazy => true
    | .initiated => decide (0 < s.op.selfRefs)
    | _ => false
  handler : s.handler = true → s.op.slotAssigned = true
  counted : Counted pd s s.owners

section Invariant

variable {strerror : Int → String} {pd n : Nat} {scn : Scenario} {s t : RegionState}
  {a : RegionAction}

theorem regionInv_init (pd : Nat) (scn : Scenario) : RegionInv pd scn (RegionState.init scn) where
  op := opInv_init scn
  started := iff_of_true rfl nofun
  implementation := rfl
  handler := nofun
  counted := ⟨rfl, rfl⟩

/-- The awaitable is on the heap. -/
def Origin.shared : Origin → Bool
  | .absent | .temporary => false
  | _ => true

theorem mrsOf_zero {r : Origin} (h : r.shared = true) :
    mrsOf pd r 0 = deregistered (registered pd) := by
  cases r <;> first | rfl | cases h

theorem mrsOf_succ {r : Origin} (h : r.shared = true) (n : Nat) :
    mrsOf pd r (n + 1) = registered pd := by
  cases r <;> first | rfl | cases h

theorem drop_frame (s : RegionState) : s.drop.op = s.op ∧ s.drop.origin = s.origin ∧
    s.drop.implementation = s.implementation ∧ s.drop.handler = s.handler := by
  unfold RegionState.drop
  split <;> exact ⟨rfl, rfl, rfl, rfl⟩

theorem owners_drop (s : RegionState) : s.drop.owners = s.owners := by
  obtain ⟨hop, horigin, himpl, hhandler⟩ := drop_frame s
  unfold RegionState.owners
  rw [hop, horigin, himpl, hhandler]

/-- **One holder fewer**: the region goes with the last. -/
theorem Counted.drop (h : Counted pd s (n + 1)) (hs : s.origin.shared = true) :
    Counted pd s.drop n := by
  have hm : s.mrs = registered pd := h.mrs.trans (mrsOf_succ hs n)
  refine ⟨?_, ?_⟩
  · unfold RegionState.drop
    split
    · next h1 => exact (Nat.succ.inj (h.uses.symm.trans h1)).symm
    · exact (congrArg (· - 1) h.uses).trans (Nat.add_sub_cancel n 1)
  · rw [(drop_frame s).2.1]
    unfold RegionState.drop
    split
    · next h1 =>
      obtain rfl : n = 0 := Nat.succ.inj (h.uses.symm.trans h1)
      rw [mrsOf_zero hs]
      exact congrArg deregistered hm
    · next h1 =>
      obtain ⟨k, rfl⟩ : ∃ k, n = k + 1 := by
        cases n with
        | zero => exact absurd h.uses h1
        | succ k => exact ⟨k, rfl⟩
      rw [mrsOf_succ hs]
      exact hm

/-- An awaitable with a holder left, and the same in another place. -/
theorem Counted.move {m : Nat} (h : Counted pd s (n + 1)) (hs : s.origin.shared = true)
    (ht : t.uses = m + 1) (hm : t.mrs = s.mrs) (hts : t.origin.shared = true) :
    Counted pd t (m + 1) where
  uses := ht
  mrs := by rw [hm, h.mrs, mrsOf_succ hs, mrsOf_succ hts]

/-- A count in another state with the same uses, `local_mr`s and origin. -/
theorem Counted.congr (h : Counted pd s n) (hu : t.uses = s.uses) (hm : t.mrs = s.mrs)
    (ho : t.origin = s.origin) : Counted pd t n :=
  ⟨hu.trans h.uses, by rw [hm, h.mrs, ho]⟩

/-! ## 4. Every step keeps it -/

/-- A holder goes, with nothing to follow. -/
theorem RegionInv.drop (hop : OpInv scn s.op)
    (hn : s.op.initiator = .notStarted ↔ s.origin ≠ .initiated)
    (hi : s.implementation = match s.origin with
      | .converting | .lazy => true
      | .initiated => decide (0 < s.op.selfRefs)
      | _ => false)
    (hh : s.handler = true → s.op.slotAssigned = true) (hs : s.origin.shared = true)
    (hc : Counted pd s (s.owners + 1)) : RegionInv pd scn s.drop := by
  obtain ⟨hop', ho', hi', hh'⟩ := drop_frame s
  refine ⟨?_, ?_, ?_, ?_, ?_⟩
  · rw [hop']
    exact hop
  · rw [hop', ho']
    exact hn
  · rw [hi', ho', hop']
    exact hi
  · rw [hh', hop']
    exact hh
  · rw [owners_drop]
    exact hc.drop hs

/-- **The composed operation goes with the last reference to `self`**, and its implementation with
    it. -/
theorem RegionInv.dropSelf (hop : OpInv scn s.op) (hn : s.op.initiator ≠ .notStarted)
    (ho : s.origin = .initiated) (hi : s.implementation = true)
    (hh : s.handler = true → s.op.slotAssigned = true) (hc : Counted pd s s.owners) :
    RegionInv pd scn s.dropSelf := by
  have hn' : s.op.initiator = .notStarted ↔ s.origin ≠ .initiated :=
    iff_of_false hn fun h => h ho
  unfold RegionState.dropSelf
  split
  · next hs =>
    refine .drop hop hn' ?_ hh (ho ▸ rfl) ?_
    · rw [ho]
      exact (decide_eq_false (Nat.not_lt.mpr (Nat.le_of_eq hs.2))).symm
    · have hw : s.owners = RegionState.owners { s with implementation := false } + 1 := by
        simp only [RegionState.owners, hi, Bool.toNat_true, Bool.toNat_false]
        omega
      rw [hw] at hc
      exact hc.congr rfl rfl rfl
  · next hs =>
    refine ⟨hop, hn', ?_, hh, hc⟩
    rw [ho, hi]
    exact (decide_eq_true (Nat.pos_of_ne_zero fun h0 => hs ⟨hi, h0⟩)).symm

/-- The implementation exists while anything refers to `self`. -/
theorem RegionInv.alive (h : RegionInv pd scn s) (ho : s.origin = .initiated)
    (hr : 0 < s.op.selfRefs) : s.implementation = true := by
  rw [h.implementation, ho]
  exact decide_eq_true hr

/-- A holder of both the awaitable and `self` goes. -/
theorem RegionInv.letGo (h : RegionInv pd scn s) (ho : s.origin = .initiated) {u : OpState}
    (hu : OpInv scn u) (hn : u.initiator ≠ .notStarted) (hr : 0 < s.op.selfRefs)
    (hs : u.slotAssigned = s.op.slotAssigned) (hc : s.op.holders = u.holders + 1) :
    RegionInv pd scn (RegionState.drop { s with op := u }).dropSelf := by
  obtain ⟨hop, ho', hi, hh⟩ := drop_frame { s with op := u }
  refine .dropSelf (hop ▸ hu) (hop ▸ hn) (ho'.trans ho) (hi.trans (h.alive ho hr)) ?_ ?_
  · rw [hh, hop]
    exact fun h' => hs.trans (h.handler h')
  · have hcount := h.counted
    have hw : s.owners = RegionState.owners { s with op := u } + 1 := by
      simp only [RegionState.owners, hc]
      omega
    rw [hw] at hcount
    rw [owners_drop]
    exact Counted.drop (hcount.congr rfl rfl rfl) (ho ▸ rfl)

/-- What touches no holder changes nothing here. -/
theorem RegionInv.frame (h : RegionInv pd scn s) (ho : s.origin = .initiated) {u : OpState}
    (hu : OpInv scn u) (hn : u.initiator ≠ .notStarted) (hl : u.localSelf = s.op.localSelf)
    (hb : u.callback = s.op.callback) (hk : u.lockedSelf = s.op.lockedSelf)
    (hs : u.slotAssigned = s.op.slotAssigned) : RegionInv pd scn { s with op := u } where
  op := hu
  started := iff_of_false hn fun h => h ho
  implementation := by
    have hr : u.selfRefs = s.op.selfRefs := by
      unfold OpState.selfRefs
      rw [hl, hb, hk]
    refine h.implementation.trans ?_
    rw [ho, hr]
  handler h' := hs.trans (h.handler h')
  counted := by
    have hc : RegionState.owners { s with op := u } = s.owners := by
      unfold RegionState.owners OpState.holders
      rw [hl, hb]
    rw [hc]
    exact h.counted.congr rfl rfl rfl

/-- One more holder of the awaitable, `self` being alive before and after. -/
theorem RegionInv.take (h : RegionInv pd scn s) (ho : s.origin = .initiated) {u : OpState}
    {b : Bool} (hu : OpInv scn u) (hn : u.initiator ≠ .notStarted) (hr : 0 < s.op.selfRefs)
    (hr' : 0 < u.selfRefs) (hh : b = true → u.slotAssigned = true)
    (hc : u.holders + b.toNat = s.op.holders + s.handler.toNat + 1) :
    RegionInv pd scn { s with op := u, handler := b, uses := s.uses + 1 } := by
  have hi := h.alive ho hr
  refine ⟨hu, iff_of_false hn fun h => h ho, ?_, hh, ?_⟩
  · rw [ho]
    exact hi.trans (decide_eq_true hr').symm
  · obtain ⟨n, hw⟩ : ∃ n, s.owners = n + 1 := ⟨_, by
      unfold RegionState.owners
      rw [hi, Bool.toNat_true, Nat.add_right_comm]⟩
    have hw' : RegionState.owners { s with op := u, handler := b, uses := s.uses + 1 } = n + 2 := by
      simp only [RegionState.owners] at hw ⊢
      omega
    have hcount := h.counted
    rw [hw] at hcount
    rw [hw']
    exact hcount.move (ho ▸ rfl) (congrArg (· + 1) hcount.uses) rfl (ho ▸ rfl)

theorem holders_of {u : OpState} {l : Bool} {c : Callback} (hl : u.localSelf = l)
    (hc : u.callback = c) : u.holders = l.toNat + if c = .live then 1 else 0 := by
  unfold OpState.holders
  rw [hl, hc]

/-- **Every step of the operation keeps the invariant.** -/
theorem RegionInv.opStep (h : RegionInv pd scn s) (ho : s.origin = .initiated) {b : Action}
    {u : OpState} (hu : OpInv scn u) (ht : OpStep scn s.op b u) :
    RegionInv pd scn (RegionState.after { s with op := u } b) := by
  have hn : s.op.initiator ≠ .notStarted := fun hi => h.started.mp hi ho
  cases ht with
  | start hi => exact absurd hi hn
  | assignSlot hi hr =>
    have hl : s.op.localSelf = true := localSelf_of hi rfl
    have hh : s.handler = false := by
      refine eq_false_of_ne_true fun hh => ?_
      have hp := h.op.stored.slotPast (h.handler hh)
      rw [hi] at hp
      cases hp
    refine h.take ho hu nofun (selfRefs_pos_of_local hl) (selfRefs_pos_of_local rfl)
      (fun _ => rfl) ?_
    rw [holders_of hl rfl, hh]
    rfl
  | skipSlot hi => exact h.frame ho hu nofun (localSelf_of hi rfl).symm rfl rfl rfl
  | makeCallback hi =>
    have hl : s.op.localSelf = true := localSelf_of hi rfl
    have hb := h.op.life.absent (Or.inr (Or.inr hi))
    refine h.take ho hu nofun (selfRefs_pos_of_local hl) (selfRefs_pos_of_local rfl) h.handler ?_
    rw [holders_of hl hb]
    exact Nat.add_right_comm _ _ _
  | postAccepted hi ha => exact h.frame ho hu nofun (localSelf_of hi rfl).symm rfl rfl rfl
  | postRefused hi ha text => exact h.frame ho hu nofun (localSelf_of hi rfl).symm rfl rfl rfl
  | destroyCallback hi =>
    have hb := h.op.life.live (Or.inl hi)
    refine h.letGo ho hu nofun (selfRefs_pos_of_live hb) rfl ?_
    rw [holders_of (localSelf_of hi rfl) hb]
    rfl
  | leave hi =>
    have hl : s.op.localSelf = true := by
      rcases hi with hi | hi <;> exact localSelf_of hi rfl
    refine h.letGo ho hu nofun (selfRefs_pos_of_local hl) rfl ?_
    rw [holders_of hl rfl]
    exact Nat.add_right_comm 0 1 _
  | poll hq => exact h.frame ho hu hn rfl rfl rfl rfl
  | invokeSkipped hq hd hr hc => exact h.frame ho hu hn rfl rfl rfl rfl
  | invokeClaimed hq hd hc => exact h.frame ho hu hn rfl rfl rfl rfl
  | delivered hd r hr => exact h.frame ho hu hn rfl rfl rfl rfl
  | deliverFailed hd e hr => exact h.frame ho hu hn rfl rfl rfl rfl
  | executorDestroy hd =>
    have hb := h.op.life.live (Or.inr (Or.inr hd))
    refine h.letGo ho hu hn (selfRefs_pos_of_live hb) rfl ?_
    rw [holders_of rfl hb]
    rfl
  | signalNothing k type hn' => exact h
  | signalLate k type hs hk hc => exact h.frame ho hu hn rfl rfl rfl rfl
  | signalWon k type ht hs hk hc => exact h.frame ho hu hn rfl rfl rfl rfl
  | lockLive k hk hl =>
    refine ⟨hu, iff_of_false hn fun h => h ho, ?_, h.handler, h.counted.congr rfl rfl rfl⟩
    rw [ho]
    refine h.implementation.trans ?_
    rw [ho]
    exact decide_eq_decide.mpr (iff_of_true hl (Nat.succ_pos _))
  | lockExpired k hk hl => exact h.frame ho hu hn rfl rfl rfl rfl
  | signalComplete k hk =>
    have hpos : 0 < s.op.selfRefs := by
      unfold OpState.selfRefs
      rw [h.op.claim.lockedSelf_eq hk]
      exact Nat.succ_pos _
    exact .dropSelf hu hn ho (h.alive ho hpos) h.handler (h.counted.congr rfl rfl rfl)

/-- Before the composed operation is initiated neither of its functions holds the awaitable. -/
theorem RegionInv.unstarted (h : RegionInv pd scn s) (ho : s.origin ≠ .initiated) :
    s.op.initiator = .notStarted ∧ s.op.holders = 0 ∧ s.handler = false := by
  have hi := h.started.mpr ho
  refine ⟨hi, ?_, eq_false_of_ne_true fun hh => ?_⟩
  · have hl : s.op.localSelf = false := by
      unfold OpState.localSelf
      rw [hi]
      rfl
    rw [holders_of hl (h.op.life.absent (Or.inl hi))]
    rfl
  · have hp := h.op.stored.slotPast (h.handler hh)
    rw [hi] at hp
    cases hp

/-- The composed operation is initiated. -/
theorem RegionInv.start (h : RegionInv pd scn s) (ho : s.origin = .lazy) {u : OpState}
    (hu : OpInv scn u) (hn : u.initiator = .started) (hs : u.slotAssigned = s.op.slotAssigned) :
    RegionInv pd scn { s with op := u, origin := .initiated, uses := s.uses + 1 } := by
  obtain ⟨hi, hz, hh⟩ := h.unstarted (by rw [ho]; nofun)
  have himpl := h.implementation
  have hcount := h.counted
  rw [ho] at himpl
  have hl : u.localSelf = true := localSelf_of hn rfl
  have hz' : u.holders = 1 := by
    rw [holders_of hl (hu.life.absent (Or.inr (Or.inl hn)))]
    rfl
  have hw : s.owners = 1 := by
    simp [RegionState.owners, ho, hz, hh, himpl]
  have hw' : RegionState.owners { s with op := u, origin := .initiated, uses := s.uses + 1 } =
      2 := by
    simp [RegionState.owners, hz', hh, himpl]
  refine ⟨hu, iff_of_false (by rw [hn]; nofun) fun h => h rfl,
    himpl.trans (decide_eq_true (selfRefs_pos_of_local hl)).symm,
    fun h' => hs.trans (h.handler h'), ?_⟩
  rw [hw] at hcount
  rw [hw']
  exact hcount.move (ho ▸ rfl) (congrArg (· + 1) hcount.uses) rfl rfl

/-- **Every step keeps the invariant.** -/
theorem RegionInv.step (h : RegionInv pd scn s)
    (hs : (regionMachine strerror pd scn).step s a = some t) : RegionInv pd scn t := by
  have himpl := h.implementation
  have hcount := h.counted
  cases a with
  | construct =>
    obtain ⟨ho, hs⟩ := Option.ite_none_right_eq_some.mp hs
    cases hs
    obtain ⟨hi, -, hh⟩ := h.unstarted (by rw [ho]; nofun)
    rw [ho] at himpl
    refine ⟨h.op, iff_of_true hi nofun, himpl, h.handler, ?_, rfl⟩
    refine hcount.uses.trans ?_
    unfold RegionState.owners
    rw [ho]
    rfl
  | convert =>
    obtain ⟨ho, hs⟩ := Option.ite_none_right_eq_some.mp hs
    cases hs
    obtain ⟨hi, hz, hh⟩ := h.unstarted (by rw [ho]; nofun)
    have hm : s.mrs = registered pd := by rw [hcount.mrs, ho, mrsOf]
    have hw : RegionState.owners
        { s with origin := .converting, uses := 2, implementation := true } = 2 := by
      simp [RegionState.owners, hz, hh]
    exact ⟨h.op, iff_of_true hi nofun, rfl, h.handler, hw.symm, by rw [hw]; exact hm⟩
  | convertReturn =>
    obtain ⟨ho, hs⟩ := Option.ite_none_right_eq_some.mp hs
    cases hs
    obtain ⟨hi, hz, hh⟩ := h.unstarted (by rw [ho]; nofun)
    rw [ho] at himpl
    refine .drop h.op (iff_of_true hi nofun) himpl h.handler rfl ?_
    have hw : s.owners = RegionState.owners { s with origin := .lazy } + 1 := by
      simp [RegionState.owners, ho, hz, hh, himpl]
    rw [hw] at hcount
    exact hcount.move (ho ▸ rfl) hcount.uses rfl rfl
  | discard =>
    obtain ⟨ho, hs⟩ := Option.ite_none_right_eq_some.mp hs
    cases hs
    obtain ⟨hi, hz, hh⟩ := h.unstarted (by rw [ho]; nofun)
    rw [ho] at himpl
    refine .drop h.op (iff_of_true hi nofun) rfl h.handler rfl ?_
    have hw : s.owners =
        RegionState.owners { s with origin := .discarded, implementation := false } + 1 := by
      simp [RegionState.owners, ho, hz, hh, himpl]
    rw [hw] at hcount
    exact hcount.move (ho ▸ rfl) hcount.uses rfl rfl
  | clearSlot =>
    obtain ⟨hh, hs⟩ := Option.ite_none_right_eq_some.mp hs
    cases hs
    have ho : s.origin = .initiated :=
      Classical.byContradiction fun ho => by
        rw [(h.unstarted ho).2.2] at hh
        cases hh
    refine .drop h.op h.started himpl nofun (ho ▸ rfl) ?_
    have hw : s.owners = RegionState.owners { s with handler := false } + 1 := by
      simp [RegionState.owners, hh]
    rw [hw] at hcount
    exact hcount.congr rfl rfl rfl
  | op b =>
    obtain ⟨ho, hs⟩ := Option.ite_none_left_eq_some.mp hs
    rw [ne_eq, Decidable.not_not] at ho
    by_cases hd : s.deaf b = true
    · rw [if_pos hd] at hs
      exact Option.some.inj hs ▸ h
    · rw [if_neg hd, Option.map_eq_some_iff] at hs
      obtain ⟨u, hu, rfl⟩ := hs
      have hinv := h.op.step hu
      have hstep := (opStep_of_step hu).2
      by_cases hb : b = .start
      · subst hb
        rw [if_pos rfl] at ho
        cases hstep
        exact h.start ho hinv rfl rfl
      · rw [if_neg hb] at ho
        exact h.opStep ho hinv hstep

/-- **The use count is the number of holders in every reachable state.** -/
theorem regionInv_reach (h : (regionMachine strerror pd scn).Reach (RegionState.init scn) s) :
    RegionInv pd scn s :=
  h.invariant (regionInv_init pd scn) fun _ _ _ hi _ hs => hi.step hs

/-! ## 5. The region -/

theorem mrsOf_cases (pd : Nat) (r : Origin) (n : Nat) : mrsOf pd r n = LocalMrMoves.init ∨
    mrsOf pd r n = registered pd ∨ mrsOf pd r n = deregistered (registered pd) := by
  cases r <;> cases n <;> first
    | exact Or.inl rfl
    | exact Or.inr (Or.inl rfl)
    | exact Or.inr (Or.inr rfl)

/-- **While the work request is outstanding the region is registered**: the callback lives, and it
    holds the awaitable. -/
theorem RegionInv.registered (h : RegionInv pd scn s) (hq : s.op.request = .outstanding) :
    s.Registered := by
  have hb := h.op.life.live (Or.inr (Or.inl hq))
  have ho : s.origin = .initiated := Classical.byContradiction fun ho => by
    rw [h.op.life.absent (Or.inl (h.unstarted ho).1)] at hb
    cases hb
  obtain ⟨n, hn⟩ : ∃ n, s.owners = n + 1 := by
    refine Nat.exists_eq_succ_of_ne_zero fun h0 => ?_
    simp [RegionState.owners, holders_of rfl hb] at h0
  have hm : s.mrs = Asio.registered pd := by
    rw [h.counted.mrs, hn, mrsOf_succ (ho ▸ rfl)]
  unfold RegionState.Registered
  rw [hm]
  exact ⟨Nat.one_pos, nofun⟩

/-- No region is deregistered twice. -/
theorem RegionInv.count_le (h : RegionInv pd scn s) (r : Nat) : s.mrs.deregistered.count r ≤ 1 := by
  rw [h.counted.mrs]
  rcases mrsOf_cases pd s.origin s.owners with hm | hm | hm <;> rw [hm]
  · exact Nat.zero_le 1
  · exact Nat.zero_le 1
  · exact List.count_le_length

theorem regionStep_op (ho : s.origin = .initiated) {b : Action} (hb : b ≠ .start)
    (hd : s.deaf b = false) {u : OpState} (hu : Asio.step strerror scn s.op b = some u) :
    regionStep strerror pd scn s (.op b) = some (RegionState.after { s with op := u } b) := by
  show (if s.origin ≠ if b = .start then .lazy else .initiated then none else _) = _
  rw [if_neg hb, if_neg (fun hc => hc ho), hd, hu]
  rfl

/-- Where only emissions are left, the operation takes no step but them. -/
theorem Over.step_eq_none (hover : Over strerror pd scn s) (h : RegionInv pd scn s)
    (ho : s.origin = .initiated) {b : Action} (hs : ∀ k type, b ≠ .signal k type) :
    Asio.step strerror scn s.op b = none := by
  refine Option.eq_none_iff_forall_ne_some.mpr fun u hu => ?_
  by_cases hb : b = .start
  · subst hb
    cases (opStep_of_step hu).2 with
    | start hi => exact h.started.mp hi ho
  · have hd : s.deaf b = false := by
      cases b with
      | signal k type => exact absurd rfl (hs k type)
      | _ => rfl
    obtain ⟨k, type, he⟩ := hover _ _ (regionStep_op ho hb hd hu)
    exact hs k type (RegionAction.op.inj he)

/-- **Once all is over nobody holds the awaitable.** -/
theorem Over.owners (hover : Over strerror pd scn s) (h : RegionInv pd scn s)
    (hw : scn.wc.status = .success) : s.origin.shared = true ∧ s.owners = 0 := by
  have hdone : ∀ b t, regionStep strerror pd scn s b = some t → (∀ c, b ≠ .op c) → False := by
    intro b t hb hc
    obtain ⟨k, type, he⟩ := hover b t hb
    exact hc _ he
  have himpl := h.implementation
  cases ho : s.origin with
  | absent => exact (hdone .construct _ (if_pos ho) nofun).elim
  | temporary => exact (hdone .convert _ (if_pos ho) nofun).elim
  | converting => exact (hdone .convertReturn _ (if_pos ho) nofun).elim
  | lazy => exact (hdone .discard _ (if_pos ho) nofun).elim
  | discarded =>
    obtain ⟨-, hz, hh⟩ := h.unstarted (by rw [ho]; nofun)
    rw [ho] at himpl
    refine ⟨rfl, ?_⟩
    simp [RegionState.owners, ho, hz, hh, himpl]
  | initiated =>
    have hz := not_terminated_of_success h.op hw
    have hh : s.handler = false :=
      eq_false_of_ne_true fun hh => hdone .clearSlot _ (if_pos hh) nofun
    have hquiet : Quiet strerror scn s.op := fun b hb =>
      hover.step_eq_none h ho fun k type he => by
        rw [he] at hb
        cases hb
    have hset := settled_of_quiet h.op.life hquiet
    have hl : s.op.localSelf = false := by
      have hr : s.op.initiator = .returned := by
        cases hset with
        | terminated hz' => exact absurd (hz'.symm.trans hz) nofun
        | refused _ _ hr => exact hr
        | finished _ _ hr => exact hr
      unfold OpState.localSelf
      rw [hr]
      rfl
    have hb := (hset.deleted hz).2
    have hk : s.op.lockedSelf = 0 := by
      have hclaim := h.op.claim
      cases hclaim with
      | unclaimed _ _ hl => exact hl
      | invoked _ _ hl => exact hl
      | delivered _ _ hl => exact hl
      | cancelling j _ _ _ _ _ hj =>
        rcases hj with ⟨_, hl, _⟩ | ⟨hj, _, _⟩ | ⟨_, hl, _⟩
        · exact hl
        · -- a signal past `lock()` still has to complete
          have hn := hover.step_eq_none h ho (b := .signalComplete j) nofun
          simp [Asio.step, hz, hj] at hn
        · exact hl
    have hr : s.op.selfRefs = 0 := by
      unfold OpState.selfRefs
      rw [hl, hb, hk]
      rfl
    rw [ho, hr] at himpl
    refine ⟨rfl, ?_⟩
    simp [RegionState.owners, ho, hh, holders_of hl hb, himpl]

/-- **Once all is over the region is deregistered.** -/
theorem RegionInv.deregistered (h : RegionInv pd scn s) (hw : scn.wc.status = .success)
    (hover : Over strerror pd scn s) : s.mrs = Asio.deregistered (Asio.registered pd) := by
  obtain ⟨hs, hn⟩ := hover.owners h hw
  rw [h.counted.mrs, hn, mrsOf_zero hs]

/-! ## 6. The end of an operation -/

/-- How many steps the signal that has claimed the handler has left. -/
def OpState.signalRank (s : OpState) : Nat :=
  match s.claimed with
  | some (.signal k) =>
    match s.signal k with
    | .won => 2
    | .locked => 1
    | _ => 0
  | _ => 0

/-- How many steps of the awaitable are at most left before the operation is initiated. -/
def Origin.rank : Origin → Nat
  | .absent => 4
  | .temporary => 3
  | .converting => 2
  | .lazy => 1
  | .initiated | .discarded => 0

/-- How many steps but emissions are at most left. Assigning the slot makes a handler, to be
    cleared. -/
def RegionState.rank (s : RegionState) : Nat :=
  s.origin.rank + 2 * s.op.rank + s.op.signalRank + s.handler.toNat

theorem signalRank_le {u v : OpState} {b : Action} (ht : OpStep scn u b v)
    (hb : b.isSignal = false) : v.signalRank ≤ u.signalRank := by
  cases ht with
  | invokeClaimed => exact Nat.zero_le _
  | signalNothing | signalLate | signalWon | lockLive | lockExpired | signalComplete => cases hb
  | _ => exact Nat.le_refl _

theorem signalRank_lt {u v : OpState} {b : Action} (h : Claim scn u) (ht : OpStep scn u b v)
    (hb : b.isSignal = true) (hs : ∀ k type, b ≠ .signal k type) :
    v.rank = u.rank ∧ v.signalRank < u.signalRank := by
  cases ht with
  | signalNothing k type | signalLate k type | signalWon k type => exact absurd rfl (hs k type)
  | lockLive k hk =>
    refine ⟨rfl, ?_⟩
    simp [OpState.signalRank, h.of_active (Or.inl hk), hk]
  | lockExpired k hk =>
    refine ⟨rfl, ?_⟩
    simp [OpState.signalRank, h.of_active (Or.inl hk), hk]
  | signalComplete k hk =>
    refine ⟨rfl, ?_⟩
    simp [OpState.signalRank, h.of_active (Or.inr hk), hk]
  | _ => cases hb

theorem dropSelf_frame (s : RegionState) : s.dropSelf.op = s.op ∧ s.dropSelf.origin = s.origin ∧
    s.dropSelf.handler = s.handler := by
  unfold RegionState.dropSelf
  split
  · obtain ⟨hop, ho, -, hh⟩ := drop_frame { s with implementation := false }
    exact ⟨hop, ho, hh⟩
  · exact ⟨rfl, rfl, rfl⟩

/-- What an action leaves of the holders' places. -/
theorem after_frame (s : RegionState) (b : Action) : (s.after b).op = s.op ∧
    (s.after b).origin = (if b = .start then .initiated else s.origin) ∧
    (s.after b).handler = (if b = .assignSlot then true else s.handler) := by
  have hdrop := drop_frame s
  have hself := dropSelf_frame s
  have hboth := dropSelf_frame s.drop
  cases b with
  | destroyCallback | executorDestroy | leave =>
    exact ⟨hboth.1.trans hdrop.1, hboth.2.1.trans hdrop.2.1, hboth.2.2.trans hdrop.2.2.2⟩
  | signalComplete k => exact hself
  | _ => exact ⟨rfl, rfl, rfl⟩

/-- **Every step but an emission brings the end nearer.** -/
theorem RegionInv.rank_lt (h : RegionInv pd scn s)
    (hs : (regionMachine strerror pd scn).step s a = some t)
    (ha : ∀ k type, a ≠ .op (.signal k type)) : t.rank < s.rank := by
  cases a with
  | construct =>
    obtain ⟨ho, hs⟩ := Option.ite_none_right_eq_some.mp hs
    cases hs
    simp [RegionState.rank, Origin.rank, ho]
  | convert =>
    obtain ⟨ho, hs⟩ := Option.ite_none_right_eq_some.mp hs
    cases hs
    simp [RegionState.rank, Origin.rank, ho]
  | convertReturn =>
    obtain ⟨ho, hs⟩ := Option.ite_none_right_eq_some.mp hs
    cases hs
    simp [RegionState.rank, Origin.rank, ho, drop_frame]
  | discard =>
    obtain ⟨ho, hs⟩ := Option.ite_none_right_eq_some.mp hs
    cases hs
    simp [RegionState.rank, Origin.rank, ho, drop_frame]
  | clearSlot =>
    obtain ⟨hh, hs⟩ := Option.ite_none_right_eq_some.mp hs
    cases hs
    simp [RegionState.rank, hh, drop_frame]
  | op b =>
    obtain ⟨ho, hs⟩ := Option.ite_none_left_eq_some.mp hs
    rw [ne_eq, Decidable.not_not] at ho
    have hne : ∀ k type, b ≠ .signal k type := fun k type he => ha k type (congrArg _ he)
    have hd : s.deaf b = false := by
      cases b with
      | signal k type => exact absurd rfl (hne k type)
      | _ => rfl
    rw [hd, if_neg Bool.false_ne_true, Option.map_eq_some_iff] at hs
    obtain ⟨u, hu, rfl⟩ := hs
    have hstep := (opStep_of_step hu).2
    obtain ⟨hop, ho', hh⟩ := after_frame { s with op := u } b
    unfold RegionState.rank
    rw [hop, ho', hh]
    cases hb : b.isSignal with
    | true =>
      obtain ⟨hr, hlt⟩ := signalRank_lt h.op.claim hstep hb hne
      have hstart : b ≠ .start := fun he => by rw [he] at hb; cases hb
      have hassign : b ≠ .assignSlot := fun he => by rw [he] at hb; cases hb
      rw [if_neg hstart, if_neg hassign]
      dsimp only
      omega
    | false =>
      have hr := rank_lt_of_step h.op.life hb hu
      have hle := signalRank_le hstep hb
      have horigin : (if b = .start then Origin.initiated else s.origin).rank ≤ s.origin.rank := by
        split
        · exact Nat.zero_le _
        · exact Nat.le_refl _
      have hhandler : (if b = .assignSlot then true else s.handler).toNat ≤ 1 := Bool.toNat_le _
      dsimp only at horigin hhandler ⊢
      omega

/-- **Left alone by emissions, every operation comes to its end.** -/
theorem RegionInv.exists_over (h : RegionInv pd scn s) :
    ∃ t, (regionMachine strerror pd scn).Reach s t ∧ Over strerror pd scn t := by
  induction hn : s.rank using Nat.strong_induction_on generalizing s with
  | _ n ih =>
    by_cases hover : Over strerror pd scn s
    · exact ⟨s, .start, hover⟩
    · obtain ⟨a, ha⟩ := Classical.not_forall.mp hover
      obtain ⟨u, hu⟩ := Classical.not_forall.mp ha
      obtain ⟨hu, hne⟩ := Classical.not_imp.mp hu
      have hlt := h.rank_lt hu fun k type he => hne ⟨k, type, he⟩
      obtain ⟨t, ht, hto⟩ := ih u.rank (hn ▸ hlt) (h.step hu) rfl
      exact ⟨t, (Machine.ReachIf.step a .start trivial hu).trans ht, hto⟩

end Invariant

/-! ## 7. Any number of operations -/

/-- Span-based operations side by side, each with its own awaitable and slot. -/
def regionMachines {ι : Type*} [DecidableEq ι] (strerror : Int → String) (pd : ι → Nat)
    (scn : ι → Scenario) : Machine (ι → RegionState) (ι × RegionAction) :=
  .family fun i => regionMachine strerror (pd i) (scn i)

/-- What holds of an operation in a reachable state. -/
structure RegionSafe (strerror : Int → String) (pd : Nat) (scn : Scenario) (s : RegionState) :
    Prop where
  whileOutstanding : s.op.request = .outstanding → s.Registered
  atMostOnce : ∀ r, s.mrs.deregistered.count r ≤ 1
  onceOver : Over strerror pd scn s → 0 < s.mrs.regions.length ∧
    ∀ r < s.mrs.regions.length, s.mrs.deregistered.count r = 1

section Many

variable {ι : Type*} [DecidableEq ι]

/-- **A temporary region outlives its work request and is deregistered once.** Whatever the posts'
    outcomes, the order of the completions, the cancellation signals: the region of an operation is
    registered while its request is outstanding and never deregistered twice; when the operation
    is over it was deregistered, and from every state each operation can come to its end. -/
theorem region_outlives_request (strerror : Int → String) (op : ι → QpOperation)
    (region : ι → LocalMr) (pd : ι → Nat) (slotConnected : ι → Bool) (env : ι → PostEnv)
    (wc : ι → IbvWc) (hw : ∀ i, (wc i).status = .success) (f : ι → RegionState)
    (hf : (regionMachines strerror pd fun i =>
        operationScenario (op i) (.span (region i)) (slotConnected i) (env i) (wc i)).Reach
      (fun i => RegionState.init
        (operationScenario (op i) (.span (region i)) (slotConnected i) (env i) (wc i))) f) (i : ι) :
    RegionSafe strerror (pd i)
        (operationScenario (op i) (.span (region i)) (slotConnected i) (env i) (wc i)) (f i) ∧
      ∃ g, (regionMachines strerror pd fun i =>
          operationScenario (op i) (.span (region i)) (slotConnected i) (env i) (wc i)).Reach f g ∧
        Over strerror (pd i)
          (operationScenario (op i) (.span (region i)) (slotConnected i) (env i) (wc i)) (g i) := by
  have hinv := regionInv_reach (Machine.family_reach hf i)
  refine ⟨⟨hinv.registered, hinv.count_le, fun hover => ?_⟩, ?_⟩
  · rw [hinv.deregistered (hw i) hover]
    refine ⟨Nat.one_pos, fun r hr => ?_⟩
    obtain rfl : r = 0 := Nat.lt_one_iff.mp hr
    rfl
  · obtain ⟨t, ht, hover⟩ := hinv.exists_over
    refine ⟨Function.update f i t, Machine.family_reach_update ht, ?_⟩
    rw [Function.update_self]
    exact hover

/-- A recv whose entry is delivered, the slot cleared afterwards. -/
theorem region_outlives_request_recv :
    let scn := operationScenario .recv (.span ⟨4096, 64, 7, 9⟩) true ⟨some .postRecvRq, 0⟩
      ⟨8, .success, 0, 64, 0⟩
    ∃ f : Unit → RegionState, (regionMachines (fun _ => "") (fun _ => 3) fun _ => scn).Reach
        (fun _ => RegionState.init scn) f ∧ (f ()).mrs.deregistered = [0] ∧
      RegionSafe (fun _ => "") 3 scn (f ()) := by
  intro scn
  obtain ⟨f, hf, hd⟩ := Machine.exists_reach_of_run
    (M := regionMachines (fun _ => "") (fun _ : Unit => 3) fun _ => scn)
    (s := fun _ => RegionState.init scn)
    [((), .construct), ((), .convert), ((), .convertReturn), ((), .op .start),
      ((), .op .assignSlot), ((), .op .makeCallback), ((), .op .post), ((), .op .leave),
      ((), .op .poll), ((), .op .invoke), ((), .op .deliver), ((), .op .executorDestroy),
      ((), .clearSlot)]
    (fun f => decide ((f ()).mrs.deregistered = [0])) (by decide +kernel)
  exact ⟨f, hf, of_decide_eq_true hd, (region_outlives_request (fun _ => "") (fun _ => .recv)
    (fun _ => ⟨4096, 64, 7, 9⟩) (fun _ => 3) (fun _ => true) (fun _ => ⟨some .postRecvRq, 0⟩)
    (fun _ => ⟨8, .success, 0, 64, 0⟩) (fun _ => rfl) f hf ()).1⟩

end Many

end Rdmapp.Asio
