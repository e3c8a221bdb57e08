/-
  File:      Rdmapp/SendBw.lean
  Subject:   THE BANDWIDTH PROGRAM `send_bw_raw.cc`: senders, receivers and the reporter.

  Any number of `send_worker`s send `kSendCount` messages each over one queue pair, any number of
  `server_worker`s receive for ever, and after each receive add to two counters, one statement each;
  the reporter takes and zeroes the counters, again one statement each. The queue pair gives each
  message to the oldest posted receive and completes both; the completions are dispatched in any
  order. What the reporter has taken and what the counters hold are always the messages counted
  (`bandwidth_accounted`), and the client comes to its end (`bandwidth_finishes`).
-/
import Mathlib.Algebra.BigOperators.Group.Finset.Basic
import Mathlib.Data.UInt
import Rdmapp.Lib.Progress

namespace Rdmapp.SendBw

open Lib

/-! ## 1. The program -/

def kMsgSize : Nat := 2 * 1024 * 1024

/-- The next statement of a `send_worker`. -/
inductive SenderPc where
  /-- The post of the send. -/
  | send
  /-- Suspended on it. -/
  | sending
  /-- Suspended, with the completion in the CQ. -/
  | completed
  | returned
  deriving DecidableEq, Repr

structure Sender where
  pc : SenderPc
  i : Nat
  deriving DecidableEq, Repr

/-- The head of the loop. -/
def Sender.loop (kSendCount i : Nat) : Sender := ⟨if i < kSendCount then .send else .returned, i⟩

/-- The next statement of a `server_worker`. -/
inductive ReceiverPc where
  /-- The post of the receive. -/
  | recv
  | receiving
  | completed
  /-- `total_completed += 1`. -/
  | addCompleted
  /-- `total_bytes += kMsgSize`. -/
  | addBytes
  deriving DecidableEq, Repr

/-- The next statement of `reporter_loop`. -/
inductive ReporterPc where
  | exchangeCompleted
  | exchangeBytes
  deriving DecidableEq, Repr

/-- A `std::atomic<size_t>`, with what `exchange` has returned so far. -/
structure Counter where
  value : UInt64
  taken : List UInt64
  deriving DecidableEq, Repr

def Counter.fetchAdd (c : Counter) (n : UInt64) : Counter := { c with value := c.value + n }

/-- `exchange(0)`. -/
def Counter.exchange (c : Counter) : Counter := ⟨0, c.taken ++ [c.value]⟩

/-- All that was taken, and what is there. -/
def Counter.total (c : Counter) : UInt64 := c.taken.sum + c.value

@[simp] theorem Counter.total_fetchAdd (c : Counter) (n : UInt64) :
    (c.fetchAdd n).total = c.total + n := (add_assoc _ _ _).symm

@[simp] theorem Counter.total_exchange (c : Counter) : c.exchange.total = c.total := by
  unfold Counter.exchange Counter.total
  rw [List.sum_append, List.sum_singleton, add_zero]

/-- Senders `ι` and receivers `κ`. -/
structure State (ι κ : Type*) where
  senders : ι → Sender
  receivers : κ → ReceiverPc
  /-- The send queue of the client's QP, the receive queue of the server's. -/
  sends : List ι
  recvs : List κ
  /-- The messages that have arrived: whose, and the sender's `i`. -/
  arrived : List (ι × Nat)
  totalCompleted : Counter
  totalBytes : Counter
  reporter : ReporterPc

def State.start (ι κ : Type*) (kSendCount : Nat) : State ι κ where
  senders _ := .loop kSendCount 0
  receivers _ := .recv
  sends := []
  recvs := []
  arrived := []
  totalCompleted := ⟨0, []⟩
  totalBytes := ⟨0, []⟩
  reporter := .exchangeCompleted

inductive Action (ι κ : Type*) where
  | send (x : ι)
  /-- The oldest message goes to the oldest receive. -/
  | deliver (x : ι) (r : κ)
  | sendDone (x : ι)
  | recv (r : κ)
  | recvDone (r : κ)
  | addCompleted (r : κ)
  | addBytes (r : κ)
  | exchangeCompleted
  | exchangeBytes

/-- A statement of the reporter. -/
def Action.reports {ι κ : Type*} : Action ι κ → Bool
  | .exchangeCompleted | .exchangeBytes => true
  | _ => false

section Machine

variable {ι κ : Type*}

def Enabled (s : State ι κ) : Action ι κ → Prop
  | .send x => (s.senders x).pc = .send
  | .deliver x r => s.sends.head? = some x ∧ s.recvs.head? = some r
  | .sendDone x => (s.senders x).pc = .completed
  | .recv r => s.receivers r = .recv
  | .recvDone r => s.receivers r = .completed
  | .addCompleted r => s.receivers r = .addCompleted
  | .addBytes r => s.receivers r = .addBytes
  | .exchangeCompleted => s.reporter = .exchangeCompleted
  | .exchangeBytes => s.reporter = .exchangeBytes

variable [DecidableEq ι] [DecidableEq κ]

instance (s : State ι κ) (a : Action ι κ) : Decidable (Enabled s a) :=
  match a with
  | .deliver .. => inferInstanceAs (Decidable (_ ∧ _))
  | .send _ | .sendDone _ => inferInstanceAs (Decidable (_ = _))
  | .recv _ | .recvDone _ | .addCompleted _ | .addBytes _ => inferInstanceAs (Decidable (_ = _))
  | .exchangeCompleted | .exchangeBytes => inferInstanceAs (Decidable (_ = _))

def State.setSender (s : State ι κ) (x : ι) (z : Sender) : State ι κ :=
  { s with senders := Function.update s.senders x z }

def State.setReceiver (s : State ι κ) (r : κ) (p : ReceiverPc) : State ι κ :=
  { s with receivers := Function.update s.receivers r p }

/-- What the statement does. -/
def next (kSendCount : Nat) (s : State ι κ) : Action ι κ → State ι κ
  | .send x =>
    { s.setSender x { s.senders x with pc := .sending } with sends := s.sends ++ [x] }
  | .deliver x r =>
    { (s.setSender x { s.senders x with pc := .completed }).setReceiver r .completed with
      sends := s.sends.tail
      recvs := s.recvs.tail
      arrived := s.arrived ++ [(x, (s.senders x).i)] }
  | .sendDone x => s.setSender x (.loop kSendCount ((s.senders x).i + 1))
  | .recv r => { s.setReceiver r .receiving with recvs := s.recvs ++ [r] }
  | .recvDone r => s.setReceiver r .addCompleted
  | .addCompleted r =>
    { s.setReceiver r .addBytes with totalCompleted := s.totalCompleted.fetchAdd 1 }
  | .addBytes r =>
    { s.setReceiver r .recv with
      totalBytes := s.totalBytes.fetchAdd (UInt64.ofNat kMsgSize) }
  | .exchangeCompleted =>
    { s with totalCompleted := s.totalCompleted.exchange, reporter := .exchangeBytes }
  | .exchangeBytes =>
    { s with totalBytes := s.totalBytes.exchange, reporter := .exchangeCompleted }

def machine (kSendCount : Nat) : Machine (State ι κ) (Action ι κ) :=
  .guarded Enabled (next kSendCount)

/-! ## 2. The queues -/

/-- The queue of those whose place is one to wait at. -/
structure Waiting {α β : Type*} (q : List α) (f : α → β) (p : β → Prop) : Prop where
  nodup : q.Nodup
  mem : ∀ x, x ∈ q ↔ p (f x)

section Waiting

variable {α β : Type*} [DecidableEq α] {q : List α} {f : α → β} {p : β → Prop} {x : α} {z : β}

theorem Waiting.stay (h : Waiting q f p) (hx : ¬ p (f x)) (hz : ¬ p z) :
    Waiting q (Function.update f x z) p := by
  refine ⟨h.nodup, fun y => ?_⟩
  rw [h.mem y]
  rcases eq_or_ne y x with rfl | hne
  · rw [Function.update_self]
    exact iff_of_false hx hz
  · rw [Function.update_of_ne hne]

theorem Waiting.push (h : Waiting q f p) (hx : ¬ p (f x)) (hz : p z) :
    Waiting (q ++ [x]) (Function.update f x z) p := by
  have hnot : x ∉ q := fun hm => hx ((h.mem x).mp hm)
  refine ⟨h.nodup.append (List.nodup_singleton x) (List.disjoint_singleton.mpr hnot), fun y => ?_⟩
  rw [List.mem_append, List.mem_singleton, h.mem y]
  rcases eq_or_ne y x with rfl | hne
  · rw [Function.update_self]
    exact iff_of_true (Or.inr rfl) hz
  · rw [Function.update_of_ne hne]
    exact or_iff_left hne

omit [DecidableEq α] in
theorem Waiting.head (h : Waiting q f p) (hx : q.head? = some x) : p (f x) :=
  (h.mem x).mp (List.mem_of_head? hx)

theorem Waiting.pop (h : Waiting q f p) (hx : q.head? = some x) (hz : ¬ p z) :
    Waiting q.tail (Function.update f x z) p := by
  obtain ⟨rest, rfl⟩ : ∃ rest, q = x :: rest := List.head?_eq_some_iff.mp hx
  obtain ⟨hnot, hnodup⟩ := List.nodup_cons.mp h.nodup
  refine ⟨hnodup, fun y => ?_⟩
  rw [List.tail_cons]
  rcases eq_or_ne y x with rfl | hne
  · rw [Function.update_self]
    exact iff_of_false hnot hz
  · rw [Function.update_of_ne hne, ← h.mem y, List.mem_cons]
    exact (or_iff_right hne).symm

end Waiting

/-- A sender's place in its loop. -/
structure Looping (kSendCount : Nat) (z : Sender) : Prop where
  bound : z.i ≤ kSendCount
  returned : z.pc = .returned ↔ z.i = kSendCount

/-- Who is in which queue, and which loops have ended. -/
structure Queues (kSendCount : Nat) (s : State ι κ) : Prop where
  sends : Waiting s.sends s.senders (·.pc = .sending)
  recvs : Waiting s.recvs s.receivers (· = .receiving)
  loop : ∀ x, Looping kSendCount (s.senders x)

variable {kSendCount : Nat} {s t : State ι κ} {a : Action ι κ} {x : ι} {r : κ}

theorem looping_loop {i : Nat} (h : i ≤ kSendCount) :
    Looping kSendCount (Sender.loop kSendCount i) := by
  refine ⟨h, ?_⟩
  unfold Sender.loop
  split
  · next hlt => exact iff_of_false nofun (Nat.ne_of_lt hlt)
  · next hnot => exact iff_of_true rfl (Nat.le_antisymm h (Nat.le_of_not_lt hnot))

theorem loop_ne_sending (i : Nat) : (Sender.loop kSendCount i).pc ≠ .sending := by
  unfold Sender.loop
  split <;> exact nofun

/-- A sender within its loop has messages left. -/
theorem Looping.lt {z : Sender} (h : Looping kSendCount z) (hz : z.pc ≠ .returned) :
    z.i < kSendCount :=
  Nat.lt_of_le_of_ne h.bound fun he => hz (h.returned.mpr he)

theorem Looping.stays {z : Sender} (h : Looping kSendCount z) (hz : z.pc ≠ .returned)
    {p : SenderPc} (hp : p ≠ .returned) : Looping kSendCount { z with pc := p } :=
  ⟨h.bound, iff_of_false hp (Nat.ne_of_lt (h.lt hz))⟩

omit [DecidableEq κ] in
theorem Looping.update (h : ∀ y, Looping kSendCount (s.senders y)) {z : Sender}
    (hz : Looping kSendCount z) (y : ι) :
    Looping kSendCount (Function.update s.senders x z y) := by
  rcases eq_or_ne y x with rfl | hne
  · rw [Function.update_self]
    exact hz
  · rw [Function.update_of_ne hne]
    exact h y

omit [DecidableEq ι] [DecidableEq κ] in
theorem queues_start : Queues kSendCount (State.start ι κ kSendCount) where
  sends := ⟨List.nodup_nil, fun _ => iff_of_false nofun (loop_ne_sending 0)⟩
  recvs := ⟨List.nodup_nil, fun _ => iff_of_false nofun nofun⟩
  loop _ := looping_loop (Nat.zero_le _)

theorem queues_step (h : Queues kSendCount s) (he : Enabled s a) :
    Queues kSendCount (next kSendCount s a) := by
  have other : ∀ {α : Type} {p q w : α}, p = q → q ≠ w → p ≠ w := fun hp hq => hp ▸ hq
  cases a with
  | send x =>
    exact ⟨h.sends.push (other he nofun) rfl, h.recvs,
      Looping.update h.loop ((h.loop x).stays (other he nofun) nofun)⟩
  | deliver x r =>
    obtain ⟨hx, hr⟩ := he
    exact ⟨h.sends.pop hx nofun, h.recvs.pop hr nofun,
      Looping.update h.loop ((h.loop x).stays (other (h.sends.head hx) nofun) nofun)⟩
  | sendDone x =>
    have hlt := (h.loop x).lt (other he nofun)
    exact ⟨h.sends.stay (other he nofun) (loop_ne_sending _), h.recvs,
      Looping.update h.loop (looping_loop hlt)⟩
  | recv r => exact ⟨h.sends, h.recvs.push (other he nofun) rfl, h.loop⟩
  | recvDone r | addCompleted r | addBytes r =>
    exact ⟨h.sends, h.recvs.stay (other he nofun) nofun, h.loop⟩
  | exchangeCompleted | exchangeBytes => exact ⟨h.sends, h.recvs, h.loop⟩

omit [DecidableEq ι] [DecidableEq κ] in
/-- Where only the reporter goes on, no message waits for a receive, and no receive is passed on. -/
theorem Queues.quiet [Nonempty κ] (h : Queues kSendCount s)
    (hq : ∀ a, Enabled s a → a.reports = true) :
    (∀ x, (s.senders x).pc = .returned) ∧ ∀ r, s.receivers r = .receiving := by
  have never : ∀ {a : Action ι κ}, a.reports = false → ¬ Enabled s a := fun ha he => by
    cases ha.symm.trans (hq _ he)
  have hreceiving : ∀ r, s.receivers r = .receiving := by
    intro r
    cases hr : s.receivers r with
    | recv => exact absurd hr (never (a := .recv r) rfl)
    | receiving => rfl
    | completed => exact absurd hr (never (a := .recvDone r) rfl)
    | addCompleted => exact absurd hr (never (a := .addCompleted r) rfl)
    | addBytes => exact absurd hr (never (a := .addBytes r) rfl)
  refine ⟨fun x => ?_, hreceiving⟩
  cases hx : (s.senders x).pc with
  | send => exact absurd hx (never (a := .send x) rfl)
  | sending =>
    -- a message is at the head of the one queue, a receive at that of the other
    obtain ⟨y, hy⟩ := Option.isSome_iff_exists.mp
      (List.isSome_head?.mpr (List.ne_nil_of_mem ((h.sends.mem x).mpr hx)))
    obtain ⟨r, hr⟩ := Option.isSome_iff_exists.mp (List.isSome_head?.mpr
      (List.ne_nil_of_mem ((h.recvs.mem (Classical.arbitrary κ)).mpr (hreceiving _))))
    exact absurd ⟨hy, hr⟩ (never (a := .deliver y r) rfl)
  | completed => exact absurd hx (never (a := .sendDone x) rfl)
  | returned => rfl

/-! ## 3. Messages and counters -/

/-- How many of its messages have arrived. -/
def Sender.sent (z : Sender) : Nat := z.i + if z.pc = .completed then 1 else 0

/-- The messages received and not counted yet, by a receiver at this place. -/
def ReceiverPc.uncounted : ReceiverPc → Nat
  | .completed | .addCompleted => 1
  | _ => 0

/-- Those whose bytes have not been counted yet. -/
def ReceiverPc.unsized : ReceiverPc → Nat
  | .completed | .addCompleted | .addBytes => 1
  | _ => 0

theorem sent_loop (i : Nat) : (Sender.loop kSendCount i).sent = i := by
  unfold Sender.loop Sender.sent
  split <;> rfl

/-- Each sender's messages arrive in order, each once. -/
def Messages (s : State ι κ) : Prop :=
  ∀ x, (s.arrived.filter fun m => m.1 = x).map Prod.snd = List.range (s.senders x).sent

omit [DecidableEq κ] in
theorem messages_start : Messages (State.start ι κ kSendCount) := fun _ =>
  congrArg List.range (sent_loop 0).symm

omit [DecidableEq κ] in
theorem Messages.sender (h : Messages s) {z : Sender} (hz : z.sent = (s.senders x).sent) :
    Messages (s.setSender x z) := by
  intro y
  show _ = List.range (Function.update s.senders x z y).sent
  rcases eq_or_ne y x with rfl | hne
  · rw [Function.update_self, hz]
    exact h y
  · rw [Function.update_of_ne hne]
    exact h y

theorem messages_step (hq : Queues kSendCount s) (h : Messages s) (he : Enabled s a) :
    Messages (next kSendCount s a) := by
  cases a with
  | send x =>
    have hx : (s.senders x).pc = .send := he
    exact h.sender (by simp [Sender.sent, hx])
  | deliver x r =>
    have hx : (s.senders x).pc = .sending := hq.sends.head he.1
    intro y
    show ((s.arrived ++ [(x, (s.senders x).i)]).filter fun m => m.1 = y).map Prod.snd =
      List.range (Function.update s.senders x { s.senders x with pc := .completed } y).sent
    rw [List.filter_append, List.map_append, h y]
    rcases eq_or_ne y x with rfl | hne
    · simp [Sender.sent, hx, List.range_succ]
    · simp [Function.update_of_ne hne, hne.symm]
  | sendDone x =>
    have hx : (s.senders x).pc = .completed := he
    exact h.sender (by rw [sent_loop]; simp [Sender.sent, hx])
  | _ => exact h

/-- A counter of `unit` a message, `n` of which have arrived and `owed` are not counted yet. -/
def Counter.Accounts (c : Counter) (unit : UInt64) (owed n : Nat) : Prop :=
  c.total + unit * UInt64.ofNat owed = unit * UInt64.ofNat n

section Accounts

variable {c : Counter} {unit : UInt64} {owed owed' n : Nat}

/-- A message arrives. -/
theorem Counter.Accounts.arrive (h : c.Accounts unit owed n) (ho : owed' = owed + 1) :
    c.Accounts unit owed' (n + 1) := by
  subst ho
  unfold Counter.Accounts at h ⊢
  rw [UInt64.ofNat_add, UInt64.ofNat_add, mul_add, mul_add, ← add_assoc, h]

/-- A receiver adds what it owes. -/
theorem Counter.Accounts.fetchAdd (h : c.Accounts unit owed n) (ho : owed' + 1 = owed) :
    (c.fetchAdd unit).Accounts unit owed' n := by
  subst ho
  unfold Counter.Accounts at h ⊢
  have hone : UInt64.ofNat 1 = 1 := rfl
  rw [Counter.total_fetchAdd, ← h, UInt64.ofNat_add, mul_add, hone, mul_one, add_assoc,
    add_comm unit]

/-- A receiver goes on and owes as much. -/
theorem Counter.Accounts.alone {d : Nat} (h : c.Accounts unit owed n)
    (ho : owed' + d = owed + d) : c.Accounts unit owed' n := by
  rw [Nat.add_right_cancel ho]
  exact h

theorem Counter.Accounts.exchange (h : c.Accounts unit owed n) :
    c.exchange.Accounts unit owed n := by
  unfold Counter.Accounts at h ⊢
  rw [Counter.total_exchange]
  exact h

end Accounts

/-- A sum in which one member changes. -/
theorem sum_update {α β : Type*} [Fintype α] [DecidableEq α] (g : β → Nat) (f : α → β) (x : α)
    (z : β) : ∑ y, g (Function.update f x z y) + g (f x) = ∑ y, g (f y) + g z := by
  have hrest : ∑ y ∈ Finset.univ.erase x, g (Function.update f x z y) =
      ∑ y ∈ Finset.univ.erase x, g (f y) :=
    Finset.sum_congr rfl fun y hy => by rw [Function.update_of_ne (Finset.ne_of_mem_erase hy)]
  have hnew := Finset.add_sum_erase Finset.univ (fun y => g (Function.update f x z y))
    (Finset.mem_univ x)
  have hold := Finset.add_sum_erase Finset.univ (fun y => g (f y)) (Finset.mem_univ x)
  simp only [Function.update_self, hrest] at hnew
  omega

variable [Fintype ι] [Fintype κ]

omit [DecidableEq ι] [Fintype ι] in
/-- A receiver goes from `p` to `q`. -/
theorem sum_receivers (g : ReceiverPc → Nat) (p q : ReceiverPc) (hr : s.receivers r = p) :
    ∑ y, g (Function.update s.receivers r q y) + g p = ∑ y, g (s.receivers y) + g q := by
  rw [← hr]
  exact sum_update g s.receivers r q

/-- What has been counted of the messages that have arrived. -/
structure Counts (s : State ι κ) : Prop where
  arrived : s.arrived.length = ∑ x, (s.senders x).sent
  completed : s.totalCompleted.Accounts 1 (∑ r, (s.receivers r).uncounted) s.arrived.length
  bytes : s.totalBytes.Accounts (UInt64.ofNat kMsgSize) (∑ r, (s.receivers r).unsized)
    s.arrived.length

omit [DecidableEq ι] [DecidableEq κ] in
theorem counts_start : Counts (State.start ι κ kSendCount) where
  arrived := by simp [State.start, sent_loop]
  completed := by simp [State.start, ReceiverPc.uncounted, Counter.Accounts, Counter.total]
  bytes := by simp [State.start, ReceiverPc.unsized, Counter.Accounts, Counter.total]

theorem counts_step (hq : Queues kSendCount s) (h : Counts s) (he : Enabled s a) :
    Counts (next kSendCount s a) := by
  have sent : ∀ x z, z.sent = (s.senders x).sent →
      s.arrived.length = ∑ y, (Function.update s.senders x z y).sent := fun x z hz =>
    h.arrived.trans (Nat.add_right_cancel
      ((sum_update Sender.sent s.senders x z).trans (congrArg _ hz))).symm
  have uncounted := fun {r : κ} => sum_receivers (s := s) (r := r) ReceiverPc.uncounted
  have unsized := fun {r : κ} => sum_receivers (s := s) (r := r) ReceiverPc.unsized
  cases a with
  | send x =>
    have hx : (s.senders x).pc = .send := he
    exact ⟨sent x _ (by simp [Sender.sent, hx]), h.completed, h.bytes⟩
  | deliver x r =>
    have hx : (s.senders x).pc = .sending := hq.sends.head he.1
    have hr : s.receivers r = .receiving := hq.recvs.head he.2
    have hlen : (next kSendCount s (.deliver x r)).arrived.length = s.arrived.length + 1 :=
      List.length_append
    refine ⟨?_, ?_, ?_⟩
    · rw [hlen, h.arrived]
      have hsum := sum_update Sender.sent s.senders x { s.senders x with pc := .completed }
      have hold : (s.senders x).sent = (s.senders x).i := by simp [Sender.sent, hx]
      have hnew : ({ s.senders x with pc := .completed } : Sender).sent = (s.senders x).i + 1 := rfl
      show _ = ∑ y, (Function.update s.senders x { s.senders x with pc := .completed } y).sent
      omega
    · rw [hlen]
      exact h.completed.arrive (uncounted .receiving .completed hr)
    · rw [hlen]
      exact h.bytes.arrive (unsized .receiving .completed hr)
  | sendDone x =>
    have hx : (s.senders x).pc = .completed := he
    exact ⟨sent x _ (by rw [sent_loop]; simp [Sender.sent, hx]), h.completed, h.bytes⟩
  | recv r =>
    exact ⟨h.arrived, h.completed.alone (uncounted .recv .receiving he),
      h.bytes.alone (unsized .recv .receiving he)⟩
  | recvDone r =>
    exact ⟨h.arrived, h.completed.alone (uncounted .completed .addCompleted he),
      h.bytes.alone (unsized .completed .addCompleted he)⟩
  | addCompleted r =>
    exact ⟨h.arrived, h.completed.fetchAdd (uncounted .addCompleted .addBytes he),
      h.bytes.alone (unsized .addCompleted .addBytes he)⟩
  | addBytes r =>
    exact ⟨h.arrived, h.completed.alone (uncounted .addBytes .recv he),
      h.bytes.fetchAdd (unsized .addBytes .recv he)⟩
  | exchangeCompleted => exact ⟨h.arrived, h.completed.exchange, h.bytes⟩
  | exchangeBytes => exact ⟨h.arrived, h.completed, h.bytes.exchange⟩

structure Inv (kSendCount : Nat) (s : State ι κ) : Prop where
  queues : Queues kSendCount s
  messages : Messages s
  counts : Counts s

theorem inv_step (h : Inv kSendCount s) (ht : (machine kSendCount).step s a = some t) :
    Inv kSendCount t := by
  obtain ⟨he, rfl⟩ := Machine.guarded_step_eq_some.mp ht
  exact ⟨queues_step h.queues he, messages_step h.queues h.messages he,
    counts_step h.queues h.counts he⟩

omit [DecidableEq κ] in
theorem inv_start : Inv kSendCount (State.start ι κ kSendCount) :=
  ⟨queues_start, messages_start, counts_start⟩

theorem inv_reach (h : (machine kSendCount).Reach (State.start ι κ kSendCount) s) :
    Inv kSendCount s :=
  h.invariant inv_start fun _ _ _ hi _ ht => inv_step hi ht

theorem Looping.sent_le {z : Sender} (h : Looping kSendCount z) : z.sent ≤ kSendCount := by
  unfold Sender.sent
  split
  · next hz => exact h.lt (by rw [hz]; nofun)
  · exact h.bound

/-- **No message is lost to the report, and none counted twice.** In every state, for any number of
    senders and receivers and however they and the reporter interleave: each sender's messages have
    arrived in order, each once; what the reporter has taken of each counter and what it holds are
    the messages that have arrived and are counted, and their bytes, as numbers of 64 bits. -/
theorem bandwidth_accounted (kSendCount : Nat) (s : State ι κ)
    (h : (machine kSendCount).Reach (State.start ι κ kSendCount) s) :
    (∀ x, (s.arrived.filter fun m => m.1 = x).map Prod.snd = List.range (s.senders x).sent ∧
      (s.senders x).sent ≤ kSendCount) ∧
    s.arrived.length = ∑ x, (s.senders x).sent ∧
    s.totalCompleted.taken.sum + s.totalCompleted.value +
        UInt64.ofNat (∑ r, (s.receivers r).uncounted) = UInt64.ofNat s.arrived.length ∧
    s.totalBytes.taken.sum + s.totalBytes.value +
        UInt64.ofNat (kMsgSize * ∑ r, (s.receivers r).unsized) =
      UInt64.ofNat (kMsgSize * s.arrived.length) := by
  have hi := inv_reach h
  refine ⟨fun x => ⟨hi.messages x, (hi.queues.loop x).sent_le⟩, hi.counts.arrived, ?_, ?_⟩
  · have hc := hi.counts.completed
    unfold Counter.Accounts at hc
    rwa [one_mul, one_mul] at hc
  · rw [UInt64.ofNat_mul, UInt64.ofNat_mul]
    exact hi.counts.bytes

/-! ## 4. The end -/

/-- What a sender with `n` messages to be acknowledged has still to do; a message pays for the
    statements of its receiver, too. -/
def SenderPc.left (n : Nat) : SenderPc → Nat
  | .send => 7 * n
  | .sending => 7 * n - 1
  | .completed => 7 * n - 6
  | .returned => 0

def Sender.left (kSendCount : Nat) (z : Sender) : Nat := z.pc.left (kSendCount - z.i)

/-- What a receiver has still to do until it waits. -/
def ReceiverPc.left : ReceiverPc → Nat
  | .recv => 1
  | .receiving => 0
  | .completed => 4
  | .addCompleted => 3
  | .addBytes => 2

def State.left (kSendCount : Nat) (s : State ι κ) : Nat :=
  ∑ x, (s.senders x).left kSendCount + ∑ r, (s.receivers r).left

theorem left_loop (i : Nat) :
    (Sender.loop kSendCount i).left kSendCount = 7 * (kSendCount - i) := by
  unfold Sender.left Sender.loop
  split
  · rfl
  · show 0 = 7 * (kSendCount - i)
    omega

/-- **Every statement but the reporter's leaves less to do.** -/
theorem left_step (h : Queues kSendCount s) (he : Enabled s a) :
    (next kSendCount s a).left kSendCount + (!a.reports).toNat ≤ s.left kSendCount := by
  -- the places of the sender that moves, and of the receiver
  have sender : ∀ {x : ι} {p : SenderPc} (z : Sender) (d e : Nat), (s.senders x).pc = p →
      z.left kSendCount + d ≤ p.left (kSendCount - (s.senders x).i) + e →
      ∑ y, (Function.update s.senders x z y).left kSendCount + d ≤
        ∑ y, (s.senders y).left kSendCount + e := by
    intro x p z d e hx hz
    have hsum := sum_update (Sender.left kSendCount) s.senders x z
    have hold : (s.senders x).left kSendCount = p.left (kSendCount - (s.senders x).i) := by
      rw [← hx]
      rfl
    omega
  have receiver : ∀ {r : κ} {p : ReceiverPc} (q : ReceiverPc) (d e : Nat), s.receivers r = p →
      q.left + d ≤ p.left + e →
      ∑ y, (Function.update s.receivers r q y).left + d ≤ ∑ y, (s.receivers y).left + e := by
    intro r p q d e hr hq
    have hsum := sum_receivers ReceiverPc.left p q hr
    omega
  have lt : ∀ {x : ι} {p : SenderPc}, (s.senders x).pc = p → p ≠ .returned →
      (s.senders x).i < kSendCount := fun hx hp => (h.loop _).lt (hx ▸ hp)
  cases a with
  | send x =>
    have hlt := lt he nofun
    have hs := sender { s.senders x with pc := .sending } 1 0 he (by
      simp only [Sender.left, SenderPc.left]
      omega)
    exact Nat.add_right_comm _ _ _ ▸ Nat.add_le_add_right hs _
  | deliver x r =>
    have hx : (s.senders x).pc = .sending := h.sends.head he.1
    have hr : s.receivers r = .receiving := h.recvs.head he.2
    have hlt := lt hx nofun
    have hs := sender { s.senders x with pc := .completed } 5 0 hx (by
      simp only [Sender.left, SenderPc.left]
      omega)
    have hw := receiver .completed 0 4 hr (Nat.le_refl _)
    show ∑ y, (Function.update s.senders x _ y).left kSendCount +
      ∑ y, (Function.update s.receivers r .completed y).left + 1 ≤ _
    unfold State.left
    omega
  | sendDone x =>
    have hlt := lt he nofun
    have hs := sender (.loop kSendCount ((s.senders x).i + 1)) 1 0 he (by
      rw [left_loop]
      simp only [SenderPc.left]
      omega)
    exact Nat.add_right_comm _ _ _ ▸ Nat.add_le_add_right hs _
  | recv r => exact Nat.add_le_add_left (receiver .receiving 1 0 he (Nat.le_refl _)) _
  | recvDone r => exact Nat.add_le_add_left (receiver .addCompleted 1 0 he (Nat.le_refl _)) _
  | addCompleted r => exact Nat.add_le_add_left (receiver .addBytes 1 0 he (Nat.le_refl _)) _
  | addBytes r => exact Nat.add_le_add_left (receiver .recv 1 0 he (Nat.le_refl _)) _
  | exchangeCompleted | exchangeBytes => exact Nat.le_refl _

omit [DecidableEq ι] [DecidableEq κ] in
theorem left_start : (State.start ι κ kSendCount).left kSendCount =
    7 * kSendCount * Fintype.card ι + Fintype.card κ := by
  have hs : ∑ x : ι, ((State.start ι κ kSendCount).senders x).left kSendCount =
      Fintype.card ι * (7 * kSendCount) := Finset.sum_const_nat fun _ _ => left_loop 0
  have hr : ∑ r : κ, ((State.start ι κ kSendCount).receivers r).left = Fintype.card κ * 1 :=
    Finset.sum_const_nat fun _ _ => rfl
  unfold State.left
  rw [hs, hr, Nat.mul_one, Nat.mul_comm]

/-- **The client comes to its end.** No run makes more than `7 * kSendCount` statements a sender and
    one a receiver, besides the reporter's; and where only the reporter goes on, every sender has
    returned, every receiver waits, and taken and held together are all messages there were. -/
theorem bandwidth_finishes [Nonempty κ] (kSendCount : Nat) :
    (∀ n (s : State ι κ), (machine kSendCount).Takes (fun _ _ => True) (fun a => !a.reports)
      (State.start ι κ kSendCount) n s → n ≤ 7 * kSendCount * Fintype.card ι + Fintype.card κ) ∧
    ∀ s : State ι κ, (machine kSendCount).Reach (State.start ι κ kSendCount) s →
      (∀ a, Enabled s a → a.reports = true) →
      (∀ x, (s.senders x).pc = .returned) ∧ (∀ r, s.receivers r = .receiving) ∧
      s.totalCompleted.taken.sum + s.totalCompleted.value =
        UInt64.ofNat (kSendCount * Fintype.card ι) ∧
      s.totalBytes.taken.sum + s.totalBytes.value =
        UInt64.ofNat (kMsgSize * (kSendCount * Fintype.card ι)) := by
  constructor
  · intro n s h
    have hle := h.le_measure (P := Inv kSendCount) (μ := State.left kSendCount) inv_start
      (fun _ _ _ hi _ ht => inv_step hi ht) fun u a v hi _ ht => by
        obtain ⟨he, rfl⟩ := Machine.guarded_step_eq_some.mp ht
        exact left_step hi.queues he
    rw [left_start] at hle
    omega
  · intro s h hq
    have hi := inv_reach h
    obtain ⟨hs, hr⟩ := hi.queues.quiet hq
    have hlen : s.arrived.length = kSendCount * Fintype.card ι := by
      have hsent : ∀ x, (s.senders x).sent = kSendCount := fun x => by
        have hx := ((hi.queues.loop x).returned).mp (hs x)
        simp [Sender.sent, hs x, hx]
      rw [hi.counts.arrived, Finset.sum_const_nat fun x _ => hsent x, Nat.mul_comm]
      rfl
    have hc := hi.counts.completed
    have hb := hi.counts.bytes
    have huncounted : ∑ r, (s.receivers r).uncounted = 0 :=
      Finset.sum_eq_zero fun r _ => by rw [hr r]; rfl
    have hunsized : ∑ r, (s.receivers r).unsized = 0 :=
      Finset.sum_eq_zero fun r _ => by rw [hr r]; rfl
    have hzero : UInt64.ofNat 0 = 0 := rfl
    unfold Counter.Accounts at hc hb
    rw [huncounted, hlen, hzero, mul_zero, add_zero, one_mul] at hc
    rw [hunsized, hlen, hzero, mul_zero, add_zero, ← UInt64.ofNat_mul] at hb
    exact ⟨hs, hr, hc, hb⟩

end Machine

/-- One message, counted, reported and not yet sized. -/
theorem bandwidth_accounted_one : ∃ s : State Unit Unit,
    (machine 1).Reach (State.start Unit Unit 1) s ∧ s.totalCompleted.taken = [1] ∧
      s.totalBytes.taken.sum + s.totalBytes.value + UInt64.ofNat (kMsgSize * 1) =
        UInt64.ofNat (kMsgSize * 1) := by
  obtain ⟨s, hs, hp⟩ := Machine.exists_reach_of_run (M := machine 1) (s := State.start Unit Unit 1)
    [.send (), .recv (), .deliver () (), .recvDone (), .addCompleted (), .exchangeCompleted]
    (fun s => s.totalCompleted.taken = [1] ∧ s.arrived.length = 1 ∧ s.receivers () = .addBytes)
    (by decide)
  obtain ⟨ht, hlen, hr⟩ := of_decide_eq_true hp
  obtain ⟨-, -, -, hbytes⟩ := bandwidth_accounted 1 s hs
  rw [hlen] at hbytes
  simp only [Finset.univ_unique, Finset.sum_singleton, PUnit.default_eq_unit, hr] at hbytes
  exact ⟨s, hs, ht, hbytes⟩

/-- One message, and nothing left to do. -/
theorem bandwidth_finishes_one : ∃ s : State Unit Unit,
    (machine 1).Reach (State.start Unit Unit 1) s ∧ (s.senders ()).pc = .returned ∧
      s.totalCompleted.taken.sum + s.totalCompleted.value = 1 := by
  obtain ⟨s, hs, hp⟩ := Machine.exists_reach_of_run (M := machine 1) (s := State.start Unit Unit 1)
    [.send (), .recv (), .deliver () (), .recvDone (), .addCompleted (), .exchangeCompleted,
      .addBytes (), .recv (), .sendDone ()]
    (fun s => (s.senders ()).pc = .returned ∧ s.receivers () = .receiving ∧ s.sends = [])
    (by decide)
  obtain ⟨hx, hr, hsends⟩ := of_decide_eq_true hp
  have hquiet : ∀ a, Enabled s a → a.reports = true := by
    intro a he
    cases a with
    | send x | sendDone x => cases hx.symm.trans he
    | deliver x r => cases (congrArg List.head? hsends).symm.trans he.1
    | recv r | recvDone r | addCompleted r | addBytes r => cases hr.symm.trans he
    | exchangeCompleted | exchangeBytes => rfl
  obtain ⟨-, -, hc, -⟩ := (bandwidth_finishes 1).2 s hs hquiet
  exact ⟨s, hs, hx, hc⟩

end Rdmapp.SendBw
