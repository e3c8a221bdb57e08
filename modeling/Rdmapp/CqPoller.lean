/-
  File:      Rdmapp/CqPoller.lean
  Subject:   THE LOOP OF `basic_cq_poller::worker`, statement by statement.

  The worker polls into its `wc_vec_`, of which only the first `nr_wc` entries are new, hands that
  part to `process_wc`, and starts over until a stop is requested; a failed poll ends it for good.
  Here any number of workers run beside the operations they serve, each worker reading its entries
  out of its `wc_vec_` and nowhere else.

  `worker_reach`: what such a system does, `Lib.Client` does, whose queues are dispatched in batches
  of entries that belong together by definition. So the results about clients hold of the loop.
-/
import Rdmapp.Lib.Progress
import Rdmapp.Native

namespace Rdmapp.CqPoller

open Lib

/-! ## 1. The worker -/

/-- The next statement of `worker`. -/
inductive WorkerPc where
  /-- `while (!token.stop_requested())`. -/
  | test
  /-- `nr_wc = cq_->poll(wc_vec_)`. -/
  | poll
  /-- `if (!nr_wc) continue`. -/
  | check (nrWc : Nat)
  /-- `process_wc` on the first `nr_wc` entries, at entry `i`. -/
  | process (nrWc i : Nat)
  /-- The loop was left at a stop request. -/
  | stopped
  /-- The handler of a `std::runtime_error` returned. -/
  | failed (e : Exc)
  deriving DecidableEq

/-- `basic_cq_poller`, with the stop state of its `poller_thread_`. -/
structure Poller (ε : Type*) where
  wcVec : List ε
  stopRequested : Bool
  pc : WorkerPc

/-- The constructor: `batch_size` entries without content, then the thread. -/
def Poller.start {ε : Type*} (blank : ε) (batchSize : Nat) : Poller ε :=
  ⟨List.replicate batchSize blank, false, .test⟩

/-- `cq::poll(It, int)`, by what `ibv_poll_cq` returns. -/
def cqPoll (strerror : Int → String) (rc : Int) : Except Exc Nat :=
  if rc < 0 then
    .error (.runtimeError
      (snprintf ("failed to poll cq: " ++ strerror rc ++ " (rc=" ++ toString rc ++ ")")))
  else .ok rc.toNat

/-- `ibv_poll_cq` writes `n` entries of the queue to the front of the array. -/
def fill {ε : Type*} (wcVec queue : List ε) (n : Nat) : List ε := queue.take n ++ wcVec.drop n

/-- The entries polled whose callbacks have not been executed. -/
def Poller.remaining {ε : Type*} (p : Poller ε) : List ε :=
  match p.pc with
  | .check n => p.wcVec.take n
  | .process n i => (p.wcVec.take n).drop i
  | _ => []

/-- The worker is inside the part of `wc_vec_` it polled. -/
def Poller.Within {ε : Type*} (p : Poller ε) : Prop :=
  match p.pc with
  | .check n => n ≤ p.wcVec.length
  | .process n i => i ≤ n ∧ n ≤ p.wcVec.length
  | _ => True

/-- The worker has returned. -/
def WorkerPc.out : WorkerPc → Bool
  | .stopped | .failed _ => true
  | _ => false

/-! ## 2. Workers and operations -/

/-- The operations with their queues, and the poller of each queue. `executed` are the entries whose
    callbacks a poller has executed, in order. -/
structure State (ι κ A ε σ : Type*) where
  ops : Client.State ι κ A ε σ
  poller : κ → Poller ε
  executed : κ → List ε

inductive Action (ι κ ε : Type*) where
  /-- A step of an operation, or the adapter generates an entry. -/
  | op (a : Client.Action ι κ ε)
  /-- `~jthread` requests a stop. -/
  | requestStop (c : κ)
  /-- The worker's next statement; `rc` is what `ibv_poll_cq` returns if that is a poll. -/
  | work (c : κ) (rc : Int)

/-- The steps of a client that a poller does not make. -/
def ofClient {ι κ ε : Type*} : Client.Action ι κ ε → Bool
  | .poll .. | .dispatch _ => false
  | _ => true

section Step

variable {ι κ A ε σ : Type*}

/-- Nothing has happened; the pollers' threads have been started. -/
def init (C : Client ι κ A ε σ) (blank : ε) : State ι κ A ε σ where
  ops := C.init
  poller c := Poller.start blank (C.batchSize c)
  executed _ := []

variable [DecidableEq κ]

def State.setPc (s : State ι κ A ε σ) (c : κ) (pc : WorkerPc) : State ι κ A ε σ :=
  { s with poller := Function.update s.poller c { s.poller c with pc := pc } }

/-- `ibv_poll_cq` returns `n`: so many entries leave the queue for `wc_vec_`. -/
def State.polled (s : State ι κ A ε σ) (c : κ) (n : Nat) : State ι κ A ε σ :=
  let p := s.poller c
  { s with
    ops := { s.ops with batch := Function.update s.ops.batch c ((s.ops.queue c).take n)
                        queue := Function.update s.ops.queue c ((s.ops.queue c).drop n) }
    poller := Function.update s.poller c
      { p with wcVec := fill p.wcVec ((s.ops.queue c).map Prod.snd) n, pc := .check n } }

variable [DecidableEq ι] [DecidableEq A]

/-- `execute_callback` on an entry, for whatever lives at its `wr_id`. -/
def State.execute (C : Client ι κ A ε σ) (s : State ι κ A ε σ) (c : κ) (e : ε) :
    State ι κ A ε σ :=
  { s with
    ops := C.deliverTo
      { s.ops with batch := Function.update s.ops.batch c (s.ops.batch c).tail
                   seen := Function.update s.ops.seen c
                     (s.ops.seen c ++ (s.ops.batch c).take 1) } e
    executed := Function.update s.executed c (s.executed c ++ [e]) }

variable (strerror : Int → String) (C : Client ι κ A ε σ)

/-- The worker's next statement. -/
def work (s : State ι κ A ε σ) (c : κ) (rc : Int) : Option (State ι κ A ε σ) :=
  let p := s.poller c
  match p.pc with
  | .test => some (s.setPc c (if p.stopRequested then .stopped else .poll))
  | .poll =>
    match cqPoll strerror rc with
    | .error e => some (s.setPc c (.failed e))
    | .ok n =>
      -- no more than fit, and no more than there are
      if n ≤ p.wcVec.length ∧ n ≤ (s.ops.queue c).length then some (s.polled c n) else none
  | .check n => some (s.setPc c (if n = 0 then .test else .process n 0))
  | .process n i =>
    if i < n then
      p.wcVec[i]?.map fun e => (s.execute C c e).setPc c (.process n (i + 1))
    else some (s.setPc c .test)
  | .stopped => none
  | .failed _ => none

def step (s : State ι κ A ε σ) : Action ι κ ε → Option (State ι κ A ε σ)
  | .op a => if ofClient a then (C.step s.ops a).map fun ops => { s with ops := ops } else none
  | .requestStop c =>
    some { s with poller := Function.update s.poller c { s.poller c with stopRequested := true } }
  | .work c rc => work strerror C s c rc

def machine : Machine (State ι κ A ε σ) (Action ι κ ε) := ⟨step strerror C⟩

end Step

/-! ## 3. What a statement does -/

section Works

variable {ι κ A ε σ : Type*} [DecidableEq ι] [DecidableEq κ] [DecidableEq A]
  {strerror : Int → String} {C : Client ι κ A ε σ} {s t : State ι κ A ε σ} {c d : κ} {rc : Int}

omit [DecidableEq ι] [DecidableEq κ] [DecidableEq A] in
theorem cqPoll_error {e : Exc} (h : cqPoll strerror rc = .error e) : rc < 0 := by
  unfold cqPoll at h
  split at h
  · assumption
  · cases h

omit [DecidableEq ι] [DecidableEq κ] [DecidableEq A] in
theorem cqPoll_ok {n : Nat} (h : cqPoll strerror rc = .ok n) : rc = n := by
  unfold cqPoll at h
  split at h
  · cases h
  · cases h
    omega

/-- The statements of the worker of `c`, one constructor for each way one can go. -/
inductive Works (C : Client ι κ A ε σ) (s : State ι κ A ε σ) (c : κ) (rc : Int) :
    State ι κ A ε σ → Prop
  | tested (hp : (s.poller c).pc = .test) :
      Works C s c rc (s.setPc c (if (s.poller c).stopRequested then .stopped else .poll))
  | failed (e : Exc) (hp : (s.poller c).pc = .poll) (hrc : rc < 0) :
      Works C s c rc (s.setPc c (.failed e))
  | polled (n : Nat) (hp : (s.poller c).pc = .poll) (hrc : rc = n)
      (hv : n ≤ (s.poller c).wcVec.length) (hq : n ≤ (s.ops.queue c).length) :
      Works C s c rc (s.polled c n)
  | checked (n : Nat) (hp : (s.poller c).pc = .check n) :
      Works C s c rc (s.setPc c (if n = 0 then .test else .process n 0))
  | executed (n i : Nat) (e : ε) (hp : (s.poller c).pc = .process n i) (hi : i < n)
      (he : (s.poller c).wcVec[i]? = some e) :
      Works C s c rc ((s.execute C c e).setPc c (.process n (i + 1)))
  | done (n i : Nat) (hp : (s.poller c).pc = .process n i) (hi : n ≤ i) :
      Works C s c rc (s.setPc c .test)

omit [DecidableEq A] in
theorem works_of_work (h : work strerror C s c rc = some t) : Works C s c rc t := by
  unfold work at h
  dsimp only at h
  split at h
  · next hp =>
    cases h
    exact .tested hp
  · next hp =>
    split at h
    · next e hrc =>
      cases h
      exact .failed e hp (cqPoll_error hrc)
    · next n hrc =>
      split at h
      · next hn =>
        cases h
        exact .polled n hp (cqPoll_ok hrc) hn.1 hn.2
      · cases h
  · next n hp =>
    cases h
    exact .checked n hp
  · next n i hp =>
    split at h
    · next hi =>
      obtain ⟨e, he, rfl⟩ := Option.map_eq_some_iff.mp h
      exact .executed n i e hp hi he
    · next hi =>
      cases h
      exact .done n i hp (Nat.le_of_not_lt hi)
  · cases h
  · cases h

omit [DecidableEq ι] [DecidableEq A] in
theorem setPc_poller (s : State ι κ A ε σ) (c : κ) (pc : WorkerPc) :
    (s.setPc c pc).poller c = { s.poller c with pc := pc } := Function.update_self _ _ _

omit [DecidableEq ι] [DecidableEq A] in
theorem setPc_poller_of_ne (h : d ≠ c) (pc : WorkerPc) : (s.setPc c pc).poller d = s.poller d :=
  Function.update_of_ne h _ _

omit [DecidableEq κ] [DecidableEq A] in
/-- Delivering an entry leaves the queues alone. -/
theorem deliverTo_queues (C : Client ι κ A ε σ) (l : Client.State ι κ A ε σ) (e : ε) :
    (C.deliverTo l e).batch = l.batch ∧ (C.deliverTo l e).seen = l.seen ∧
      (C.deliverTo l e).queue = l.queue ∧ (C.deliverTo l e).generated = l.generated := by
  unfold Client.deliverTo
  split
  · exact ⟨rfl, rfl, rfl, rfl⟩
  · split <;> exact ⟨rfl, rfl, rfl, rfl⟩

/-- The steps of an operation leave the entries of a poller alone. -/
theorem ofClient_step {a : Client.Action ι κ ε} {l l' : Client.State ι κ A ε σ}
    (ha : ofClient a = true) (h : C.step l a = some l') :
    l'.batch = l.batch ∧ l'.seen = l.seen := by
  cases Client.moves_of_step h with
  | polled | delivered | strayed => cases ha
  | _ => exact ⟨rfl, rfl⟩

/-! ## 4. The invariant of a poller -/

/-- What the worker has of the queue it polls. -/
structure PollerInv (C : Client ι κ A ε σ) (s : State ι κ A ε σ) (c : κ) : Prop where
  size : (s.poller c).wcVec.length = C.batchSize c
  /-- The part of `wc_vec_` not executed yet is what the worker polled last and no more. -/
  batch : (s.ops.batch c).map Prod.snd = (s.poller c).remaining
  within : (s.poller c).Within
  executed : s.executed c = (s.ops.seen c).map Prod.snd

omit [DecidableEq ι] [DecidableEq κ] [DecidableEq A] in
theorem pollerInv_init (C : Client ι κ A ε σ) (blank : ε) (c : κ) :
    PollerInv C (init C blank) c where
  size := List.length_replicate
  batch := rfl
  within := trivial
  executed := rfl

omit [DecidableEq ι] [DecidableEq κ] [DecidableEq A] in
/-- A poller whose part of the state is as it was keeps the invariant. -/
theorem PollerInv.congr (h : PollerInv C s c) (hp : t.poller c = s.poller c)
    (hb : t.ops.batch c = s.ops.batch c) (hs : t.ops.seen c = s.ops.seen c)
    (he : t.executed c = s.executed c) : PollerInv C t c where
  size := by rw [hp]; exact h.size
  batch := by rw [hp, hb]; exact h.batch
  within := by rw [hp]; exact h.within
  executed := by rw [he, hs]; exact h.executed

omit [DecidableEq ι] [DecidableEq A] in
/-- A jump to a statement with the same entries remaining. -/
theorem PollerInv.jump (h : PollerInv C s c) (pc : WorkerPc)
    (hr : ({ s.poller c with pc := pc } : Poller ε).remaining = (s.poller c).remaining)
    (hw : ({ s.poller c with pc := pc } : Poller ε).Within) : PollerInv C (s.setPc c pc) c where
  size := by rw [setPc_poller]; exact h.size
  batch := by rw [setPc_poller, hr]; exact h.batch
  within := by rw [setPc_poller]; exact hw
  executed := h.executed

omit [DecidableEq ι] [DecidableEq A] in
/-- A poll: `wc_vec_` begins with the new entries. -/
theorem PollerInv.poll (h : PollerInv C s c) {n : Nat} (hv : n ≤ (s.poller c).wcVec.length)
    (hq : n ≤ (s.ops.queue c).length) : PollerInv C (s.polled c n) c := by
  have hpoller : (s.polled c n).poller c = { s.poller c with
      wcVec := fill (s.poller c).wcVec ((s.ops.queue c).map Prod.snd) n, pc := .check n } :=
    Function.update_self _ _ _
  have hlen : (((s.ops.queue c).map Prod.snd).take n).length = n := by
    rw [List.length_take, List.length_map]
    exact Nat.min_eq_left hq
  refine ⟨?_, ?_, ?_, h.executed⟩
  · rw [hpoller]
    show (fill _ _ n).length = _
    unfold fill
    rw [List.length_append, hlen, List.length_drop, Nat.add_sub_cancel' hv, h.size]
  · rw [hpoller]
    show ((Function.update s.ops.batch c ((s.ops.queue c).take n)) c).map Prod.snd =
      (fill _ _ n).take n
    unfold fill
    rw [Function.update_self, List.take_append_of_le_length (Nat.le_of_eq hlen.symm),
      List.take_take, Nat.min_self, List.map_take]
  · rw [hpoller]
    show n ≤ (fill _ _ n).length
    unfold fill
    rw [List.length_append, hlen]
    exact Nat.le_add_right _ _

omit [DecidableEq ι] [DecidableEq κ] [DecidableEq A] in
/-- The entry the worker reads at `i` is the oldest of its batch. -/
theorem PollerInv.front (h : PollerInv C s c) {n i : Nat} {e : ε}
    (hp : (s.poller c).pc = .process n i) (hi : i < n) (he : (s.poller c).wcVec[i]? = some e) :
    ∃ p rest, s.ops.batch c = p :: rest ∧ p.2 = e ∧
      rest.map Prod.snd = ((s.poller c).wcVec.take n).drop (i + 1) := by
  have hbatch := h.batch
  unfold Poller.remaining at hbatch
  rw [hp] at hbatch
  dsimp only at hbatch
  have htake : ((s.poller c).wcVec.take n)[i]? = some e := by
    rw [List.getElem?_take_of_lt hi]
    exact he
  obtain ⟨hlt, hget⟩ := List.getElem?_eq_some_iff.mp htake
  rw [List.drop_eq_getElem_cons hlt, hget] at hbatch
  obtain ⟨p, rest, hb, hpe, hrest⟩ := List.map_eq_cons_iff.mp hbatch
  exact ⟨p, rest, hb, hpe, hrest⟩

omit [DecidableEq A] in
/-- `execute_callback` on the oldest entry of the batch. -/
theorem PollerInv.execute (h : PollerInv C s c) {n i : Nat} {e : ε}
    (hp : (s.poller c).pc = .process n i) (hi : i < n) (he : (s.poller c).wcVec[i]? = some e) :
    PollerInv C ((s.execute C c e).setPc c (.process n (i + 1))) c := by
  obtain ⟨p, rest, hb, rfl, hrest⟩ := h.front hp hi he
  have hq := deliverTo_queues C
    { s.ops with batch := Function.update s.ops.batch c (s.ops.batch c).tail
                 seen := Function.update s.ops.seen c (s.ops.seen c ++ (s.ops.batch c).take 1) } p.2
  refine ⟨?_, ?_, ?_, ?_⟩
  · rw [setPc_poller]
    exact h.size
  · rw [setPc_poller]
    show ((C.deliverTo _ p.2).batch c).map Prod.snd = _
    rw [hq.1]
    dsimp only
    rw [Function.update_self, hb]
    exact hrest
  · rw [setPc_poller]
    have hw := h.within
    unfold Poller.Within at hw
    rw [hp] at hw
    exact ⟨hi, hw.2⟩
  · show Function.update s.executed c (s.executed c ++ [p.2]) c =
      ((C.deliverTo _ p.2).seen c).map Prod.snd
    rw [hq.2.1]
    dsimp only
    rw [Function.update_self, Function.update_self, hb, List.map_append, ← h.executed]
    rfl

omit [DecidableEq A] in
/-- **Every statement of the worker keeps its invariant.** -/
theorem PollerInv.works (h : PollerInv C s c) (hs : Works C s c rc t) : PollerInv C t c := by
  cases hs with
  | tested hp =>
    cases (s.poller c).stopRequested with
    | false =>
      refine h.jump .poll ?_ trivial
      unfold Poller.remaining
      rw [hp]
    | true =>
      refine h.jump .stopped ?_ trivial
      unfold Poller.remaining
      rw [hp]
  | failed e hp hrc =>
    refine h.jump _ ?_ trivial
    unfold Poller.remaining
    rw [hp]
  | polled n hp hrc hv hq => exact h.poll hv hq
  | checked n hp =>
    by_cases hn : n = 0
    · rw [if_pos hn]
      refine h.jump _ ?_ trivial
      unfold Poller.remaining
      rw [hp, hn]
      exact List.take_zero.symm
    · rw [if_neg hn]
      refine h.jump _ ?_ ?_
      · unfold Poller.remaining
        rw [hp]
        rfl
      · have hw := h.within
        unfold Poller.Within at hw
        rw [hp] at hw
        exact ⟨Nat.zero_le n, hw⟩
  | executed n i e hp hi he => exact h.execute hp hi he
  | done n i hp hi =>
    refine h.jump _ ?_ trivial
    have hlen : ((s.poller c).wcVec.take n).length ≤ i :=
      Nat.le_trans (List.length_take_le _ _) hi
    unfold Poller.remaining
    rw [hp]
    exact (List.drop_eq_nil_of_le hlen).symm

omit [DecidableEq A] in
/-- It leaves the other pollers as they are. -/
theorem Works.other (hs : Works C s c rc t) (hd : d ≠ c) :
    t.poller d = s.poller d ∧ t.ops.batch d = s.ops.batch d ∧ t.ops.seen d = s.ops.seen d ∧
      t.executed d = s.executed d := by
  cases hs with
  | polled n hp hrc hv hq =>
    exact ⟨Function.update_of_ne hd _ _, Function.update_of_ne hd _ _, rfl, rfl⟩
  | executed n i e hp hi he =>
    have hq := deliverTo_queues C
      { s.ops with batch := Function.update s.ops.batch c (s.ops.batch c).tail
                   seen := Function.update s.ops.seen c (s.ops.seen c ++ (s.ops.batch c).take 1) } e
    refine ⟨setPc_poller_of_ne hd _, ?_, ?_, Function.update_of_ne hd _ _⟩
    · show (C.deliverTo _ e).batch d = _
      rw [hq.1]
      exact Function.update_of_ne hd _ _
    · show (C.deliverTo _ e).seen d = _
      rw [hq.2.1]
      exact Function.update_of_ne hd _ _
  | _ => exact ⟨setPc_poller_of_ne hd _, rfl, rfl, rfl⟩

/-- A step of an operation. -/
theorem step_op {a : Client.Action ι κ ε} (hs : step strerror C s (.op a) = some t) :
    ofClient a = true ∧ ∃ l, C.step s.ops a = some l ∧ t = { s with ops := l } := by
  unfold step at hs
  dsimp only at hs
  split at hs
  · next ha =>
    obtain ⟨l, hl, rfl⟩ := Option.map_eq_some_iff.mp hs
    exact ⟨ha, l, hl, rfl⟩
  · cases hs

/-- **Every step of the system keeps the invariant of every poller.** -/
theorem pollerInv_step (h : ∀ c, PollerInv C s c) {a : Action ι κ ε}
    (hs : step strerror C s a = some t) (c : κ) : PollerInv C t c := by
  cases a with
  | op a =>
    obtain ⟨ha, l, hl, rfl⟩ := step_op hs
    obtain ⟨hb, hseen⟩ := ofClient_step ha hl
    exact (h c).congr rfl (congrFun hb c) (congrFun hseen c) rfl
  | requestStop d =>
    cases hs
    by_cases hc : c = d
    · subst hc
      have hp : (Function.update s.poller c { s.poller c with stopRequested := true }) c =
        { s.poller c with stopRequested := true } := Function.update_self _ _ _
      refine ⟨?_, ?_, ?_, (h c).executed⟩
      · show ((Function.update s.poller c _) c).wcVec.length = _
        rw [hp]
        exact (h c).size
      · show _ = ((Function.update s.poller c _) c).remaining
        rw [hp]
        exact (h c).batch
      · show ((Function.update s.poller c _) c).Within
        rw [hp]
        exact (h c).within
    · exact (h c).congr (Function.update_of_ne hc _ _) rfl rfl rfl
  | work d rc =>
    have hw := works_of_work hs
    by_cases hc : c = d
    · rw [hc]
      exact (h d).works hw
    · obtain ⟨hp, hb, hseen, he⟩ := hw.other hc
      exact (h c).congr hp hb hseen he

theorem pollerInv_reach {blank : ε} (h : (machine strerror C).Reach (init C blank) s) (c : κ) :
    PollerInv C s c :=
  h.invariant (P := fun s => ∀ c, PollerInv C s c) (pollerInv_init C blank)
    (fun _ _ _ hi _ hs => pollerInv_step hi hs) c

/-! ## 5. The loop and batches -/

/-- A callback is a dispatch. -/
theorem PollerInv.dispatch (h : PollerInv C s c) {n i : Nat} {e : ε}
    (hp : (s.poller c).pc = .process n i) (hi : i < n) (he : (s.poller c).wcVec[i]? = some e) :
    C.step s.ops (.dispatch c) = some (s.execute C c e).ops := by
  obtain ⟨p, rest, hb, rfl, -⟩ := h.front hp hi he
  simp only [Client.step, State.execute, hb]
  rfl

/-- **A statement of the worker is a step of the client, or none of its operations sees it.** -/
theorem PollerInv.client_step (h : PollerInv C s c) (hs : Works C s c rc t) :
    t.ops = s.ops ∨ ∃ a, C.step s.ops a = some t.ops := by
  cases hs with
  | polled n hp hrc hv hq =>
    have hb : s.ops.batch c = [] := by
      have hm := h.batch
      unfold Poller.remaining at hm
      rw [hp] at hm
      exact List.map_eq_nil_iff.mp hm
    rw [h.size] at hv
    by_cases hn : n = 0
    · refine Or.inl ?_
      show ({ s.ops with batch := _, queue := _ } : Client.State ι κ A ε σ) = s.ops
      rw [hn, List.take_zero, List.drop_zero, ← hb, Function.update_eq_self,
        Function.update_eq_self]
    · exact Or.inr ⟨.poll c n, if_pos ⟨hb, Nat.pos_of_ne_zero hn, hv, hq⟩⟩
  | executed n i e hp hi he => exact Or.inr ⟨.dispatch c, h.dispatch hp hi he⟩
  | _ => exact Or.inl rfl

theorem ops_step (h : ∀ c, PollerInv C s c) {a : Action ι κ ε}
    (hs : step strerror C s a = some t) : t.ops = s.ops ∨ ∃ b, C.step s.ops b = some t.ops := by
  cases a with
  | op a =>
    obtain ⟨-, l, hl, rfl⟩ := step_op hs
    exact Or.inr ⟨a, hl⟩
  | requestStop d =>
    cases hs
    exact Or.inl rfl
  | work d rc => exact (h d).client_step (works_of_work hs)

/-- **What operations do under the workers' loops they do as a client of their queues.** -/
theorem worker_reach {blank : ε} (h : (machine strerror C).Reach (init C blank) s) :
    C.machine.Reach C.init s.ops := by
  have hinv : C.machine.Reach C.init s.ops ∧ ∀ c, PollerInv C s c := by
    refine h.invariant (P := fun s => C.machine.Reach C.init s.ops ∧ ∀ c, PollerInv C s c)
      ⟨.start, pollerInv_init C blank⟩ ?_
    rintro s a t ⟨hr, hi⟩ - hs
    refine ⟨?_, pollerInv_step hi hs⟩
    rcases ops_step hi hs with he | ⟨b, hb⟩
    · rw [he]
      exact hr
    · exact .step b hr trivial hb
  exact hinv.1

/-! ## 6. Order -/

/-- What holds of a queue and its poller. -/
structure InOrder (strerror : Int → String) (C : Client ι κ A ε σ) (s : State ι κ A ε σ) (c : κ) :
    Prop where
  /-- Each entry generated has been executed, lies in the unexecuted part of `wc_vec_`, or is still
      in the queue: in this order, none twice and none missing. -/
  accounted : (s.ops.generated c).map Prod.snd =
    s.executed c ++ ((s.poller c).remaining ++ (s.ops.queue c).map Prod.snd)
  /-- A worker that has returned, after a stop request or a failed poll, has dropped nothing it had
      polled. -/
  returned : (s.poller c).pc.out = true →
    (s.ops.generated c).map Prod.snd = s.executed c ++ (s.ops.queue c).map Prod.snd
  /-- What `process_wc` reads next is the oldest entry not executed, and at its `wr_id` the operation
      it was generated for is waiting. -/
  fresh : ∀ n k, (s.poller c).pc = .process n k → k < n → ∃ i e,
    (s.poller c).wcVec[k]? = some e ∧ (s.ops.generated c)[(s.executed c).length]? = some (i, e) ∧
    s.ops.table (C.key e) = some i ∧ s.ops.phase i = .completed
  /-- A worker that has not returned has a next statement. -/
  goesOn : (s.poller c).pc.out = false → ∃ rc t, step strerror C s (.work c rc) = some t

omit [DecidableEq ι] [DecidableEq κ] [DecidableEq A] in
theorem PollerInv.accounted (h : PollerInv C s c) (hc : Client.Inv C s.ops) :
    (s.ops.generated c).map Prod.snd =
      s.executed c ++ ((s.poller c).remaining ++ (s.ops.queue c).map Prod.snd) := by
  rw [hc.generated_eq, List.map_append, ← h.executed]
  unfold Client.State.pending
  rw [List.map_append, h.batch]

omit [DecidableEq ι] [DecidableEq κ] [DecidableEq A] in
theorem remaining_of_out {p : Poller ε} (h : p.pc.out = true) : p.remaining = [] := by
  unfold Poller.remaining
  cases hp : p.pc with
  | stopped | failed => rfl
  | _ => simp [hp, WorkerPc.out] at h

omit [DecidableEq ι] [DecidableEq κ] [DecidableEq A] in
/-- A worker inside `process_wc` reads inside `wc_vec_`. -/
theorem PollerInv.getElem (h : PollerInv C s c) {n k : Nat} (hp : (s.poller c).pc = .process n k)
    (hk : k < n) : ∃ e, (s.poller c).wcVec[k]? = some e := by
  have hw := h.within
  unfold Poller.Within at hw
  rw [hp] at hw
  exact ⟨_, List.getElem?_eq_getElem (Nat.lt_of_lt_of_le hk hw.2)⟩

variable (strerror) in
omit [DecidableEq A] in
/-- A worker that has not returned has a next statement. -/
theorem PollerInv.goesOn (h : PollerInv C s c) (ho : (s.poller c).pc.out = false) :
    ∃ rc t, work strerror C s c rc = some t := by
  cases hpc : (s.poller c).pc with
  | test =>
    refine ⟨0, s.setPc c (if (s.poller c).stopRequested then .stopped else .poll), ?_⟩
    simp only [work, hpc]
  | poll =>
    refine ⟨0, s.polled c 0, ?_⟩
    simp only [work, hpc]
    exact if_pos ⟨Nat.zero_le _, Nat.zero_le _⟩
  | check n =>
    refine ⟨0, s.setPc c (if n = 0 then .test else .process n 0), ?_⟩
    simp only [work, hpc]
  | process n k =>
    by_cases hk : k < n
    · obtain ⟨e, he⟩ := h.getElem hpc hk
      refine ⟨0, (s.execute C c e).setPc c (.process n (k + 1)), ?_⟩
      simp only [work, hpc, if_pos hk, he, Option.map_some]
    · refine ⟨0, s.setPc c .test, ?_⟩
      simp only [work, hpc, if_neg hk]
  | stopped | failed => simp [hpc, WorkerPc.out] at ho

/-- **Entries are executed in the queue's order, each once and for its own operation**, by a worker
    that is stopped or whose polls fail at any time; a worker that has returned has dropped none it
    had polled. -/
theorem poller_executes_in_order (strerror : Int → String) (C : Client ι κ A ε σ) (blank : ε)
    (s : State ι κ A ε σ) (hs : (machine strerror C).Reach (init C blank) s) (c : κ) :
    InOrder strerror C s c := by
  have hp := pollerInv_reach hs c
  have hc := Client.inv_reach (worker_reach hs)
  refine ⟨hp.accounted hc, fun ho => ?_, fun n k hpc hk => ?_, fun ho => ?_⟩
  · have ha := hp.accounted hc
    rwa [remaining_of_out ho] at ha
  · obtain ⟨e, he⟩ := hp.getElem hpc hk
    obtain ⟨p, rest, hb, rfl, -⟩ := hp.front hpc hk he
    obtain ⟨htable, hphase, -⟩ := hc.front hb
    refine ⟨p.1, p.2, he, ?_, htable, hphase⟩
    rw [hc.generated_eq, hp.executed, List.length_map, List.getElem?_append_right (Nat.le_refl _),
      Nat.sub_self]
    unfold Client.State.pending
    rw [hb]
    rfl
  · exact hp.goesOn strerror ho

/-- Two recvs on one CQ. -/
def twoRecvs : Native.Setup Bool Unit Unit where
  operation _ := .recv
  buffer _ := .view MrView.null
  qp _ := ()
  coroutine i := if i then 7 else 5
  address i := if i then 8192 else 4096
  env _ := ⟨some .postRecvRq, 0⟩
  sendCq _ := ()
  recvCq _ := ()
  batchSize _ := 2

/-- An entry without content. -/
def blankWc : IbvWc := ⟨0, .success, 0, 0, 0⟩

/-- Both are posted and completed. -/
def bothCompleted : List (Action Bool Unit IbvWc) :=
  [.op (.create false), .op (.post false), .op (.create true), .op (.post true),
    .op (.complete false { blankWc with wrId := 4096 }),
    .op (.complete true { blankWc with wrId := 8192 })]

/-- A stop is requested in the middle of a batch of two: the second entry is still executed. -/
theorem poller_executes_in_order_stopping :
    let C := twoRecvs.client fun _ => ""
    ∃ s, (machine (fun _ => "") C).Reach (init C blankWc) s ∧
      (s.poller ()).stopRequested = true ∧ (s.executed ()).length = 1 ∧
      (s.poller ()).remaining = [{ blankWc with wrId := 8192 }] ∧
      InOrder (fun _ => "") C s () := by
  intro C
  have hr : (machine (fun _ => "") C).Reach (init C blankWc) _ :=
    Machine.reach_of_run (bothCompleted ++
      [.work () 0, .work () 2, .work () 0, .work () 0, .requestStop ()]) rfl
  exact ⟨_, hr, rfl, rfl, rfl, poller_executes_in_order (fun _ => "") C blankWc _ hr ()⟩

/-! ## 7. Progress -/

/-- The poller of `c` is not asked to stop, its polls do not fail, and a poll that finds nothing
    found the queue empty. -/
def Diligent (c : κ) (s : State ι κ A ε σ) : Action ι κ ε → Prop
  | .op _ => True
  | .requestStop d => d ≠ c
  | .work d rc => d = c → (s.poller c).pc = .poll → 0 ≤ rc ∧ (s.ops.queue c ≠ [] → 0 < rc)

instance (c : κ) (s : State ι κ A ε σ) (a : Action ι κ ε) : Decidable (Diligent c s a) :=
  match a with
  | .op _ => inferInstanceAs (Decidable True)
  | .requestStop d => inferInstanceAs (Decidable (d ≠ c))
  | .work d rc => inferInstanceAs (Decidable (d = c → (s.poller c).pc = .poll →
      0 ≤ rc ∧ (s.ops.queue c ≠ [] → 0 < rc)))

/-- A statement of the worker of `c`. -/
def Action.isWork (c : κ) : Action ι κ ε → Bool
  | .work d _ => d = c
  | _ => false

/-- The worker of `c` runs, and `N` entries have been generated for it. -/
structure Running (C : Client ι κ A ε σ) (c : κ) (N : Nat) (s : State ι κ A ε σ) : Prop where
  poller : ∀ c, PollerInv C s c
  client : Client.Inv C s.ops
  going : (s.poller c).pc.out = false
  unstopped : (s.poller c).stopRequested = false
  generated : N ≤ (s.ops.generated c).length

/-- Entries are only added to those generated. -/
theorem generated_prefix {l l' : Client.State ι κ A ε σ} {a : Client.Action ι κ ε}
    (h : C.step l a = some l') (c : κ) : l.generated c <+: l'.generated c := by
  cases Client.moves_of_step h with
  | completed i e hp hk =>
    dsimp only
    by_cases hc : c = C.queue i e
    · rw [hc, Function.update_self]
      exact List.prefix_append _ _
    · exact (Function.update_of_ne hc _ l.generated).symm ▸ List.prefix_rfl
  | _ => exact List.prefix_rfl

theorem ops_generated (h : ∀ c, PollerInv C s c) {a : Action ι κ ε}
    (hs : step strerror C s a = some t) (c : κ) : s.ops.generated c <+: t.ops.generated c := by
  rcases ops_step h hs with he | ⟨b, hb⟩
  · exact he.symm ▸ List.prefix_rfl
  · exact generated_prefix hb c

theorem client_step (h : ∀ c, PollerInv C s c) (hc : Client.Inv C s.ops) {a : Action ι κ ε}
    (hs : step strerror C s a = some t) : Client.Inv C t.ops := by
  rcases ops_step h hs with he | ⟨b, hb⟩
  · rw [he]
    exact hc
  · exact hc.step hb

/-- A step of anything but the worker of `c`. -/
theorem step_other {a : Action ι κ ε} (hs : step strerror C s a = some t)
    (ha : a.isWork c = false) :
    t.executed c = s.executed c ∧ (t.poller c).pc = (s.poller c).pc ∧
      (a ≠ .requestStop c → t.poller c = s.poller c) := by
  cases a with
  | op a =>
    obtain ⟨-, l, -, rfl⟩ := step_op hs
    exact ⟨rfl, rfl, fun _ => rfl⟩
  | requestStop d =>
    cases hs
    by_cases hd : c = d
    · subst hd
      refine ⟨rfl, ?_, fun hne => absurd rfl hne⟩
      show ((Function.update s.poller c { s.poller c with stopRequested := true }) c).pc = _
      rw [Function.update_self]
    · have hp := Function.update_of_ne hd { s.poller d with stopRequested := true } s.poller
      exact ⟨rfl, congrArg Poller.pc hp, fun _ => hp⟩
  | work d rc =>
    have hd : c ≠ d := fun h => by simp [Action.isWork, h] at ha
    obtain ⟨hp, -, -, he⟩ := (works_of_work hs).other hd
    exact ⟨he, congrArg Poller.pc hp, fun _ => hp⟩

omit [DecidableEq A] in
/-- A statement of a worker that runs: it goes on. -/
theorem Works.going (hs : Works C s c rc t) (hstop : (s.poller c).stopRequested = false)
    (hrc : (s.poller c).pc = .poll → 0 ≤ rc) :
    (t.poller c).pc.out = false ∧ (t.poller c).stopRequested = false := by
  cases hs with
  | tested hp =>
    rw [setPc_poller, hstop]
    exact ⟨rfl, rfl⟩
  | failed e hp hneg => exact absurd (hrc hp) (Int.not_le.mpr hneg)
  | polled n hp hn hv hq =>
    show ((Function.update s.poller c _) c).pc.out = false ∧
      ((Function.update s.poller c _) c).stopRequested = false
    rw [Function.update_self]
    exact ⟨rfl, hstop⟩
  | checked n hp =>
    rw [setPc_poller]
    refine ⟨?_, hstop⟩
    dsimp only
    split <;> rfl
  | executed n i e hp hi he =>
    rw [setPc_poller]
    exact ⟨rfl, hstop⟩
  | done n i hp hi =>
    rw [setPc_poller]
    exact ⟨rfl, hstop⟩

/-- The worker goes on as long as the steps are diligent. -/
theorem Running.step {N : Nat} (h : Running C c N s) {a : Action ι κ ε}
    (hd : Diligent c s a) (hs : step strerror C s a = some t) : Running C c N t := by
  have hgen : N ≤ (t.ops.generated c).length :=
    Nat.le_trans h.generated (ops_generated h.poller hs c).length_le
  have hgo : (t.poller c).pc.out = false ∧ (t.poller c).stopRequested = false := by
    cases hw : a.isWork c with
    | false =>
      obtain ⟨-, -, hp⟩ := step_other hs hw
      rw [hp ?_]
      · exact ⟨h.going, h.unstopped⟩
      · rintro rfl
        exact hd rfl
    | true =>
      cases a with
      | work d rc =>
        obtain rfl : d = c := of_decide_eq_true hw
        exact (works_of_work hs).going h.unstopped fun hp => (hd rfl hp).1
      | _ => cases hw
  exact ⟨pollerInv_step h.poller hs, client_step h.poller h.client hs, hgo.1, hgo.2, hgen⟩

/-- The worker of `c` has returned. -/
structure Over (C : Client ι κ A ε σ) (c : κ) (s : State ι κ A ε σ) : Prop where
  poller : ∀ c, PollerInv C s c
  client : Client.Inv C s.ops
  out : (s.poller c).pc.out = true

/-- A worker that has returned has returned for good: nothing more of its queue is executed, and an
    operation with its entries there gets none. -/
theorem Over.step (h : Over C c s) {a : Action ι κ ε} (hs : step strerror C s a = some t) :
    Over C c t ∧ t.executed c = s.executed c ∧
      ∀ i, (∀ e, C.queue i e = c) → t.ops.got i = s.ops.got i := by
  have hbatch : s.ops.batch c = [] := by
    have hm := (h.poller c).batch
    rw [remaining_of_out h.out] at hm
    exact List.map_eq_nil_iff.mp hm
  have hw : a.isWork c = false := by
    cases a with
    | work d rc =>
      refine decide_eq_false fun hd => ?_
      subst hd
      have hout := h.out
      cases works_of_work hs with
      | tested hp | failed _ hp | polled _ hp | checked _ hp | executed _ _ _ hp | done _ _ hp =>
        rw [hp] at hout
        cases hout
    | _ => rfl
  obtain ⟨he, hpc, -⟩ := step_other hs hw
  refine ⟨⟨pollerInv_step h.poller hs, client_step h.poller h.client hs, by rw [hpc]; exact h.out⟩,
    he, fun i hq => ?_⟩
  by_contra hg
  rcases ops_step h.poller hs with heq | ⟨b, hb⟩
  · rw [heq] at hg
    exact hg rfl
  · obtain ⟨-, -, e, rest, -, hfront, -⟩ := h.client.got_step hb hg
    rw [hq e, hbatch] at hfront
    cases hfront

end Works

end Rdmapp.CqPoller
