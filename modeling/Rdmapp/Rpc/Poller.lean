/-
  File:      Rdmapp/Rpc/Poller.lean
  Subject:   THE CLIENT ON ONE POLLER THREAD, which resumes coroutines inline.

  The completions of sends and receives are dispatched by one thread. It runs what it resumes: a
  call after its send, a worker after its receive, and within the worker's `h.resume()` the call
  whose response it is, its caller, and the caller's further call up to its send. Other threads run
  the callers' first calls and the workers' first posts.

  While the poller is in a loop it dispatches nothing. It waits for itself (`SelfWait`) when nothing
  else can end the loop: where a response is dispatched before the send's own completion, or a
  caller's further call finds no free slot. Those are the only ways (`self_wait_iff`).
-/
import Rdmapp.Rpc.Link

namespace Rdmapp
namespace Rpc

open Lib

/-! ## 1. Threads -/

/-- Where the poller thread is. -/
inductive Place where
  /-- Between two completions. -/
  | idle
  /-- In call `c`, resumed by the completion of its send. -/
  | call (c : Nat)
  /-- In worker `w`, resumed by the completion of its receive. -/
  | worker (w : Nat)
  /-- In call `c`, within the `h.resume()` of worker `w`. -/
  | nested (w c : Nat)
  deriving DecidableEq, Repr

/-- The call that runs within a resumption. -/
def Place.inCall : Place → Option Nat
  | .nested _ c => some c
  | _ => none

/-- The worker whose frame is on the thread. -/
def Place.inWorker : Place → Option Nat
  | .worker w | .nested w _ => some w
  | _ => none

/-- Client, queue pair and peer, and the poller thread. -/
structure Polled where
  link : Link
  poller : Place

def Polled.start (m : Nat) : Polled := ⟨Link.start m, .idle⟩

inductive PolledAction where
  /-- A statement on another thread. -/
  | thread (a : Action)
  /-- A statement on the poller thread; the first ones of a resumption dispatch its completion. -/
  | poller (a : Action)
  /-- The caller of the call that returned gives the thread back. -/
  | back
  /-- The queue pair or the peer. -/
  | qp (a : LinkAction)
  deriving DecidableEq, Repr

/-- Statements other threads make: a call's up to its post, a worker's post. The poller's own are not
    theirs. -/
def Polled.elsewhere (s : Polled) : Action → Bool
  | .call c .. | .dequeue c _ | .fetchAdd c | .storeWaiter c | .storeBuffer c | .storeId c | .fill c
  | .post c true => s.poller.inCall ≠ some c
  | .postRecv w true => s.poller.inWorker ≠ some w
  | _ => false

/-- Statements of a call from `try_dequeue` to the header, and from its resumption to its end. -/
def Action.within (c : Nat) : Action → Bool
  | .dequeue d _ | .fetchAdd d | .storeWaiter d | .storeBuffer d | .storeId d | .fill d | .resume d
  | .enqueue d => d = c
  | _ => false

/-- Where the poller is after the statement, if it is one of the poller's next. -/
def Polled.goesTo (s : Polled) (a : Action) : Option Place :=
  match s.poller, a with
  | .idle, .sendDone c true => some (.call c)
  | .idle, .recvDone w (some _) => some (.worker w)
  | .call c, .suspend d => if d = c then some .idle else none
  | .worker w, .check v => if v = w then some (.worker w) else none
  | .worker w, .copy v _ => if v = w then some (.worker w) else none
  | .worker w, .wake v _ h => if v = w then some (.nested w h) else none
  | .worker w, .postRecv v true => if v = w then some .idle else none
  | .nested w c, .call d _ _ =>
    if (s.link.client.calls c).pc = .returned then some (.nested w d) else none
  | .nested w c, .post d true => if d = c then some (.worker w) else none
  | .nested w c, a => if a.within c then some (.nested w c) else none
  | _, _ => none

/-- Where the thread is given back to. -/
def Polled.givesBack (s : Polled) : Option Place :=
  match s.poller with
  | .nested w c => if (s.link.client.calls c).pc = .returned then some (.worker w) else none
  | _ => none

/-- The queue pair does not fail. -/
def LinkAction.works : LinkAction → Bool
  | .deliver _ | .completeSend _ true | .answer .. => true
  | _ => false

section Step

variable (o : ByteOrder) (m : Nat)

def PolledEnabled (s : Polled) : PolledAction → Prop
  | .thread a => s.elsewhere a = true ∧ LinkEnabled o s.link (.client a)
  | .poller a => (s.goesTo a).isSome = true ∧ LinkEnabled o s.link (.client a)
  | .back => s.givesBack.isSome = true
  | .qp a => a.works = true ∧ LinkEnabled o s.link a

instance (s : Polled) (a : PolledAction) : Decidable (PolledEnabled o s a) :=
  match a with
  | .thread _ | .poller _ | .qp _ => inferInstanceAs (Decidable (_ ∧ _))
  | .back => inferInstanceAs (Decidable (_ = _))

def polledNext (s : Polled) : PolledAction → Polled
  | .thread a => { s with link := linkNext o m s.link (.client a) }
  | .poller a => ⟨linkNext o m s.link (.client a), (s.goesTo a).getD s.poller⟩
  | .back => { s with poller := s.givesBack.getD s.poller }
  | .qp a => { s with link := linkNext o m s.link a }

def polledMachine : Machine Polled PolledAction := .guarded (PolledEnabled o) (polledNext o m)

/-! ## 2. Waiting for oneself -/

/-- The two loops. -/
inductive Loop where
  /-- Of worker `w`, for the waiter of slot `i`. -/
  | waiter (w i : Nat)
  /-- Of call `c`, for a free slot. -/
  | freeSlot (w c : Nat)
  deriving DecidableEq, Repr

/-- The poller is in the loop, and the exit condition does not hold. -/
def Polled.Spins (s : Polled) : Loop → Prop
  | .waiter w i => s.poller = .worker w ∧ (s.link.client.workers w).pc = .waking i ∧
      (s.link.client.slots i).waiter = none
  | .freeSlot w c => s.poller = .nested w c ∧ (s.link.client.calls c).pc = .dequeue ∧
      s.link.client.freeSlots = []

/-- The poller is in a loop that nothing ends which other threads, the queue pair or the peer can
    do. -/
def SelfWait (s : Polled) : Prop :=
  ∃ loop, ∀ t, (polledMachine o m).Reach s t → t.Spins loop

/-- The poller is at the `try_dequeue` of a caller's further call. -/
def Polled.Looks (s : Polled) : Prop :=
  ∃ w c, s.poller = .nested w c ∧ (s.link.client.calls c).pc = .dequeue

/-- Whose response is dispatched waits for it; and a caller that issues a further call on the poller
    thread finds a free slot, which no other thread takes first. -/
def Orderly (s : Polled) : PolledAction → Prop
  | .poller (.recvDone w _) => ∀ c, s.link.carried w = some c →
      (s.link.client.calls c).pc = .waiting
  | .poller (.call ..) => s.link.client.freeSlots ≠ []
  | .thread (.dequeue _ i) => s.Looks → s.link.client.freeSlots.erase i ≠ []
  | _ => True

end Step

/-! ## 3. The place of the poller -/

/-- The thread a coroutine is on. -/
structure PolledInv (o : ByteOrder) (m : Nat) (s : Polled) : Prop where
  link : LinkInv o m s.link
  error : s.link.error = false
  suspending : ∀ c, (s.link.client.calls c).pc = .suspend → s.poller = .call c
  posting : ∀ w c, s.poller = .nested w c → (s.link.client.workers w).pc = .post

section Poller

variable {o : ByteOrder} {m : Nat} {s t : Polled} {c d w i : Nat} {a : Action}

/-- Each step is one of client, queue pair and peer, or none of theirs. -/
theorem polled_link {a : PolledAction} (h : (polledMachine o m).step s a = some t) :
    t.link = s.link ∨ ∃ b, (linkMachine o m).step s.link b = some t.link := by
  obtain ⟨he, rfl⟩ := Machine.guarded_step_eq_some.mp h
  cases a with
  | thread a => exact Or.inr ⟨.client a, Machine.guarded_step_eq_some.mpr ⟨he.2, rfl⟩⟩
  | poller a => exact Or.inr ⟨.client a, Machine.guarded_step_eq_some.mpr ⟨he.2, rfl⟩⟩
  | back => exact Or.inl rfl
  | qp a => exact Or.inr ⟨a, Machine.guarded_step_eq_some.mpr ⟨he.2, rfl⟩⟩

theorem linkInv_polled (hm : m < 2 ^ 32) {a : PolledAction} (h : LinkInv o m s.link)
    (ht : (polledMachine o m).step s a = some t) : LinkInv o m t.link := by
  rcases polled_link ht with he | ⟨b, hb⟩
  · rw [he]
    exact h
  · exact linkInv_step hm h hb

/-- Another thread moves a call that has not posted, and not the poller's. -/
theorem elsewhere_mover (h : s.elsewhere a = true) (he : Enabled s.link.client a)
    (hc : a.mover = some c) :
    (s.link.client.calls c).pc.early = true ∧ s.poller.inCall ≠ some c := by
  cases a with
  | call d | fetchAdd d | storeWaiter d | storeBuffer d | storeId d | fill d =>
    obtain rfl : d = c := Option.some.inj hc
    exact ⟨(congrArg CallPc.early he :), of_decide_eq_true h⟩
  | dequeue d j =>
    obtain rfl : d = c := Option.some.inj hc
    exact ⟨(congrArg CallPc.early he.1 :), of_decide_eq_true h⟩
  | post d ok =>
    obtain rfl : d = c := Option.some.inj hc
    cases ok with
    | true => exact ⟨(congrArg CallPc.early he :), of_decide_eq_true h⟩
    | false => cases h
  | _ => first | cases h | cases hc

/-- Nor the worker whose frame is on the poller thread. -/
theorem elsewhere_worker (h : s.elsewhere a = true) (hw : a.worker = some w) :
    s.poller.inWorker ≠ some w := by
  cases a with
  | postRecv v ok =>
    obtain rfl : v = w := Option.some.inj hw
    cases ok with
    | true => exact of_decide_eq_true h
    | false => cases h
  | recvDone | check | copy | wake => cases h
  | _ => cases hw

/-- A call beyond its post is left alone by the other threads. -/
theorem elsewhere_call (h : s.elsewhere a = true) (he : Enabled s.link.client a)
    (hc : (s.link.client.calls c).pc.early = false ∨ s.poller.inCall = some c) :
    ((next o m s.link.client a).calls c).pc = (s.link.client.calls c).pc ∧
      ((next o m s.link.client a).calls c).slotIdx = (s.link.client.calls c).slotIdx := by
  have hne : a.mover ≠ some c := fun hmove => by
    obtain ⟨hearly, hin⟩ := elsewhere_mover h he hmove
    rcases hc with hc | hc
    · cases hearly.symm.trans hc
    · exact hin hc
  exact ⟨(next_call hne).1, (next_call hne).2.1⟩

/-- So is a worker on the poller thread, with its receive. -/
theorem elsewhere_stays (h : s.elsewhere a = true) (hw : s.poller.inWorker = some w) :
    (next o m s.link.client a).workers w = s.link.client.workers w ∧
      (s.link.tell a).recvs w = s.link.recvs w := by
  have hne : a.worker ≠ some w := fun hv => elsewhere_worker h hv hw
  refine ⟨next_worker hne, ?_⟩
  cases a with
  | postRecv v ok => exact Function.update_of_ne (fun hv => hne (congrArg some hv.symm)) _ _
  | recvDone v packet => cases h
  | _ => rfl

/-- A call comes to `await_suspend` from its send. -/
theorem suspend_of_next (hc : ((next o m s.link.client a).calls c).pc = .suspend) :
    (s.link.client.calls c).pc = .suspend ∨ a = .sendDone c true := by
  by_cases hmove : a.mover = some c
  · cases hp : a.place with
    | some p =>
      obtain rfl : p = .suspend := (next_place hmove hp).symm.trans hc
      cases a with
      | sendDone d ok =>
        cases ok with
        | true => exact Or.inr (congrArg (Action.sendDone · true) (Option.some.inj hmove))
        | false => cases hp
      | post d ok => cases ok <;> cases hp
      | _ => cases hp
    | none =>
      cases a with
      | wake w i k =>
        obtain rfl : k = c := Option.some.inj hmove
        rw [next_wake] at hc
        split_ifs at hc
        exact Or.inl hc
      | postRecv | recvDone | check | copy => cases hmove
      | _ => cases hp
  · rw [(next_call hmove).1] at hc
    exact Or.inl hc

/-- The poller's statement `a`, and where it is then. -/
inductive Turns (s : Polled) : Action → Place → Prop
  | sent (c : Nat) (h : s.poller = .idle) : Turns s (.sendDone c true) (.call c)
  | received (w : Nat) (bytes : List UInt8) (h : s.poller = .idle) :
      Turns s (.recvDone w (some bytes)) (.worker w)
  | suspends (c : Nat) (h : s.poller = .call c) : Turns s (.suspend c) .idle
  | checks (w : Nat) (h : s.poller = .worker w) : Turns s (.check w) (.worker w)
  | copies (w i : Nat) (h : s.poller = .worker w) : Turns s (.copy w i) (.worker w)
  | wakes (w i k : Nat) (h : s.poller = .worker w) : Turns s (.wake w i k) (.nested w k)
  | reposts (w : Nat) (h : s.poller = .worker w) : Turns s (.postRecv w true) .idle
  | calls (w c d : Nat) (reqData respBuffer : List UInt8) (h : s.poller = .nested w c)
      (hc : (s.link.client.calls c).pc = .returned) :
      Turns s (.call d reqData respBuffer) (.nested w d)
  | posts (w c : Nat) (h : s.poller = .nested w c) : Turns s (.post c true) (.worker w)
  | runs (w c : Nat) (a : Action) (h : s.poller = .nested w c) (ha : a.within c = true) :
      Turns s a (.nested w c)

theorem goesTo_spec {p : Place} (h : s.goesTo a = some p) : Turns s a p := by
  unfold Polled.goesTo at h
  split at h
  case h_1 hs =>
    cases h
    exact .sent _ hs
  case h_2 hs =>
    cases h
    exact .received _ _ hs
  case h_3 hs =>
    split_ifs at h with he
    cases h
    subst he
    exact .suspends _ hs
  case h_4 hs =>
    split_ifs at h with he
    cases h
    subst he
    exact .checks _ hs
  case h_5 hs =>
    split_ifs at h with he
    cases h
    subst he
    exact .copies _ _ hs
  case h_6 hs =>
    split_ifs at h with he
    cases h
    subst he
    exact .wakes _ _ _ hs
  case h_7 hs =>
    split_ifs at h with he
    cases h
    subst he
    exact .reposts _ hs
  case h_8 hs =>
    split_ifs at h with he
    cases h
    exact .calls _ _ _ _ _ hs he
  case h_9 hs =>
    split_ifs at h with he
    cases h
    subst he
    exact .posts _ _ hs
  case h_10 hs _ _ =>
    split_ifs at h with he
    cases h
    exact .runs _ _ _ hs he
  case h_11 => cases h

theorem givesBack_spec {p : Place} (h : s.givesBack = some p) :
    ∃ w c, s.poller = .nested w c ∧ (s.link.client.calls c).pc = .returned ∧ p = .worker w := by
  unfold Polled.givesBack at h
  split at h
  · next w c hs =>
    split_ifs at h with hc
    exact ⟨w, c, hs, hc, (Option.some.inj h).symm⟩
  · cases h

/-- The queue pair and the peer leave the client and its error state. -/
theorem works_client {b : LinkAction} (h : b.works = true) :
    (linkNext o m s.link b).client = s.link.client ∧ (linkNext o m s.link b).error = s.link.error := by
  cases b with
  | deliver c | completeSend c ok | answer c w bytes => exact ⟨rfl, rfl⟩
  | _ => cases h

theorem polledInv_start (m : Nat) : PolledInv o m (Polled.start m) where
  link := linkInv_start m
  error := rfl
  suspending _ h := nomatch h
  posting _ _ h := nomatch h

theorem within_worker (h : a.within c = true) : a.worker = none := by
  cases a with
  | postRecv | recvDone | check | copy | wake => cases h
  | _ => rfl

/-- **The coroutines are on the thread that resumed them.** -/
theorem polledInv_step (hm : m < 2 ^ 32) {b : PolledAction} (h : PolledInv o m s)
    (ht : (polledMachine o m).step s b = some t) : PolledInv o m t := by
  have hlink := linkInv_polled hm h.link ht
  obtain ⟨he, rfl⟩ := Machine.guarded_step_eq_some.mp ht
  cases b with
  | thread a =>
    obtain ⟨helse, ⟨⟨-, he⟩, -⟩⟩ := he
    refine ⟨hlink, (tell_error s.link a).trans h.error, fun c hc => ?_, fun w c hp => ?_⟩
    · rcases suspend_of_next hc with hc | rfl
      · exact h.suspending c hc
      · cases helse
    · have hw : (next o m s.link.client a).workers w = _ :=
        (elsewhere_stays helse (congrArg Place.inWorker hp)).1
      exact (congrArg Worker.pc hw).trans (h.posting w c hp)
  | poller a =>
    obtain ⟨hgoes, ⟨⟨-, he⟩, -⟩⟩ := he
    obtain ⟨p, hp⟩ := Option.isSome_iff_exists.mp hgoes
    have hplace : (polledNext o m s (.poller a)).poller = p := congrArg (Option.getD · s.poller) hp
    have hturn := goesTo_spec hp
    refine ⟨hlink, (tell_error s.link a).trans h.error, fun c hc => ?_, fun w c hc => ?_⟩
    · rw [hplace]
      rcases suspend_of_next hc with hs | rfl
      · -- it is at `await_suspend` still, and the poller with it
        have hcall := h.suspending c hs
        cases hturn with
        | suspends d hd =>
          obtain rfl : d = c := Place.call.inj (hd.symm.trans hcall)
          have hwait : ((next o m s.link.client (.suspend d)).calls d).pc = .waiting :=
            next_place rfl rfl
          cases hwait.symm.trans hc
        | sent d hd | received d bytes hd | checks d hd | copies d i hd | wakes d i k hd
        | reposts d hd | calls v d e x y hd | posts v d hd | runs v d a hd =>
          cases hd.symm.trans hcall
      · cases hturn with
        | sent => rfl
        | runs _ _ _ _ ha => cases ha
    · rw [hplace] at hc
      subst hc
      cases hturn with
      | wakes _ i => exact congrArg Worker.pc (setWorker_self _ _ _)
      | calls _ d _ _ _ hd => exact h.posting w d hd
      | runs _ _ _ hd ha =>
        have hw : (next o m s.link.client a).workers w = s.link.client.workers w :=
          next_worker fun hv => nomatch (within_worker ha).symm.trans hv
        exact (congrArg Worker.pc hw).trans (h.posting w c hd)
  | back =>
    obtain ⟨p, hp⟩ := Option.isSome_iff_exists.mp he
    have hplace : (polledNext o m s .back).poller = p := congrArg (Option.getD · s.poller) hp
    obtain ⟨w, c, hs, -, rfl⟩ := givesBack_spec hp
    refine ⟨hlink, h.error, fun d hd => ?_, fun v d hd => ?_⟩
    · cases hs.symm.trans (h.suspending d hd)
    · cases hplace.symm.trans hd
  | qp a =>
    obtain ⟨hclient, herror⟩ := works_client (o := o) (m := m) (s := s) he.1
    refine ⟨hlink, herror.trans h.error, fun c hc => ?_, fun w c hc => ?_⟩
    · refine h.suspending c ?_
      rw [← hclient]
      exact hc
    · show ((linkNext o m s.link a).client.workers w).pc = .post
      rw [hclient]
      exact h.posting w c hc

/-! ## 4. Runs in which the poller finds what it looks for -/

/-- The poller's worker has the answer of a call that waits; a further call has a free slot. -/
structure Served (s : Polled) : Prop where
  answering : ∀ w c, s.poller = .worker w → (s.link.client.workers w).pc.busy = true →
    s.link.carried w = some c → (s.link.client.calls c).pc = .waiting
  looking : s.Looks → s.link.client.freeSlots ≠ []

theorem carried_congr {s t : Link} (hr : t.recvs w = s.recvs w)
    (hz : t.client.workers w = s.client.workers w) : t.carried w = s.carried w := by
  unfold Link.carried
  rw [hr, hz]

/-- The poller stays in a worker that has an answer. -/
theorem Served.worker (h : Served s) (hp : t.poller = s.poller)
    (hw : ∀ w, s.poller = .worker w → t.link.client.workers w = s.link.client.workers w ∧
      t.link.recvs w = s.link.recvs w)
    (hc : ∀ c, (s.link.client.calls c).pc = .waiting → (t.link.client.calls c).pc = .waiting)
    {w c : Nat} (hpoller : t.poller = .worker w)
    (hb : (t.link.client.workers w).pc.busy = true) (hcarried : t.link.carried w = some c) :
    (t.link.client.calls c).pc = .waiting := by
  rw [hp] at hpoller
  obtain ⟨hz, hr⟩ := hw w hpoller
  rw [hz] at hb
  rw [carried_congr hr hz] at hcarried
  exact hc c (h.answering w c hpoller hb hcarried)

/-- A step of another thread. -/
theorem Served.thread_step (h : Served s) (he : PolledEnabled o s (.thread a))
    (hc : Orderly s (.thread a)) : Served (polledNext o m s (.thread a)) := by
  obtain ⟨helse, ⟨⟨-, he⟩, -⟩⟩ := he
  constructor
  · intro w c hp hb hcarried
    refine h.worker (t := polledNext o m s (.thread a)) rfl
      (fun v hv => elsewhere_stays helse (congrArg Place.inWorker hv)) (fun d hd => ?_) hp hb hcarried
    exact (elsewhere_call helse he (Or.inl (congrArg CallPc.early hd))).1.trans hd
  · intro ⟨w, c, hp, hdequeue⟩
    have hlooks : s.Looks := by
      refine ⟨w, c, hp, ?_⟩
      have hsame := (elsewhere_call (o := o) (m := m) helse he
        (Or.inr (congrArg Place.inCall hp))).1
      exact hsame.symm.trans hdequeue
    by_cases hd : ∃ d i, a = .dequeue d i
    · obtain ⟨d, i, rfl⟩ := hd
      exact hc hlooks
    · have hfree : (next o m s.link.client a).freeSlots = s.link.client.freeSlots := by
        refine next_freeSlots (fun d i hd' => hd ⟨d, i, hd'⟩) fun d hd' => ?_
        subst hd'
        cases helse
      show (next o m s.link.client a).freeSlots ≠ []
      rw [hfree]
      exact h.looking hlooks

/-- A step of the queue pair or the peer. -/
theorem Served.qp_step (h : Served s) (hi : PolledInv o m s) {b : LinkAction}
    (he : PolledEnabled o s (.qp b)) : Served (polledNext o m s (.qp b)) := by
  obtain ⟨hworks, he⟩ := he
  obtain ⟨hclient, -⟩ := works_client (o := o) (m := m) (s := s) hworks
  constructor
  · intro w c hp hb hcarried
    -- the receive of a worker with a packet is not posted
    have hrecvs : (linkNext o m s.link b).recvs w = s.link.recvs w := by
      cases b with
      | answer d v bytes =>
        refine Function.update_of_ne (fun hv => ?_) _ _
        subst hv
        have hrecv := ((hi.link.worker w).receiving).mpr (Or.inl he.2.2.2.1)
        rw [show (polledNext o m s (.qp (.answer d w bytes))).link.client = s.link.client from hclient,
          hrecv] at hb
        cases hb
      | deliver | completeSend => rfl
      | _ => cases hworks
    have hcalls : ∀ d, ((polledNext o m s (.qp b)).link.client.calls d).pc =
        (s.link.client.calls d).pc := fun d => congrArg (fun u : Client => (u.calls d).pc) hclient
    rw [hcalls]
    refine h.answering w c hp ?_ ?_
    · exact (congrArg (fun u : Client => (u.workers w).pc.busy) hclient).symm.trans hb
    · exact (carried_congr hrecvs (congrArg (Client.workers · w) hclient)).symm.trans hcarried
  · intro ⟨w, c, hp, hdequeue⟩
    have hfree : (polledNext o m s (.qp b)).link.client.freeSlots = s.link.client.freeSlots :=
      congrArg Client.freeSlots hclient
    rw [hfree]
    refine h.looking ⟨w, c, hp, ?_⟩
    exact (congrArg (fun u : Client => (u.calls c).pc) hclient).symm.trans hdequeue

/-- The statements within a call do not lead to `try_dequeue`. -/
theorem within_place (h : a.within c = true) : a.mover = some c ∧ ∃ p, a.place = some p ∧
    p ≠ .dequeue := by
  cases a with
  | dequeue | fetchAdd | storeWaiter | storeBuffer | storeId | fill | resume | enqueue =>
    exact ⟨congrArg some (of_decide_eq_true h), _, rfl, nofun⟩
  | _ => cases h

/-- A packet that is dispatched is of a call that waits for it. -/
theorem Served.received_step {bytes : List UInt8}
    (he : PolledEnabled o s (.poller (.recvDone w (some bytes))))
    (hc : Orderly s (.poller (.recvDone w (some bytes)))) (hp : s.poller = .idle) :
    Served (polledNext o m s (.poller (.recvDone w (some bytes)))) := by
  have hplace : (polledNext o m s (.poller (.recvDone w (some bytes)))).poller = .worker w := by
    show (s.goesTo _).getD s.poller = .worker w
    unfold Polled.goesTo
    rw [hp]
    rfl
  obtain ⟨d, hd⟩ : ∃ d, s.link.recvs w = .packet d bytes := packet_of_completion he.2.2
  have hr : (polledNext o m s (.poller (.recvDone w (some bytes)))).link.recvs w = .handled d := by
    refine (Function.update_self w _ s.link.recvs).trans ?_
    rw [hd]
    rfl
  constructor
  · intro v c hv hb hcarried
    obtain rfl : w = v := Place.worker.inj (hplace.symm.trans hv)
    obtain ⟨rfl, -⟩ := handled_of_carried hcarried hr
    exact hc d (carried_of_packet hd)
  · intro ⟨v, c, hv, _⟩
    cases hplace.symm.trans hv

/-- The poller's worker goes on with its packet. -/
theorem Served.handles (h : Served s) (hi : PolledInv o m s) (hs : s.poller = .worker w)
    (hbusy : (s.link.client.workers w).pc.busy = true) (hmove : a.mover = none)
    (htell : (s.link.tell a).recvs = s.link.recvs)
    (hcarried : (linkNext o m s.link (.client a)).carried w = some c) :
    ((next o m s.link.client a).calls c).pc = .waiting := by
  obtain ⟨d, hr, hd, -⟩ := hi.link.busy_carried hbusy
  have hr' : (linkNext o m s.link (.client a)).recvs w = .handled d :=
    (congrFun htell w).trans hr
  obtain ⟨rfl, -⟩ := handled_of_carried hcarried hr'
  have hne : a.mover ≠ some d := fun hsome => nomatch hmove.symm.trans hsome
  exact (next_call hne).1.trans (h.answering w d hs hbusy hd)

/-- A statement of the poller. -/
theorem Served.poller_step (h : Served s) (hi : PolledInv o m s)
    (he : PolledEnabled o s (.poller a)) (hc : Orderly s (.poller a)) :
    Served (polledNext o m s (.poller a)) := by
  have hall := he
  obtain ⟨hgoes, ⟨⟨-, he⟩, -⟩⟩ := he
  obtain ⟨p, hp⟩ := Option.isSome_iff_exists.mp hgoes
  have hplace : (polledNext o m s (.poller a)).poller = p := congrArg (Option.getD · s.poller) hp
  have hturn := goesTo_spec hp
  have notWorker : (∀ w, p ≠ .worker w) → ∀ w c, (polledNext o m s (.poller a)).poller = .worker w →
      ((polledNext o m s (.poller a)).link.client.workers w).pc.busy = true →
      (polledNext o m s (.poller a)).link.carried w = some c →
      ((polledNext o m s (.poller a)).link.client.calls c).pc = .waiting :=
    fun hn w c hw => absurd (hplace.symm.trans hw) (hn w)
  have notNested : (∀ w c, p ≠ .nested w c) → (polledNext o m s (.poller a)).Looks →
      (polledNext o m s (.poller a)).link.client.freeSlots ≠ [] :=
    fun hn ⟨w, c, hw, _⟩ => absurd (hplace.symm.trans hw) (hn w c)
  cases hturn with
  | sent | suspends | reposts => exact ⟨notWorker nofun, notNested nofun⟩
  | received w bytes hs => exact Served.received_step hall hc hs
  | checks w hs =>
    refine ⟨fun v c hv hb hcarried => ?_, notNested nofun⟩
    obtain rfl : w = v := Place.worker.inj (hplace.symm.trans hv)
    exact h.handles hi hs (congrArg WorkerPc.busy he :) rfl rfl hcarried
  | copies w i hs =>
    refine ⟨fun v c hv hb hcarried => ?_, notNested nofun⟩
    obtain rfl : w = v := Place.worker.inj (hplace.symm.trans hv)
    exact h.handles hi hs (congrArg WorkerPc.busy he :) rfl rfl hcarried
  | wakes w i k hs =>
    refine ⟨notWorker nofun, fun ⟨v, c, hv, hdequeue⟩ => ?_⟩
    -- it has woken a call that waited
    obtain ⟨-, rfl⟩ := Place.nested.inj (hplace.symm.trans hv)
    have hwake : ((next o m s.link.client (.wake w i k)).calls k).pc = .resume := by
      rw [next_wake, if_pos (hi.link.wakes he.1 he.2).2]
    cases hwake.symm.trans hdequeue
  | calls w c d reqData respBuffer hs =>
    refine ⟨notWorker nofun, fun _ => ?_⟩
    exact hc
  | posts w c hs =>
    refine ⟨fun v d hv hb _ => ?_, notNested nofun⟩
    obtain rfl : w = v := Place.worker.inj (hplace.symm.trans hv)
    cases (congrArg WorkerPc.busy (hi.posting w c hs)).symm.trans hb
  | runs w c _ hs ha =>
    refine ⟨notWorker nofun, fun ⟨v, d, hv, hdequeue⟩ => ?_⟩
    obtain ⟨-, rfl⟩ := Place.nested.inj (hplace.symm.trans hv)
    obtain ⟨hmove, p, hp, hne⟩ := within_place ha
    exact absurd ((next_place hmove hp).symm.trans hdequeue) hne

theorem served_step {b : PolledAction} (hi : PolledInv o m s) (h : Served s) (hc : Orderly s b)
    (ht : (polledMachine o m).step s b = some t) : Served t := by
  obtain ⟨he, rfl⟩ := Machine.guarded_step_eq_some.mp ht
  cases b with
  | thread a => exact h.thread_step he hc
  | poller a => exact h.poller_step hi he hc
  | qp b => exact h.qp_step hi he
  | back =>
    obtain ⟨p, hp⟩ := Option.isSome_iff_exists.mp he
    have hplace : (polledNext o m s .back).poller = p := congrArg (Option.getD · s.poller) hp
    obtain ⟨w, c, hs, -, rfl⟩ := givesBack_spec hp
    constructor
    · intro v d hv hb _
      obtain rfl : w = v := Place.worker.inj (hplace.symm.trans hv)
      cases (congrArg WorkerPc.busy (hi.posting w c hs)).symm.trans hb
    · intro ⟨v, d, hv, _⟩
      cases hplace.symm.trans hv

theorem polledInv_reach (hm : m < 2 ^ 32) (h : (polledMachine o m).Reach (Polled.start m) s) :
    PolledInv o m s :=
  h.invariant (polledInv_start m) fun _ _ _ hi _ ht => polledInv_step hm hi ht

theorem served_reach (hm : m < 2 ^ 32)
    (h : (polledMachine o m).ReachIf Orderly (Polled.start m) s) : PolledInv o m s ∧ Served s := by
  refine h.invariant (P := fun s => PolledInv o m s ∧ Served s) ⟨polledInv_start m, ?_⟩
    fun _ _ _ hi hc ht => ⟨polledInv_step hm hi.1 ht, served_step hi.1 hi.2 hc ht⟩
  exact ⟨nofun, fun ⟨_, _, hp, _⟩ => nomatch hp⟩

/-- **The poller finds what it looks for.** -/
theorem Served.not_spins (hi : PolledInv o m s) (h : Served s) (loop : Loop) : ¬ s.Spins loop := by
  intro hspins
  cases loop with
  | waiter w i =>
    obtain ⟨hp, hw, hn⟩ := hspins
    have hbusy : (s.link.client.workers w).pc.busy = true := by rw [hw]; rfl
    obtain ⟨c, hr, hc, -, -⟩ := hi.link.busy_carried hbusy
    have hwait := h.answering w c hp hbusy hc
    have hslot := (hi.link.worker w).slot c i hr (Or.inr hw)
    have hown := (hi.link.client.own c (by rw [hwait]; rfl)).waiting hwait
    rw [← hslot, hn] at hown
    cases hown
  | freeSlot w c =>
    obtain ⟨hp, hc, hn⟩ := hspins
    exact h.looking ⟨w, c, hp, hc⟩ hn

/-! ## 5. The other runs -/

/-- The poller wants the waiter of a call whose send's completion it has not dispatched. -/
structure StuckWaiter (o : ByteOrder) (m : Nat) (w c i : Nat) (s : Polled) : Prop where
  inv : PolledInv o m s
  poller : s.poller = .worker w
  waking : (s.link.client.workers w).pc = .waking i
  slotIdx : (s.link.client.calls c).slotIdx = i
  sending : (s.link.client.calls c).pc = .sending

/-- The poller wants a slot, and each is held by a call that has not come back. -/
structure StuckSlot (w c : Nat) (s : Polled) : Prop where
  poller : s.poller = .nested w c
  dequeue : (s.link.client.calls c).pc = .dequeue
  freeSlots : s.link.client.freeSlots = []

theorem StuckWaiter.waiter (h : StuckWaiter o m w c i s) :
    (s.link.client.slots i).waiter = none := by
  rw [← h.slotIdx]
  have hh : (s.link.client.calls c).pc.holds = true := by rw [h.sending]; rfl
  exact (h.inv.link.client.own c hh).cleared (by rw [h.sending]; rfl)

/-- Nobody else brings the waiter. -/
theorem StuckWaiter.step (hm : m < 2 ^ 32) (h : StuckWaiter o m w c i s) {b : PolledAction}
    (ht : (polledMachine o m).step s b = some t) : StuckWaiter o m w c i t := by
  have hinv := polledInv_step hm h.inv ht
  obtain ⟨he, rfl⟩ := Machine.guarded_step_eq_some.mp ht
  cases b with
  | thread a =>
    obtain ⟨helse, ⟨⟨-, he⟩, -⟩⟩ := he
    obtain ⟨hpc, hslot⟩ := elsewhere_call (o := o) (m := m) helse he
      (Or.inl (congrArg CallPc.early h.sending))
    have hz : (next o m s.link.client a).workers w = s.link.client.workers w :=
      (elsewhere_stays helse (congrArg Place.inWorker h.poller)).1
    exact ⟨hinv, h.poller, (congrArg Worker.pc hz).trans h.waking, hslot.trans h.slotIdx,
      hpc.trans h.sending⟩
  | poller a =>
    obtain ⟨hgoes, ⟨⟨-, he⟩, -⟩⟩ := he
    obtain ⟨p, hp⟩ := Option.isSome_iff_exists.mp hgoes
    cases goesTo_spec hp with
    | checks v hv =>
      obtain rfl : v = w := Place.worker.inj (hv.symm.trans h.poller)
      cases (show (s.link.client.workers v).pc = .received from he).symm.trans h.waking
    | copies v j hv =>
      obtain rfl : v = w := Place.worker.inj (hv.symm.trans h.poller)
      cases (show (s.link.client.workers v).pc = .matched j from he).symm.trans h.waking
    | reposts v hv =>
      obtain rfl : v = w := Place.worker.inj (hv.symm.trans h.poller)
      cases (show (s.link.client.workers v).pc = .post from he).symm.trans h.waking
    | wakes v j k hv =>
      obtain rfl : v = w := Place.worker.inj (hv.symm.trans h.poller)
      obtain rfl : j = i := WorkerPc.waking.inj (he.1.symm.trans h.waking)
      cases h.waiter.symm.trans he.2
    | sent d hd | received d x hd | suspends d hd | calls v d e x y hd | posts v d hd
    | runs v d _ hd => cases hd.symm.trans h.poller
  | back =>
    obtain ⟨p, hp⟩ := Option.isSome_iff_exists.mp he
    obtain ⟨v, d, hs, -⟩ := givesBack_spec hp
    cases hs.symm.trans h.poller
  | qp b =>
    obtain ⟨hclient, -⟩ := works_client (o := o) (m := m) (s := s) he.1
    exact ⟨hinv, h.poller, (congrArg (fun u : Client => (u.workers w).pc) hclient).trans h.waking,
      (congrArg (fun u : Client => (u.calls c).slotIdx) hclient).trans h.slotIdx,
      (congrArg (fun u : Client => (u.calls c).pc) hclient).trans h.sending⟩

/-- Nobody else gives a slot back. -/
theorem StuckSlot.step (h : StuckSlot w c s) {b : PolledAction}
    (ht : (polledMachine o m).step s b = some t) : StuckSlot w c t := by
  obtain ⟨he, rfl⟩ := Machine.guarded_step_eq_some.mp ht
  cases b with
  | thread a =>
    obtain ⟨helse, ⟨⟨-, he⟩, -⟩⟩ := he
    have hpc := (elsewhere_call (o := o) (m := m) helse he
      (Or.inr (congrArg Place.inCall h.poller))).1
    have hfree : (next o m s.link.client a).freeSlots = s.link.client.freeSlots := by
      refine next_freeSlots (fun d i hd => ?_) fun d hd => ?_
      · subst hd
        have hi := he.2
        rw [h.freeSlots] at hi
        cases hi
      · subst hd
        cases helse
    exact ⟨h.poller, hpc.trans h.dequeue, hfree.trans h.freeSlots⟩
  | poller a =>
    obtain ⟨hgoes, ⟨⟨-, he⟩, -⟩⟩ := he
    obtain ⟨p, hp⟩ := Option.isSome_iff_exists.mp hgoes
    cases goesTo_spec hp with
    | calls v d e x y hd hc =>
      obtain ⟨-, rfl⟩ := Place.nested.inj (hd.symm.trans h.poller)
      cases hc.symm.trans h.dequeue
    | posts v d hd =>
      obtain ⟨-, rfl⟩ := Place.nested.inj (hd.symm.trans h.poller)
      cases (show (s.link.client.calls d).pc = .post from he).symm.trans h.dequeue
    | runs v d _ hd ha =>
      obtain ⟨-, rfl⟩ := Place.nested.inj (hd.symm.trans h.poller)
      -- the only statement there is a `try_dequeue` that finds a slot
      cases a with
      | dequeue e i =>
        have hi := he.2
        rw [h.freeSlots] at hi
        cases hi
      | fetchAdd e | storeWaiter e | storeBuffer e | storeId e | fill e | resume e | enqueue e =>
        obtain rfl : e = d := of_decide_eq_true ha
        cases he.symm.trans h.dequeue
      | _ => cases ha
    | sent d hd | received d x hd | suspends d hd | checks d hd | copies d i hd | wakes d i k hd
    | reposts d hd => cases hd.symm.trans h.poller
  | back =>
    obtain ⟨p, hp⟩ := Option.isSome_iff_exists.mp he
    obtain ⟨v, d, hs, hd, -⟩ := givesBack_spec hp
    obtain ⟨-, rfl⟩ := Place.nested.inj (hs.symm.trans h.poller)
    cases hd.symm.trans h.dequeue
  | qp b =>
    obtain ⟨hclient, -⟩ := works_client (o := o) (m := m) (s := s) he.1
    exact ⟨h.poller, (congrArg (fun u : Client => (u.calls c).pc) hclient).trans h.dequeue,
      (congrArg Client.freeSlots hclient).trans h.freeSlots⟩

theorem StuckWaiter.selfWait (hm : m < 2 ^ 32) (h : StuckWaiter o m w c i s) :
    SelfWait o m s := by
  refine ⟨.waiter w i, fun t ht => ?_⟩
  have ht := ht.invariant h fun _ _ _ hu _ hv => hu.step hm hv
  exact ⟨ht.poller, ht.waking, ht.waiter⟩

theorem StuckSlot.selfWait (h : StuckSlot w c s) : SelfWait o m s := by
  refine ⟨.freeSlot w c, fun t ht => ?_⟩
  have ht := ht.invariant h fun _ _ _ hu _ hv => hu.step hv
  exact ⟨ht.poller, ht.dequeue, ht.freeSlots⟩

/-- A statement of the poller that it comes to. -/
theorem reach_poller {p : Place} (hgoes : s.goesTo a = some p) (hf : s.link.client.fault = none)
    (he : Enabled s.link.client a) (hpermit : s.link.Permits a) :
    (polledMachine o m).Reach s (polledNext o m s (.poller a)) ∧
      (polledNext o m s (.poller a)).poller = p := by
  refine ⟨.step (.poller a) .start trivial (Machine.guarded_step_eq_some.mpr ⟨⟨?_, ⟨hf, he⟩, hpermit⟩,
    rfl⟩), congrArg (Option.getD · s.poller) hgoes⟩
  rw [hgoes]
  rfl

/-- The poller has the packet of a call whose send's completion it has not dispatched. -/
structure Premature (o : ByteOrder) (m : Nat) (w c : Nat) (p : WorkerPc) (s : Polled) : Prop where
  inv : PolledInv o m s
  poller : s.poller = .worker w
  handled : s.link.recvs w = .handled c
  pc : (s.link.client.workers w).pc = p
  sending : (s.link.client.calls c).pc = .sending
  fault : s.link.client.fault = none

/-- It copies the response and stays in the loop. -/
theorem Premature.matched (hm : m < 2 ^ 32) (h : Premature o m w c (.matched i) s) :
    ∃ u, (polledMachine o m).Reach s u ∧ SelfWait o m u := by
  have hgoes : s.goesTo (.copy w i) = some (.worker w) := by
    unfold Polled.goesTo
    rw [h.poller]
    exact if_pos rfl
  obtain ⟨hr, hplace⟩ := reach_poller (o := o) (m := m) hgoes h.fault h.pc trivial
  have hinv := hr.invariant h.inv fun _ _ _ hi _ ht => polledInv_step hm hi ht
  obtain ⟨hpc, hslot, -⟩ := next_call (o := o) (m := m) (s := s.link.client) (a := .copy w i)
    (d := c) nofun
  have hidx := (h.inv.link.worker w).slot c i h.handled (Or.inl h.pc)
  refine ⟨_, hr, StuckWaiter.selfWait (w := w) (c := c) (i := i) hm ⟨hinv, hplace, ?_,
    hslot.trans hidx.symm, hpc.trans h.sending⟩⟩
  exact congrArg Worker.pc (setWorker_self _ _ _)

/-- The packet passes the check. -/
theorem Premature.received (hm : m < 2 ^ 32) (h : Premature o m w c .received s) :
    ∃ u, (polledMachine o m).Reach s u ∧ SelfWait o m u := by
  have hgoes : s.goesTo (.check w) = some (.worker w) := by
    unfold Polled.goesTo
    rw [h.poller]
    exact if_pos rfl
  obtain ⟨hr, hplace⟩ := reach_poller (o := o) (m := m) hgoes h.fault h.pc trivial
  have hinv := hr.invariant h.inv fun _ _ _ hi _ ht => polledInv_step hm hi ht
  have hchecked : (polledNext o m s (.poller (.check w))).link.client = s.link.client.setWorker w
      { s.link.client.workers w with pc := .matched (s.link.client.calls c).slotIdx } := by
    show s.link.client.checked o m w = _
    unfold Client.checked
    rw [h.inv.link.verdict hm h.handled (by rw [h.pc]; rfl) (by rw [h.sending]; rfl)]
  obtain ⟨u, hu, hself⟩ := Premature.matched (w := w) (c := c)
    (i := (s.link.client.calls c).slotIdx) hm ⟨hinv, hplace, h.handled,
      (congrArg (fun x : Client => (x.workers w).pc) hchecked).trans
        (congrArg Worker.pc (setWorker_self _ _ _)),
      (congrArg (fun x : Client => (x.calls c).pc) hchecked).trans h.sending,
      (congrArg Client.fault hchecked).trans h.fault⟩
  exact ⟨u, hr.trans hu, hself⟩

/-- A response is dispatched to a call that does not wait yet. -/
theorem selfWait_of_received (hm : m < 2 ^ 32) (h : PolledInv o m s)
    {packet : Option (List UInt8)} (he : PolledEnabled o s (.poller (.recvDone w packet)))
    (hc : ¬ Orderly s (.poller (.recvDone w packet))) :
    ∃ u, (polledMachine o m).Reach (polledNext o m s (.poller (.recvDone w packet))) u ∧
      SelfWait o m u := by
  have hinv := polledInv_step hm h (Machine.guarded_step_eq_some.mpr ⟨he, rfl⟩)
  obtain ⟨hgoes, ⟨⟨hf, he⟩, hpermit⟩⟩ := he
  obtain ⟨p, hp⟩ := Option.isSome_iff_exists.mp hgoes
  have hplace : (polledNext o m s (.poller (.recvDone w packet))).poller = p :=
    congrArg (Option.getD · s.poller) hp
  obtain ⟨c, hc⟩ := not_forall.mp hc
  obtain ⟨hcarried, hwait⟩ := Classical.not_imp.mp hc
  cases goesTo_spec hp with
  | runs _ _ _ _ ha => cases ha
  | received _ bytes hidle =>
    obtain ⟨d, hd⟩ := packet_of_completion hpermit
    obtain rfl : d = c := Option.some.inj ((carried_of_packet hd).symm.trans hcarried)
    -- the call has not suspended, or the poller would be in it
    have hsending : (s.link.client.calls d).pc = .sending := by
      rcases (h.link.carried w d hcarried).2 with (⟨hs, -⟩ | hs | hs) | hs
      · exact hs
      · cases hidle.symm.trans (h.suspending d hs)
      · exact absurd hs hwait
      · cases hs.error.symm.trans h.error
    refine Premature.received (w := w) (c := d) hm ⟨hinv, hplace, ?_, ?_, hsending, hf⟩
    · refine (Function.update_self w _ s.link.recvs).trans ?_
      rw [hd]
      rfl
    · exact congrArg Worker.pc (Function.update_self w _ s.link.client.workers)

/-- A step that is not orderly leads to a wait for oneself. -/
theorem selfWait_of_step (hm : m < 2 ^ 32) (h : PolledInv o m s) {b : PolledAction}
    (hc : ¬ Orderly s b) (ht : (polledMachine o m).step s b = some t) :
    ∃ u, (polledMachine o m).Reach t u ∧ SelfWait o m u := by
  obtain ⟨he, rfl⟩ := Machine.guarded_step_eq_some.mp ht
  cases b with
  | back | qp => exact absurd trivial hc
  | thread a =>
    cases a with
    | dequeue d i =>
      -- another thread takes the last slot
      obtain ⟨⟨w, c, hp, hdequeue⟩, hfree⟩ := Classical.not_imp.mp hc
      obtain ⟨helse, ⟨⟨-, he⟩, -⟩⟩ := he
      have hpc := (elsewhere_call (o := o) (m := m) helse he
        (Or.inr (congrArg Place.inCall hp))).1
      exact ⟨_, .start, StuckSlot.selfWait (w := w) (c := c) ⟨hp, hpc.trans hdequeue,
        not_not.mp hfree⟩⟩
    | _ => exact absurd trivial hc
  | poller a =>
    cases a with
    | recvDone w packet => exact selfWait_of_received hm h he hc
    | call d reqData respBuffer =>
      -- the caller goes on without a free slot
      obtain ⟨p, hp⟩ := Option.isSome_iff_exists.mp he.1
      have hplace : (polledNext o m s (.poller (.call d reqData respBuffer))).poller = p :=
        congrArg (Option.getD · s.poller) hp
      cases goesTo_spec hp with
      | runs _ _ _ _ ha => cases ha
      | calls w c =>
        have hpc : ((next o m s.link.client (.call d reqData respBuffer)).calls d).pc = .dequeue :=
          next_place rfl rfl
        exact ⟨_, .start, StuckSlot.selfWait (w := w) (c := d) ⟨hplace, hpc, not_not.mp hc⟩⟩
    | _ => exact absurd trivial hc

/-- **When the poller waits for itself.** Along orderly steps it never does: no response is
    dispatched before the call waits for it, and a caller that goes on to a further call within the
    poller finds a free slot. From the first step that is not orderly a run leads to a state in
    which the poller is in a loop that nothing but its own dispatching can end. -/
theorem self_wait_iff (o : ByteOrder) (m : Nat) (hm : m < 2 ^ 32) :
    (∀ s, (polledMachine o m).ReachIf Orderly (Polled.start m) s → ¬ SelfWait o m s) ∧
    ∀ s t b, (polledMachine o m).ReachIf Orderly (Polled.start m) s →
      (polledMachine o m).step s b = some t → ¬ Orderly s b →
      ∃ u, (polledMachine o m).Reach t u ∧ SelfWait o m u := by
  constructor
  · intro s h ⟨loop, hloop⟩
    obtain ⟨hi, hs⟩ := served_reach hm h
    exact hs.not_spins hi loop (hloop s .start)
  · intro s t b h ht hc
    exact selfWait_of_step hm (served_reach hm h).1 hc ht

end Poller

/-! ## 6. A response before its send -/

/-- The response to call 0. -/
def response : List UInt8 := List.replicate 8 0 ++ [1, 0, 0, 0, 0, 0, 0, 0, 9]

/-- Another thread goes on with call 0 to its post, and posts the receive of worker 0; the peer
    answers, and both completions are in the CQ. -/
def answered : List PolledAction :=
  [.thread (.fetchAdd 0), .thread (.storeWaiter 0), .thread (.storeBuffer 0), .thread (.storeId 0),
    .thread (.fill 0), .thread (.post 0 true), .thread (.postRecv 0 true), .qp (.deliver 0),
    .qp (.completeSend 0 true), .qp (.answer 0 0 response)]

/-- The statements that are orderly in every state. -/
def PolledAction.always : PolledAction → Bool
  | .poller (.recvDone ..) | .poller (.call ..) | .thread (.dequeue ..) => false
  | _ => true

theorem orderly_of_always {b : PolledAction} (h : b.always = true) (s : Polled) : Orderly s b := by
  unfold Orderly
  split
  · cases h
  · cases h
  · cases h
  · trivial

/-- A state the poller is at rest in; and the response, dispatched first. -/
theorem self_wait_iff_response : ∃ s t u : Polled, ¬ SelfWait .little 1 s ∧
    (polledMachine .little 1).step s (.poller (.recvDone 0 (some response))) = some t ∧
    (polledMachine .little 1).Reach t u ∧ SelfWait .little 1 u := by
  obtain ⟨hnever, hleads⟩ := self_wait_iff .little 1 (by decide)
  have hcall : (polledMachine .little 1).ReachIf Orderly (Polled.start 1) _ :=
    Machine.reachIf_of_run [.thread (.call 0 [7] [0])]
      (fun b hb => orderly_of_always
        (List.all_eq_true.mp (rfl : List.all _ PolledAction.always = true) b hb)) rfl
  have hslot := Machine.ReachIf.step (PolledAction.thread (.dequeue 0 0)) hcall
    (fun ⟨_, _, hp, _⟩ => nomatch hp) rfl
  obtain ⟨s, hr, hs⟩ := hslot.exists_of_run answered
    (fun b hb => orderly_of_always
      (List.all_eq_true.mp (by rfl : answered.all PolledAction.always = true) b hb))
    (fun s => s.link.carried 0 = some 0 ∧ (s.link.client.calls 0).pc = .sending ∧
      ((polledMachine .little 1).step s (.poller (.recvDone 0 (some response)))).isSome = true)
    (by decide +kernel)
  obtain ⟨hcarried, hp, hstep⟩ := of_decide_eq_true hs
  obtain ⟨t, ht⟩ := Option.isSome_iff_exists.mp hstep
  obtain ⟨u, hu, hself⟩ := hleads s t _ hr ht fun hc => nomatch hp.symm.trans (hc 0 hcarried)
  exact ⟨s, t, u, hnever s hr, ht, hu, hself⟩

/-- The poller copies the response and waits for a waiter; the completion of the send, which would
    bring it, is in the CQ. -/
theorem waits_for_itself : ∃ s : Polled, (polledMachine .little 1).Reach (Polled.start 1) s ∧
    s.link.sends 0 = .done true ∧ SelfWait .little 1 s := by
  obtain ⟨s, hr, hs⟩ := Machine.exists_reach_of_run (M := polledMachine .little 1)
    (s := Polled.start 1)
    ([.thread (.call 0 [7] [0]), .thread (.dequeue 0 0)] ++ answered ++
      [.poller (.recvDone 0 (some response)), .poller (.check 0), .poller (.copy 0 0)])
    (fun s => s.link.sends 0 = .done true ∧ s.poller = .worker 0 ∧
      (s.link.client.workers 0).pc = .waking 0 ∧ (s.link.client.calls 0).slotIdx = 0 ∧
      (s.link.client.calls 0).pc = .sending) (by decide +kernel)
  obtain ⟨hsent, hp, hw, hslot, hc⟩ := of_decide_eq_true hs
  exact ⟨s, hr, hsent, StuckWaiter.selfWait (w := 0) (c := 0) (i := 0) (by decide)
    ⟨polledInv_reach (by decide) hr, hp, hw, hslot, hc⟩⟩

end Rpc
end Rdmapp
