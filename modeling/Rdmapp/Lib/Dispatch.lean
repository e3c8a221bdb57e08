/-
  File:      Rdmapp/Lib/Dispatch.lean
  Subject:   COMPLETION QUEUES DISPATCHED BY ADDRESS.

  Operations live at addresses. Posting one hands its address to an adapter; if the adapter
  accepts it, it generates one entry for it, carrying that address, at the end of a queue. A
  poller for each queue takes entries from its front in batches and delivers each to whatever
  operation lives at the entry's address. Finished operations are freed and their addresses
  used again.

  The pollers see addresses only. `Client.inv_reach` is the invariant that makes this work:
  an entry on its way belongs to a waiting operation that still lives at the entry's address,
  so each entry is delivered once, to its own operation, in queue order.
-/
import Rdmapp.Lib.Transition
import Mathlib.Data.List.Nodup

namespace Lib

/-! ## 1. Clients -/

/-- Operations `ι` on queues `κ`, at addresses `A`, with entries `ε`; each operation has a local
    state `σ`. -/
structure Client (ι κ A ε σ : Type*) where
  addr : ι → A
  /-- The queue an entry for the operation goes to. -/
  queue : ι → ε → κ
  /-- How many entries a poller takes at most. -/
  batchSize : κ → Nat
  /-- The address an entry carries. -/
  key : ε → A
  start : ι → σ
  /-- Posting: whether the adapter accepts, and the local state afterwards. -/
  post : ι → σ → Bool × σ
  /-- The poller delivers an entry. -/
  deliver : ε → σ → σ
  /-- The posting call returns after a refusal. -/
  proceed : σ → σ

namespace Client

variable {ι κ A ε σ : Type*}

/-- The stations of an operation. -/
inductive Phase where
  | absent
  | created
  /-- Accepted, no entry generated yet. -/
  | posted
  /-- Its entry is generated and not delivered yet. -/
  | completed
  /-- Refused, the posting call has not returned yet. -/
  | refused
  | finished
  | freed
  deriving DecidableEq, Repr

/-- The operation waits for its entry. -/
def Phase.waiting (p : Phase) : Bool := p == .posted || p == .completed

/-- The operation lives at its address. -/
def Phase.alive (p : Phase) : Bool := p != .absent && p != .freed

/-- The operation has not been posted. -/
def Phase.fresh (p : Phase) : Bool := p == .absent || p == .created

/-- The operation has had its turn. -/
def Phase.done (p : Phase) : Bool := p == .finished || p == .freed

structure State (ι κ A ε σ : Type*) where
  phase : ι → Phase
  /-- The posting call has not returned. -/
  inside : ι → Bool
  loc : ι → σ
  /-- Who lives at an address. -/
  table : A → Option ι
  /-- The entries of each queue, with the operation each was generated for: all of them, those
      delivered, those in the poller's batch, those still in the queue. -/
  generated : κ → List (ι × ε)
  seen : κ → List (ι × ε)
  batch : κ → List (ι × ε)
  queue : κ → List (ι × ε)
  /-- The entries delivered to an operation. -/
  got : ι → List ε
  /-- An entry met no waiting operation at its address. -/
  stray : Bool

inductive Action (ι κ ε : Type*) where
  | create (i : ι)
  | post (i : ι)
  /-- The posting call returns. -/
  | leave (i : ι)
  /-- The adapter generates an entry. -/
  | complete (i : ι) (e : ε)
  | poll (c : κ) (n : Nat)
  | dispatch (c : κ)
  | free (i : ι)

/-- Nothing has happened yet. -/
def init (C : Client ι κ A ε σ) : State ι κ A ε σ where
  phase _ := .absent
  inside _ := false
  loc := C.start
  table _ := none
  generated _ := []
  seen _ := []
  batch _ := []
  queue _ := []
  got _ := []
  stray := false

variable [DecidableEq ι] [DecidableEq κ] [DecidableEq A]

/-- Delivering an entry: by its address. -/
def deliverTo (C : Client ι κ A ε σ) (s : State ι κ A ε σ) (e : ε) : State ι κ A ε σ :=
  match s.table (C.key e) with
  | none => { s with stray := true }
  | some i =>
    if (s.phase i).waiting then
      { s with phase := Function.update s.phase i .finished
               loc := Function.update s.loc i (C.deliver e (s.loc i))
               got := Function.update s.got i (s.got i ++ [e]) }
    else { s with stray := true }

def step (C : Client ι κ A ε σ) (s : State ι κ A ε σ) (a : Action ι κ ε) :
    Option (State ι κ A ε σ) :=
  match a with
  | .create i =>
    -- no two operations live at one address
    if s.phase i = .absent ∧ (s.table (C.addr i)).isNone then
      some { s with phase := Function.update s.phase i .created
                    table := Function.update s.table (C.addr i) (some i) }
    else none
  | .post i =>
    if s.phase i = .created then
      let r := C.post i (s.loc i)
      some { s with phase := Function.update s.phase i (if r.1 then .posted else .refused)
                    inside := Function.update s.inside i true
                    loc := Function.update s.loc i r.2 }
    else none
  | .leave i =>
    if s.inside i then
      let s := { s with inside := Function.update s.inside i false }
      if s.phase i = .refused then
        some { s with phase := Function.update s.phase i .finished
                      loc := Function.update s.loc i (C.proceed (s.loc i)) }
      else some s
    else none
  | .complete i e =>
    if s.phase i = .posted ∧ C.key e = C.addr i then
      some { s with phase := Function.update s.phase i .completed
                    generated := Function.update s.generated (C.queue i e)
                      (s.generated (C.queue i e) ++ [(i, e)])
                    queue := Function.update s.queue (C.queue i e)
                      (s.queue (C.queue i e) ++ [(i, e)]) }
    else none
  | .poll c n =>
    if s.batch c = [] ∧ 0 < n ∧ n ≤ C.batchSize c ∧ n ≤ (s.queue c).length then
      some { s with batch := Function.update s.batch c ((s.queue c).take n)
                    queue := Function.update s.queue c ((s.queue c).drop n) }
    else none
  | .dispatch c =>
    match s.batch c with
    | [] => none
    | p :: rest =>
      some (C.deliverTo
        { s with batch := Function.update s.batch c rest
                 seen := Function.update s.seen c (s.seen c ++ [p]) } p.2)
  | .free i =>
    if s.phase i = .finished then
      some { s with phase := Function.update s.phase i .freed
                    table := Function.update s.table (C.addr i) none }
    else none

def machine (C : Client ι κ A ε σ) : Machine (State ι κ A ε σ) (Action ι κ ε) := ⟨C.step⟩

/-! ## 2. What a step can do -/

variable {C : Client ι κ A ε σ} {s t : State ι κ A ε σ} {a : Action ι κ ε}

/-- The steps, one constructor for each way an action can go. -/
inductive Moves (C : Client ι κ A ε σ) (s : State ι κ A ε σ) :
    Action ι κ ε → State ι κ A ε σ → Prop
  | created (i : ι) (hp : s.phase i = .absent) (ht : s.table (C.addr i) = none) :
      Moves C s (.create i)
        { s with phase := Function.update s.phase i .created
                 table := Function.update s.table (C.addr i) (some i) }
  | accepted (i : ι) (hp : s.phase i = .created) (ha : (C.post i (s.loc i)).1 = true) :
      Moves C s (.post i)
        { s with phase := Function.update s.phase i .posted
                 inside := Function.update s.inside i true
                 loc := Function.update s.loc i (C.post i (s.loc i)).2 }
  | refused (i : ι) (hp : s.phase i = .created) (ha : (C.post i (s.loc i)).1 = false) :
      Moves C s (.post i)
        { s with phase := Function.update s.phase i .refused
                 inside := Function.update s.inside i true
                 loc := Function.update s.loc i (C.post i (s.loc i)).2 }
  | dismissed (i : ι) (hp : s.phase i = .refused) :
      Moves C s (.leave i)
        { s with phase := Function.update s.phase i .finished
                 inside := Function.update s.inside i false
                 loc := Function.update s.loc i (C.proceed (s.loc i)) }
  | left (i : ι) (hp : s.phase i ≠ .refused) :
      Moves C s (.leave i) { s with inside := Function.update s.inside i false }
  | completed (i : ι) (e : ε) (hp : s.phase i = .posted) (hk : C.key e = C.addr i) :
      Moves C s (.complete i e)
        { s with phase := Function.update s.phase i .completed
                 generated := Function.update s.generated (C.queue i e)
                   (s.generated (C.queue i e) ++ [(i, e)])
                 queue := Function.update s.queue (C.queue i e)
                   (s.queue (C.queue i e) ++ [(i, e)]) }
  | polled (c : κ) (n : Nat) (hb : s.batch c = []) (hn : n ≤ C.batchSize c) :
      Moves C s (.poll c n)
        { s with batch := Function.update s.batch c ((s.queue c).take n)
                 queue := Function.update s.queue c ((s.queue c).drop n) }
  | delivered (c : κ) (p : ι × ε) (rest : List (ι × ε)) (hb : s.batch c = p :: rest) (i : ι)
      (ht : s.table (C.key p.2) = some i) (hw : (s.phase i).waiting = true) :
      Moves C s (.dispatch c)
        { s with batch := Function.update s.batch c rest
                 seen := Function.update s.seen c (s.seen c ++ [p])
                 phase := Function.update s.phase i .finished
                 loc := Function.update s.loc i (C.deliver p.2 (s.loc i))
                 got := Function.update s.got i (s.got i ++ [p.2]) }
  | strayed (c : κ) (p : ι × ε) (rest : List (ι × ε)) (hb : s.batch c = p :: rest)
      (h : ∀ i, s.table (C.key p.2) = some i → (s.phase i).waiting = false) :
      Moves C s (.dispatch c)
        { s with batch := Function.update s.batch c rest
                 seen := Function.update s.seen c (s.seen c ++ [p])
                 stray := true }
  | freed (i : ι) (hp : s.phase i = .finished) :
      Moves C s (.free i)
        { s with phase := Function.update s.phase i .freed
                 table := Function.update s.table (C.addr i) none }

/-- **Every step is one of `Moves`.** -/
theorem moves_of_step (h : C.step s a = some t) : Moves C s a t := by
  cases a with
  | create i =>
    obtain ⟨hi, h⟩ := Option.ite_none_right_eq_some.mp h
    cases h
    exact .created i hi.1 (Option.isNone_iff_eq_none.mp hi.2)
  | post i =>
    obtain ⟨hi, h⟩ := Option.ite_none_right_eq_some.mp h
    cases h
    cases ha : (C.post i (s.loc i)).1 with
    | true => exact .accepted i hi ha
    | false => exact .refused i hi ha
  | leave i =>
    obtain ⟨-, h⟩ := Option.ite_none_right_eq_some.mp h
    split at h
    · rename_i hp
      cases h
      exact .dismissed i hp
    · rename_i hp
      cases h
      exact .left i hp
  | complete i e =>
    obtain ⟨hi, h⟩ := Option.ite_none_right_eq_some.mp h
    cases h
    exact .completed i e hi.1 hi.2
  | poll c n =>
    obtain ⟨hi, h⟩ := Option.ite_none_right_eq_some.mp h
    cases h
    exact .polled c n hi.1 hi.2.2.1
  | dispatch c =>
    simp only [step] at h
    split at h
    · cases h
    · rename_i p rest hb
      cases h
      unfold deliverTo
      dsimp only
      split
      · rename_i ht
        exact .strayed c p rest hb fun i hi => by rw [ht] at hi; cases hi
      · rename_i i ht
        split
        · rename_i hw
          exact .delivered c p rest hb i ht hw
        · rename_i hw
          refine .strayed c p rest hb fun j hj => ?_
          rw [ht] at hj
          cases hj
          simpa using hw
  | free i =>
    obtain ⟨hi, h⟩ := Option.ite_none_right_eq_some.mp h
    cases h
    exact .freed i hi

/-! ## 3. The invariant -/

/-- The entries of a queue on their way to the poller's operations. -/
def State.pending (s : State ι κ A ε σ) (c : κ) : List (ι × ε) := s.batch c ++ s.queue c

/-- The adapter accepts the operation. -/
def accepts (C : Client ι κ A ε σ) (i : ι) : Bool := (C.post i (C.start i)).1

/-- The local state the post leaves. -/
def afterPost (C : Client ι κ A ε σ) (i : ι) : σ := (C.post i (C.start i)).2

/-- One operation: its station, its local state, what it has been delivered. -/
inductive OpLife (C : Client ι κ A ε σ) (s : State ι κ A ε σ) (i : ι) : Prop
  | fresh (hp : s.phase i = .absent ∨ s.phase i = .created) (hl : s.loc i = C.start i)
      (hg : s.got i = [])
  | waiting (hp : (s.phase i).waiting = true) (ha : C.accepts i = true)
      (hl : s.loc i = C.afterPost i) (hg : s.got i = [])
  | refused (hp : s.phase i = .refused) (ha : C.accepts i = false) (hl : s.loc i = C.afterPost i)
      (hg : s.got i = [])
  | delivered (hp : (s.phase i).done = true) (ha : C.accepts i = true) (e : ε)
      (hs : (i, e) ∈ s.seen (C.queue i e)) (hl : s.loc i = C.deliver e (C.afterPost i))
      (hg : s.got i = [e])
  | dismissed (hp : (s.phase i).done = true) (ha : C.accepts i = false)
      (hl : s.loc i = C.proceed (C.afterPost i)) (hg : s.got i = [])

/-- **The invariant**: who lives where, whose the pending entries are, what was delivered. -/
structure Inv (C : Client ι κ A ε σ) (s : State ι κ A ε σ) : Prop where
  ops : ∀ i, OpLife C s i
  table_eq : ∀ a i, s.table a = some i ↔ C.addr i = a ∧ (s.phase i).alive = true
  pending : ∀ c p, p ∈ s.pending c →
    C.queue p.1 p.2 = c ∧ s.phase p.1 = .completed ∧ C.key p.2 = C.addr p.1
  pendingOne : ∀ c d p q, p ∈ s.pending c → q ∈ s.pending d → p.1 = q.1 → c = d
  pendingOf : ∀ i, s.phase i = .completed → ∃ e, (i, e) ∈ s.pending (C.queue i e)
  seenDone : ∀ c p, p ∈ s.seen c →
    C.queue p.1 p.2 = c ∧ (s.phase p.1).done = true ∧ s.got p.1 = [p.2]
  nodup : ∀ c, ((s.seen c ++ s.pending c).map Prod.fst).Nodup
  generated_eq : ∀ c, s.generated c = s.seen c ++ s.pending c
  refusedInside : ∀ i, s.phase i = .refused → s.inside i = true
  stray_eq : s.stray = false

omit [DecidableEq ι] [DecidableEq κ] [DecidableEq A] in
theorem inv_init (C : Client ι κ A ε σ) : Inv C C.init where
  ops _ := .fresh (Or.inl rfl) rfl rfl
  table_eq a i := by
    constructor
    · intro h
      cases h
    · intro h
      cases h.2
  pending _ _ h := by cases h
  pendingOne _ _ _ _ h := by cases h
  pendingOf _ h := by cases h
  seenDone _ _ h := by cases h
  nodup _ := List.nodup_nil
  generated_eq _ := rfl
  refusedInside _ h := by cases h
  stray_eq := rfl

omit [DecidableEq ι] [DecidableEq κ] [DecidableEq A] in
/-- An operation is as it was when its own part of the state is, with more entries seen. -/
theorem OpLife.congr {i : ι} (h : OpLife C s i) (hp : t.phase i = s.phase i)
    (hl : t.loc i = s.loc i) (hg : t.got i = s.got i)
    (hs : ∀ e, (i, e) ∈ s.seen (C.queue i e) → (i, e) ∈ t.seen (C.queue i e)) : OpLife C t i := by
  cases h with
  | fresh hp' hl' hg' => exact .fresh (hp ▸ hp') (hl.trans hl') (hg.trans hg')
  | waiting hp' ha hl' hg' => exact .waiting (hp ▸ hp') ha (hl.trans hl') (hg.trans hg')
  | refused hp' ha hl' hg' => exact .refused (hp.trans hp') ha (hl.trans hl') (hg.trans hg')
  | delivered hp' ha e hs' hl' hg' =>
    exact .delivered (hp ▸ hp') ha e (hs e hs') (hl.trans hl') (hg.trans hg')
  | dismissed hp' ha hl' hg' => exact .dismissed (hp ▸ hp') ha (hl.trans hl') (hg.trans hg')

omit [DecidableEq κ] [DecidableEq A] in
/-- A move of operation `i` to the station `p`, with no entry on its way before or after. -/
theorem Inv.moved (h : Inv C s) (i : ι) (p : Phase) (hph : t.phase = Function.update s.phase i p)
    (hseen : t.seen = s.seen) (hpend : t.pending = s.pending)
    (hrest : t.generated = s.generated ∧ t.got = s.got ∧ t.stray = s.stray)
    (hloc : ∀ j, j ≠ i → t.loc j = s.loc j ∧ t.inside j = s.inside j)
    (hs : s.phase i ≠ .completed) (hp : p ≠ .completed) (hd : (s.phase i).done = true → p.done = true)
    (hin : p = .refused → t.inside i = true) (hi : OpLife C t i)
    (htable : ∀ a j, t.table a = some j ↔ C.addr j = a ∧ (t.phase j).alive = true) : Inv C t := by
  obtain ⟨hgen, hgot, hstray⟩ := hrest
  have hphi : t.phase i = p := by rw [hph, Function.update_self]
  have hphj : ∀ j, j ≠ i → t.phase j = s.phase j := fun j hj => by
    rw [hph, Function.update_of_ne hj]
  refine ⟨?_, htable, ?_, ?_, ?_, ?_, ?_, ?_, ?_, hstray.trans h.stray_eq⟩
  · intro j
    by_cases hji : j = i
    · rw [hji]
      exact hi
    · exact (h.ops j).congr (hphj j hji) (hloc j hji).1 (by rw [hgot]) fun e he => by rwa [hseen]
  · intro c q hq
    rw [hpend] at hq
    obtain ⟨hc, hq', hk⟩ := h.pending c q hq
    have hne : q.1 ≠ i := fun he => hs (he ▸ hq')
    exact ⟨hc, (hphj _ hne).trans hq', hk⟩
  · rw [hpend]
    exact h.pendingOne
  · intro j hj
    have hne : j ≠ i := fun he => hp (hphi.symm.trans (he ▸ hj))
    rw [hpend]
    exact h.pendingOf j ((hphj j hne).symm.trans hj)
  · intro c q hq
    rw [hseen] at hq
    obtain ⟨hc, hq', hg⟩ := h.seenDone c q hq
    refine ⟨hc, ?_, by rw [hgot]; exact hg⟩
    by_cases hqi : q.1 = i
    · rw [hqi] at hq' ⊢
      rw [hphi]
      exact hd hq'
    · rw [hphj _ hqi]
      exact hq'
  · intro c
    rw [hseen, hpend]
    exact h.nodup c
  · intro c
    rw [hgen, hseen, hpend]
    exact h.generated_eq c
  · intro j hj
    by_cases hji : j = i
    · rw [hji] at hj ⊢
      exact hin (hphi.symm.trans hj)
    · rw [(hloc j hji).2]
      exact h.refusedInside j ((hphj j hji).symm.trans hj)

omit [DecidableEq κ] [DecidableEq A] in
/-- Who lives where stays when no operation is born or dies. -/
theorem Inv.table_of_alive (h : Inv C s) {i : ι} {p : Phase} (hp : p.alive = (s.phase i).alive)
    (a : A) (j : ι) :
    s.table a = some j ↔ C.addr j = a ∧ (Function.update s.phase i p j).alive = true := by
  rw [h.table_eq]
  by_cases hji : j = i
  · rw [hji, Function.update_self, hp]
  · rw [Function.update_of_ne hji]

omit [DecidableEq κ] in
/-- A new operation moves into a free address. -/
theorem Inv.create (h : Inv C s) {i : ι} (hp : s.phase i = .absent)
    (ht : s.table (C.addr i) = none) :
    Inv C { s with phase := Function.update s.phase i .created
                   table := Function.update s.table (C.addr i) (some i) } := by
  have hl := h.ops i
  refine h.moved i .created rfl rfl rfl ⟨rfl, rfl, rfl⟩ (fun j _ => ⟨rfl, rfl⟩) (by rw [hp]; decide)
    (by decide) (fun hd => by rw [hp] at hd; cases hd) (fun he => by cases he) ?_ fun a j => ?_
  · cases hl with
    | fresh _ hl hg => exact .fresh (Or.inr (Function.update_self _ _ _)) hl hg
    | _ => simp_all [Phase.waiting, Phase.done]
  · dsimp only
    by_cases hji : j = i
    · by_cases ha : a = C.addr i
      · rw [hji, ha, Function.update_self, Function.update_self]
        exact ⟨fun _ => ⟨rfl, rfl⟩, fun _ => rfl⟩
      · rw [hji, Function.update_of_ne ha, h.table_eq, hp]
        exact ⟨(fun hs => by cases hs.2), fun hs => absurd hs.1.symm ha⟩
    · rw [Function.update_of_ne hji, ← h.table_eq]
      by_cases ha : a = C.addr i
      · rw [ha, Function.update_self, ht]
        exact ⟨fun hs => absurd (Option.some.inj hs).symm hji, fun hs => by cases hs⟩
      · rw [Function.update_of_ne ha]

omit [DecidableEq κ] in
/-- A finished operation leaves its address. -/
theorem Inv.free (h : Inv C s) {i : ι} (hp : s.phase i = .finished) :
    Inv C { s with phase := Function.update s.phase i .freed
                   table := Function.update s.table (C.addr i) none } := by
  have hl := h.ops i
  refine h.moved i .freed rfl rfl rfl ⟨rfl, rfl, rfl⟩ (fun j _ => ⟨rfl, rfl⟩) (by rw [hp]; decide)
    (by decide) (fun _ => rfl) (fun he => by cases he) ?_ fun a j => ?_
  · have hd : (Function.update s.phase i .freed i).done = true := by
      rw [Function.update_self]
      rfl
    cases hl with
    | delivered _ ha e hs hl hg => exact .delivered hd ha e hs hl hg
    | dismissed _ ha hl hg => exact .dismissed hd ha hl hg
    | _ => simp_all [Phase.waiting]
  · dsimp only
    have hi : s.table (C.addr i) = some i := (h.table_eq _ _).mpr ⟨rfl, by rw [hp]; rfl⟩
    by_cases hji : j = i
    · rw [hji, Function.update_self]
      by_cases ha : a = C.addr i
      · rw [ha, Function.update_self]
        exact ⟨(fun hs => by cases hs), fun hs => by cases hs.2⟩
      · rw [Function.update_of_ne ha]
        constructor
        · intro hs
          exact absurd ((h.table_eq _ _).mp hs).1.symm ha
        · intro hs
          cases hs.2
    · rw [Function.update_of_ne hji, ← h.table_eq]
      by_cases ha : a = C.addr i
      · rw [ha, Function.update_self, hi]
        exact ⟨(fun hs => by cases hs), fun hs => absurd (Option.some.inj hs).symm hji⟩
      · rw [Function.update_of_ne ha]

omit [DecidableEq κ] [DecidableEq A] in
/-- The post of a created operation. -/
theorem Inv.post (h : Inv C s) {i : ι} (hp : s.phase i = .created) :
    Inv C { s with phase := Function.update s.phase i
                     (if (C.post i (s.loc i)).1 then .posted else .refused)
                   inside := Function.update s.inside i true
                   loc := Function.update s.loc i (C.post i (s.loc i)).2 } := by
  have hl := h.ops i
  have hloc : s.loc i = C.start i ∧ s.got i = [] := by
    cases hl with
    | fresh _ hl hg => exact ⟨hl, hg⟩
    | _ => simp_all [Phase.waiting, Phase.done]
  have hr : (if (C.post i (s.loc i)).1 then Phase.posted else .refused).alive = true ∧
      (if (C.post i (s.loc i)).1 then Phase.posted else .refused) ≠ .completed := by
    split <;> decide
  refine h.moved i _ rfl rfl rfl ⟨rfl, rfl, rfl⟩
    (fun j hj => ⟨Function.update_of_ne hj _ _, Function.update_of_ne hj _ _⟩) (by rw [hp]; decide)
    hr.2 (fun hd => by rw [hp] at hd; cases hd) (fun _ => Function.update_self _ _ _) ?_
    (h.table_of_alive (by rw [hp]; exact hr.1))
  have hself : Function.update s.loc i (C.post i (s.loc i)).2 i = C.afterPost i := by
    rw [Function.update_self, hloc.1]
    rfl
  cases ha : (C.post i (s.loc i)).1 with
  | true =>
    rw [hloc.1] at ha
    refine .waiting ?_ ha hself hloc.2
    dsimp only
    rw [Function.update_self]
    rfl
  | false =>
    rw [hloc.1] at ha
    exact .refused (Function.update_self _ _ _) ha hself hloc.2

omit [DecidableEq κ] [DecidableEq A] in
/-- The posting call of a refused operation returns. -/
theorem Inv.dismiss (h : Inv C s) {i : ι} (hp : s.phase i = .refused) :
    Inv C { s with phase := Function.update s.phase i .finished
                   inside := Function.update s.inside i false
                   loc := Function.update s.loc i (C.proceed (s.loc i)) } := by
  have hl := h.ops i
  refine h.moved i .finished rfl rfl rfl ⟨rfl, rfl, rfl⟩
    (fun j hj => ⟨Function.update_of_ne hj _ _, Function.update_of_ne hj _ _⟩) (by rw [hp]; decide)
    (by decide) (fun _ => rfl) (fun he => by cases he) ?_ (h.table_of_alive (by rw [hp]; rfl))
  cases hl with
  | refused _ ha hl hg =>
    refine .dismissed ?_ ha ?_ hg
    · dsimp only
      rw [Function.update_self]
      rfl
    · dsimp only
      rw [Function.update_self, hl]
  | _ => simp_all [Phase.waiting, Phase.done]

omit [DecidableEq κ] [DecidableEq A] in
/-- The posting call of an accepted operation returns, whenever that is. -/
theorem Inv.left (h : Inv C s) {i : ι} (hp : s.phase i ≠ .refused) :
    Inv C { s with inside := Function.update s.inside i false } := by
  refine ⟨fun j => (h.ops j).congr rfl rfl rfl fun _ he => he, h.table_eq, h.pending,
    h.pendingOne, h.pendingOf,
    h.seenDone, h.nodup, h.generated_eq, ?_, h.stray_eq⟩
  intro j hj
  have hji : j ≠ i := fun he => hp (he ▸ hj)
  dsimp only
  rw [Function.update_of_ne hji]
  exact h.refusedInside j hj

omit [DecidableEq ι] [DecidableEq κ] [DecidableEq A] in
theorem mem_append_ite {P : Prop} [Decidable P] {l : List (ι × ε)} {x p : ι × ε}
    (h : p ∈ l ++ if P then [x] else []) : p ∈ l ∨ (P ∧ p = x) := by
  rcases List.mem_append.mp h with h | h
  · exact Or.inl h
  · split at h
    · rename_i hP
      exact Or.inr ⟨hP, List.mem_singleton.mp h⟩
    · cases h

omit [DecidableEq A] in
/-- The adapter generates the entry of a waiting operation. -/
theorem Inv.complete (h : Inv C s) {i : ι} {e : ε} (hp : s.phase i = .posted)
    (hk : C.key e = C.addr i) (hph : t.phase = Function.update s.phase i .completed)
    (hpend : ∀ c, t.pending c = s.pending c ++ if c = C.queue i e then [(i, e)] else [])
    (hgen : ∀ c, t.generated c = s.generated c ++ if c = C.queue i e then [(i, e)] else [])
    (hseen : t.seen = s.seen) (hloc : t.loc = s.loc ∧ t.got = s.got)
    (hrest : t.table = s.table ∧ t.inside = s.inside ∧ t.stray = s.stray) : Inv C t := by
  obtain ⟨hloc, hgot⟩ := hloc
  obtain ⟨htable, hin, hstray⟩ := hrest
  have hphi : t.phase i = .completed := by rw [hph, Function.update_self]
  have hphj : ∀ j, j ≠ i → t.phase j = s.phase j := fun j hj => by
    rw [hph, Function.update_of_ne hj]
  -- no entry of `i` was generated before
  have hfresh : ∀ c p, p ∈ s.seen c ++ s.pending c → p.1 ≠ i := by
    intro c p hm he
    rcases List.mem_append.mp hm with hm | hm
    · have hd := (h.seenDone c p hm).2.1
      rw [he, hp] at hd
      cases hd
    · have hc := (h.pending c p hm).2.1
      rw [he, hp] at hc
      cases hc
  refine ⟨?_, ?_, ?_, ?_, ?_, ?_, ?_, ?_, ?_, hstray.trans h.stray_eq⟩
  · intro j
    by_cases hji : j = i
    · have hl := h.ops i
      rw [hji]
      cases hl with
      | waiting _ ha hl hg =>
        exact .waiting (by rw [hphi]; rfl) ha (by rw [hloc]; exact hl) (by rw [hgot]; exact hg)
      | _ => simp_all [Phase.done]
    · exact (h.ops j).congr (hphj j hji) (by rw [hloc]) (by rw [hgot]) fun _ he => by rwa [hseen]
  · intro a j
    rw [htable, hph]
    exact h.table_of_alive (by rw [hp]; rfl) a j
  · intro c p hm
    rcases mem_append_ite (hpend c ▸ hm) with hm | ⟨hc, rfl⟩
    · obtain ⟨hc, hph', hk'⟩ := h.pending c p hm
      exact ⟨hc, (hphj _ (hfresh c p (List.mem_append_right _ hm))).trans hph', hk'⟩
    · exact ⟨hc.symm, hphi, hk⟩
  · intro c d p q hm hn he
    rcases mem_append_ite (hpend c ▸ hm) with hm | ⟨hc, hm⟩
    · rcases mem_append_ite (hpend d ▸ hn) with hn | ⟨-, hn⟩
      · exact h.pendingOne c d p q hm hn he
      · exact absurd (he.trans (congrArg Prod.fst hn)) (hfresh c p (List.mem_append_right _ hm))
    · rcases mem_append_ite (hpend d ▸ hn) with hn | ⟨hd, -⟩
      · exact absurd (he.symm.trans (congrArg Prod.fst hm))
          (hfresh d q (List.mem_append_right _ hn))
      · exact hc.trans hd.symm
  · intro j hj
    by_cases hji : j = i
    · refine ⟨e, ?_⟩
      rw [hpend, hji, if_pos rfl]
      exact List.mem_append_right _ (List.mem_singleton_self _)
    · obtain ⟨e', he'⟩ := h.pendingOf j ((hphj j hji).symm.trans hj)
      refine ⟨e', ?_⟩
      rw [hpend]
      exact List.mem_append_left _ he'
  · intro c p hm
    rw [hseen] at hm
    obtain ⟨hc, hd, hg⟩ := h.seenDone c p hm
    refine ⟨hc, ?_, by rw [hgot]; exact hg⟩
    rw [hphj _ (hfresh c p (List.mem_append_left _ hm))]
    exact hd
  · intro c
    rw [hseen, hpend, ← List.append_assoc, List.map_append, List.nodup_append]
    refine ⟨h.nodup c, ?_, ?_⟩
    · split
      · exact List.nodup_singleton _
      · exact List.nodup_nil
    · intro x hx y hy hxy
      obtain ⟨p, hp', rfl⟩ := List.mem_map.mp hx
      split at hy
      · exact hfresh c p hp' (hxy.trans (List.mem_singleton.mp hy))
      · cases hy
  · intro c
    rw [hgen, hseen, hpend, h.generated_eq, List.append_assoc]
  · intro j hj
    have hji : j ≠ i := fun he => by rw [he, hphi] at hj; cases hj
    rw [hin]
    exact h.refusedInside j ((hphj j hji).symm.trans hj)

omit [DecidableEq ι] [DecidableEq A] in
/-- The poller takes entries from the front of its queue. -/
theorem Inv.poll (h : Inv C s) {c : κ} (n : Nat) (hb : s.batch c = []) :
    Inv C { s with batch := Function.update s.batch c ((s.queue c).take n)
                   queue := Function.update s.queue c ((s.queue c).drop n) } := by
  have hpend : State.pending { s with batch := Function.update s.batch c ((s.queue c).take n)
                                      queue := Function.update s.queue c ((s.queue c).drop n) } =
      s.pending := by
    funext d
    unfold State.pending
    dsimp only
    by_cases hd : d = c
    · rw [hd, Function.update_self, Function.update_self, hb, List.take_append_drop]
      rfl
    · rw [Function.update_of_ne hd, Function.update_of_ne hd]
  refine ⟨fun j => (h.ops j).congr rfl rfl rfl fun _ he => he, h.table_eq, ?_, ?_, ?_, h.seenDone,
    ?_, ?_, h.refusedInside, h.stray_eq⟩
  · intro d
    rw [hpend]
    exact h.pending d
  · rw [hpend]
    exact h.pendingOne
  · intro j
    rw [hpend]
    exact h.pendingOf j
  · intro d
    rw [hpend]
    exact h.nodup d
  · intro d
    rw [hpend]
    exact h.generated_eq d

omit [DecidableEq ι] [DecidableEq κ] [DecidableEq A] in
/-- **The entry at the front of a batch is delivered to its own operation**, which lives at its
    address and waits for it. -/
theorem Inv.front (h : Inv C s) {c : κ} {p : ι × ε} {rest : List (ι × ε)}
    (hb : s.batch c = p :: rest) :
    s.table (C.key p.2) = some p.1 ∧ s.phase p.1 = .completed ∧ C.queue p.1 p.2 = c ∧
      p ∈ s.pending c := by
  have hm : p ∈ s.pending c := by
    unfold State.pending
    rw [hb]
    exact List.mem_append_left _ List.mem_cons_self
  obtain ⟨hc, hph, hk⟩ := h.pending c p hm
  exact ⟨(h.table_eq _ _).mpr ⟨hk.symm, by rw [hph]; rfl⟩, hph, hc, hm⟩

omit [DecidableEq A] in
/-- The poller delivers the front entry `p` of its batch to the operation it belongs to. -/
theorem Inv.deliver (h : Inv C s) {c : κ} {p : ι × ε} (hp : s.phase p.1 = .completed)
    (hc : C.queue p.1 p.2 = c) (hm : p ∈ s.pending c)
    (hpend : ∀ d, s.pending d = (if d = c then [p] else []) ++ t.pending d)
    (hseen : ∀ d, t.seen d = s.seen d ++ if d = c then [p] else [])
    (hph : t.phase = Function.update s.phase p.1 .finished)
    (hloc : t.loc = Function.update s.loc p.1 (C.deliver p.2 (s.loc p.1)))
    (hgot : t.got = Function.update s.got p.1 (s.got p.1 ++ [p.2]))
    (hrest : t.table = s.table ∧ t.generated = s.generated ∧ t.inside = s.inside ∧
      t.stray = s.stray) : Inv C t := by
  obtain ⟨htable, hgen, hin, hstray⟩ := hrest
  have hphi : t.phase p.1 = .finished := by rw [hph, Function.update_self]
  have hphj : ∀ j, j ≠ p.1 → t.phase j = s.phase j := fun j hj => by
    rw [hph, Function.update_of_ne hj]
  have hgotj : ∀ j, j ≠ p.1 → t.got j = s.got j := fun j hj => by
    rw [hgot, Function.update_of_ne hj]
  have hall : ∀ d, t.seen d ++ t.pending d = s.seen d ++ s.pending d := fun d => by
    rw [hseen, hpend, List.append_assoc]
  have hmem : ∀ d e, e ∈ s.seen d → e ∈ t.seen d := fun d e he => by
    rw [hseen]
    exact List.mem_append_left _ he
  have hl : s.loc p.1 = C.afterPost p.1 ∧ s.got p.1 = [] ∧ C.accepts p.1 = true := by
    have hop := h.ops p.1
    cases hop with
    | waiting _ ha hl hg => exact ⟨hl, hg, ha⟩
    | _ => simp_all [Phase.done]
  have hpseen : p ∈ t.seen c := by
    rw [hseen, if_pos rfl]
    exact List.mem_append_right _ (List.mem_singleton_self _)
  have hgi : t.got p.1 = [p.2] := by
    rw [hgot, Function.update_self, hl.2.1]
    rfl
  -- the entries still pending belong to others
  have hother : ∀ d q, q ∈ t.pending d → q.1 ≠ p.1 := by
    intro d q hq he
    have hd : d = c := by
      have hqd : q ∈ s.pending d := by
        rw [hpend]
        exact List.mem_append_right _ hq
      exact h.pendingOne d c q p hqd hm he
    have hn := h.nodup c
    rw [hpend, if_pos rfl, List.map_append, List.map_append, List.nodup_append] at hn
    refine (List.nodup_append.mp hn.2.1).2.2 p.1 (List.mem_singleton_self _) q.1 ?_ he.symm
    exact List.mem_map_of_mem (hd ▸ hq)
  refine ⟨?_, ?_, ?_, ?_, ?_, ?_, ?_, ?_, ?_, hstray.trans h.stray_eq⟩
  · intro j
    by_cases hji : j = p.1
    · rw [hji]
      refine .delivered (by rw [hphi]; rfl) hl.2.2 p.2 (hc ▸ hpseen) ?_ hgi
      rw [hloc, Function.update_self, hl.1]
    · exact (h.ops j).congr (hphj j hji) (by rw [hloc, Function.update_of_ne hji]) (hgotj j hji)
        fun e he => hmem _ _ he
  · intro a j
    rw [htable, hph]
    exact h.table_of_alive (by rw [hp]; rfl) a j
  · intro d q hq
    have hqd : q ∈ s.pending d := by
      rw [hpend]
      exact List.mem_append_right _ hq
    obtain ⟨hd, hph', hk'⟩ := h.pending d q hqd
    exact ⟨hd, (hphj _ (hother d q hq)).trans hph', hk'⟩
  · intro d d' q q' hq hq'
    refine h.pendingOne d d' q q' ?_ ?_
    · rw [hpend]
      exact List.mem_append_right _ hq
    · rw [hpend]
      exact List.mem_append_right _ hq'
  · intro j hj
    have hji : j ≠ p.1 := fun he => by rw [he, hphi] at hj; cases hj
    obtain ⟨e, he⟩ := h.pendingOf j ((hphj j hji).symm.trans hj)
    refine ⟨e, ?_⟩
    rw [hpend] at he
    rcases List.mem_append.mp he with he | he
    · split at he
      · exact absurd (congrArg Prod.fst (List.mem_singleton.mp he)) hji
      · cases he
    · exact he
  · intro d q hq
    rw [hseen] at hq
    rcases List.mem_append.mp hq with hq | hq
    · obtain ⟨hd, hdone, hg⟩ := h.seenDone d q hq
      have hne : q.1 ≠ p.1 := fun he => by rw [he, hp] at hdone; cases hdone
      exact ⟨hd, by rw [hphj _ hne]; exact hdone, (hgotj _ hne).trans hg⟩
    · split at hq
      · rename_i hd
        rw [List.mem_singleton.mp hq, hd]
        exact ⟨hc, by rw [hphi]; rfl, hgi⟩
      · cases hq
  · intro d
    rw [hall]
    exact h.nodup d
  · intro d
    rw [hgen, hall]
    exact h.generated_eq d
  · intro j hj
    have hji : j ≠ p.1 := fun he => by rw [he, hphi] at hj; cases hj
    rw [hin]
    exact h.refusedInside j ((hphj j hji).symm.trans hj)

/-- **Every step keeps the invariant.** -/
theorem Inv.step (h : Inv C s) (hs : C.step s a = some t) : Inv C t := by
  cases moves_of_step hs with
  | created i hp ht => exact h.create hp ht
  | accepted i hp ha =>
    have hi := h.post hp
    rw [if_pos ha] at hi
    exact hi
  | refused i hp ha =>
    have hi := h.post hp
    rw [if_neg (by rw [ha]; decide)] at hi
    exact hi
  | dismissed i hp => exact h.dismiss hp
  | left i hp => exact h.left hp
  | completed i e hp hk =>
    refine h.complete hp hk rfl (fun c => ?_) (fun c => ?_) rfl ⟨rfl, rfl⟩ ⟨rfl, rfl, rfl⟩
    · unfold State.pending
      dsimp only
      by_cases hc : c = C.queue i e
      · rw [hc, Function.update_self, if_pos rfl, List.append_assoc]
      · rw [Function.update_of_ne hc, if_neg hc, List.append_nil]
    · dsimp only
      by_cases hc : c = C.queue i e
      · rw [hc, Function.update_self, if_pos rfl]
      · rw [Function.update_of_ne hc, if_neg hc, List.append_nil]
  | polled c n hb hn => exact h.poll n hb
  | delivered c p rest hb i ht hw =>
    obtain ⟨htab, hp, hc, hm⟩ := h.front hb
    obtain rfl : p.1 = i := Option.some.inj (htab.symm.trans ht)
    refine h.deliver hp hc hm (fun d => ?_) (fun d => ?_) rfl rfl rfl ⟨rfl, rfl, rfl, rfl⟩
    · unfold State.pending
      dsimp only
      by_cases hd : d = c
      · rw [hd, Function.update_self, hb, if_pos rfl]
        rfl
      · rw [Function.update_of_ne hd, if_neg hd]
        rfl
    · dsimp only
      by_cases hd : d = c
      · rw [hd, Function.update_self, if_pos rfl]
      · rw [Function.update_of_ne hd, if_neg hd, List.append_nil]
  | strayed c p rest hb hn =>
    obtain ⟨htab, hp, -⟩ := h.front hb
    have hw := hn p.1 htab
    rw [hp] at hw
    cases hw
  | freed i hp => exact h.free hp

/-- **Every reachable state satisfies the invariant.** -/
theorem inv_reach (h : C.machine.Reach C.init s) : Inv C s :=
  h.invariant (inv_init C) fun _ _ _ hi _ hs => hi.step hs

/-! ## 4. Deliveries -/

/-- **Only the dispatch of an operation's own entry delivers to it**, while it waits with that
    entry pending. -/
theorem Inv.got_step (h : Inv C s) (hs : C.step s a = some t) {i : ι} (hg : t.got i ≠ s.got i) :
    C.accepts i = true ∧ s.phase i = .completed ∧
      ∃ e rest, a = .dispatch (C.queue i e) ∧ s.batch (C.queue i e) = (i, e) :: rest ∧
        t.got i = [e] := by
  cases moves_of_step hs with
  | delivered c p rest hb j ht hw =>
    obtain ⟨htab, hp, hc, -⟩ := h.front hb
    obtain rfl : p.1 = j := Option.some.inj (htab.symm.trans ht)
    dsimp only at hg ⊢
    by_cases hij : i = p.1
    · subst hij
      have hop := h.ops p.1
      cases hop with
      | waiting _ ha hl hgot =>
        refine ⟨ha, hp, p.2, rest, by rw [hc], by rw [hc]; exact hb, ?_⟩
        rw [Function.update_self, hgot]
        rfl
      | _ => simp_all [Phase.done]
    · rw [Function.update_of_ne hij] at hg
      exact absurd rfl hg
  | _ => exact absurd rfl hg

/-- An action that neither posts nor completes. -/
def Action.isLocal : Action ι κ ε → Bool
  | .post _ => false
  | .complete _ _ => false
  | _ => true

/-- Such an action leaves alone who is posted, who is fresh, and what was generated. -/
theorem Inv.local_step (h : Inv C s) (hs : C.step s a = some t) (ha : a.isLocal = true) :
    t.generated = s.generated ∧ ∀ j, (t.phase j = .posted ↔ s.phase j = .posted) ∧
      (t.phase j).fresh = (s.phase j).fresh := by
  have hupd : ∀ (i : ι) (p : Phase), (p = .posted ↔ s.phase i = .posted) →
      p.fresh = (s.phase i).fresh → ∀ j, (Function.update s.phase i p j = .posted ↔
        s.phase j = .posted) ∧ (Function.update s.phase i p j).fresh = (s.phase j).fresh := by
    intro i p hp hf j
    by_cases hji : j = i
    · rw [hji, Function.update_self]
      exact ⟨hp, hf⟩
    · rw [Function.update_of_ne hji]
      exact ⟨Iff.rfl, rfl⟩
  cases moves_of_step hs with
  | created i hp => exact ⟨rfl, hupd i _ (by simp [hp]) (by rw [hp]; rfl)⟩
  | accepted | refused | completed => cases ha
  | dismissed i hp => exact ⟨rfl, hupd i _ (by simp [hp]) (by rw [hp]; rfl)⟩
  | delivered c p rest hb i ht =>
    obtain ⟨htab, hp, -⟩ := h.front hb
    obtain rfl : p.1 = i := Option.some.inj (htab.symm.trans ht)
    exact ⟨rfl, hupd p.1 _ (by simp [hp]) (by rw [hp]; rfl)⟩
  | freed i hp => exact ⟨rfl, hupd i _ (by simp [hp]) (by rw [hp]; rfl)⟩
  | left | polled | strayed => exact ⟨rfl, fun _ => ⟨Iff.rfl, rfl⟩⟩

/-- What a post does. -/
theorem Inv.post_step (h : Inv C s) {i : ι} (hs : C.step s (.post i) = some t) :
    s.phase i = .created ∧ t.generated = s.generated ∧
      t.phase = Function.update s.phase i (if C.accepts i then .posted else .refused) := by
  have hloc : s.phase i = .created → s.loc i = C.start i := by
    intro hp
    have hop := h.ops i
    cases hop with
    | fresh _ hl => exact hl
    | _ => simp_all [Phase.waiting, Phase.done]
  unfold accepts
  cases moves_of_step hs with
  | accepted _ hp ha =>
    rw [hloc hp] at ha
    exact ⟨hp, rfl, by rw [ha]; rfl⟩
  | refused _ hp ha =>
    rw [hloc hp] at ha
    exact ⟨hp, rfl, by rw [ha]; rfl⟩

/-- What a completion does. -/
theorem complete_step {i : ι} {e : ε} (hs : C.step s (.complete i e) = some t) :
    s.phase i = .posted ∧ C.key e = C.addr i ∧
      t.phase = Function.update s.phase i .completed ∧
      ∀ c, t.generated c = s.generated c ++ if c = C.queue i e then [(i, e)] else [] := by
  cases moves_of_step hs with
  | completed _ _ hp hk =>
    refine ⟨hp, hk, rfl, ?_⟩
    intro c
    dsimp only
    by_cases hc : c = C.queue i e
    · rw [hc, Function.update_self, if_pos rfl]
    · rw [Function.update_of_ne hc, if_neg hc, List.append_nil]

/-- A step leaves an operation at its station, creates it, or moves it on. -/
theorem phase_of_step (hs : C.step s a = some t) (i : ι) :
    t.phase i = s.phase i ∨ (a = .create i ∧ s.phase i = .absent ∧ t.phase i = .created) ∨
      ((s.phase i).alive = true ∧ (t.phase i).fresh = false) := by
  have hupdate : ∀ (j : ι) (p : Phase), (s.phase j).alive = true → p.fresh = false →
      Function.update s.phase j p i = s.phase i ∨
        ((s.phase i).alive = true ∧ (Function.update s.phase j p i).fresh = false) := by
    intro j p hj hp
    by_cases hij : i = j
    · rw [hij, Function.update_self]
      exact Or.inr ⟨hj, hp⟩
    · exact Or.inl (Function.update_of_ne hij p s.phase)
  cases moves_of_step hs with
  | created j hp =>
    by_cases hij : i = j
    · rw [hij]
      exact Or.inr (Or.inl ⟨rfl, hp, Function.update_self j .created s.phase⟩)
    · exact Or.inl (Function.update_of_ne hij .created s.phase)
  | accepted j hp => exact (hupdate j .posted (by simp [hp, Phase.alive]) rfl).imp_right Or.inr
  | refused j hp => exact (hupdate j .refused (by simp [hp, Phase.alive]) rfl).imp_right Or.inr
  | dismissed j hp => exact (hupdate j .finished (by simp [hp, Phase.alive]) rfl).imp_right Or.inr
  | completed j e hp => exact (hupdate j .completed (by simp [hp, Phase.alive]) rfl).imp_right Or.inr
  | delivered c p rest hb j ht hw =>
    refine (hupdate j .finished ?_ rfl).imp_right Or.inr
    cases hp : s.phase j <;> rw [hp] at hw <;> first | rfl | cases hw
  | freed j hp => exact (hupdate j .freed (by simp [hp, Phase.alive]) rfl).imp_right Or.inr
  | left | polled | strayed => exact Or.inl rfl

/-- What has been seen of a queue grows by the front entry of a batch dispatched. -/
theorem seen_of_step (hs : C.step s a = some t) :
    (∃ c p rest, a = .dispatch c ∧ s.batch c = p :: rest ∧
      t.seen = Function.update s.seen c (s.seen c ++ [p])) ∨
    ((∀ c, a ≠ .dispatch c) ∧ t.seen = s.seen) := by
  cases moves_of_step hs with
  | delivered c p rest hb => exact Or.inl ⟨c, p, rest, rfl, hb, rfl⟩
  | strayed c p rest hb => exact Or.inl ⟨c, p, rest, rfl, hb, rfl⟩
  | _ => exact Or.inr ⟨nofun, rfl⟩

/-- An entry is new at its completion only. -/
theorem generated_of_step (hs : C.step s a = some t) {c : κ} {p : ι × ε}
    (hp : p ∈ t.generated c) : p ∈ s.generated c ∨ a = .complete p.1 p.2 := by
  cases a with
  | complete i e =>
    obtain ⟨-, -, -, hgen⟩ := complete_step hs
    rw [hgen] at hp
    rcases List.mem_append.mp hp with hp | hp
    · exact Or.inl hp
    · split at hp
      · rw [List.mem_singleton.mp hp]
        exact Or.inr rfl
      · cases hp
  | _ =>
    refine Or.inl ?_
    cases moves_of_step hs <;> exact hp

end Client

end Lib
