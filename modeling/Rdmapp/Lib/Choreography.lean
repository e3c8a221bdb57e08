/-
  File:      Rdmapp/Lib/Choreography.lean
  Subject:   CHOREOGRAPHIES: two programs that take turns, and what all their interleavings come to.

  A choreography lists the turns of two parties on one world: a party acts alone, or a message goes
  from one to the other. Each party's program is what the list has for it (`project`). The programs
  run side by side: a message is posted, read at any time after that, arrives when the other party
  waits for it, and then either goes on in its own time.

  Where actions of different parties that no message keeps apart commute (`Ordered`), the
  interleaving does not matter: no state is stuck, every run ends, and it ends where the turns one
  after the other end, with the same messages (`settles`). What no statement undoes and the end does
  not show has never been so (`Settles.never`).
-/
import Rdmapp.Lib.Progress

namespace Lib

namespace Choreography

/-- A turn on the world `W`, with messages `M`. The parties are `false` and `true`. -/
inductive Turn (W M : Type*) where
  /-- Party `p` acts alone. -/
  | act (p : Bool) (f : W → W)
  /-- A message from `p`: what `p` reads to send it, and what its arrival does. -/
  | message (p : Bool) (m : W → M) (g : M → W → W)

/-- A statement of one party's program. -/
inductive Stmt (W M : Type*) where
  | act (f : W → W)
  | send (m : W → M)
  | recv (g : M → W → W)

variable {W M : Type*}

/-! ## 1. Turns, and each party's program -/

/-- The party waits for the other one. -/
def Stmt.waits : Stmt W M → Bool
  | .act _ => false
  | _ => true

/-- What a turn is to party `p`. -/
def Turn.stmt (p : Bool) : Turn W M → Option (Stmt W M)
  | .act q f => if q = p then some (.act f) else none
  | .message q m g => some (if q = p then .send m else .recv g)

def project (p : Bool) (ts : List (Turn W M)) : List (Stmt W M) := ts.filterMap (Turn.stmt p)

/-- `for (i = 0; i < n; i++)`. -/
def loop {α : Type*} (n : Nat) (body : Nat → List α) : List α := (List.range n).flatMap body

/-- The world after the turns, one after the other. -/
def run : List (Turn W M) → W → W
  | [], w => w
  | .act _ f :: ts, w => run ts (f w)
  | .message _ m g :: ts, w => run ts (g (m w) w)

/-- The messages sent. -/
def messages : List (Turn W M) → W → List M
  | [], _ => []
  | .act _ f :: ts, w => messages ts (f w)
  | .message _ m g :: ts, w => m w :: messages ts (g (m w) w)

/-- An action of `p` does not meddle with what the other party does before the next message: it
    commutes with its actions, and does not change a message it may be sending. -/
def Clear (p : Bool) (f : W → W) : List (Turn W M) → Prop
  | [] => True
  | .act q g :: ts => (q ≠ p → ∀ w, f (g w) = g (f w)) ∧ Clear p f ts
  | .message q m _ :: _ => q ≠ p → ∀ w, m (f w) = m w

def Ordered : List (Turn W M) → Prop
  | [] => True
  | .act p f :: ts => Clear p f ts ∧ Ordered ts
  | .message .. :: ts => Ordered ts

@[simp] theorem project_nil (p : Bool) : project p ([] : List (Turn W M)) = [] := rfl

@[simp] theorem project_act_self (p : Bool) (f : W → W) (ts : List (Turn W M)) :
    project p (.act p f :: ts) = .act f :: project p ts := by
  simp [project, Turn.stmt]

@[simp] theorem project_act_other (p : Bool) (f : W → W) (ts : List (Turn W M)) :
    project p (.act (!p) f :: ts) = project p ts := by
  simp [project, Turn.stmt]

@[simp] theorem project_message_self (p : Bool) (m : W → M) (g : M → W → W)
    (ts : List (Turn W M)) : project p (.message p m g :: ts) = .send m :: project p ts := by
  simp [project, Turn.stmt]

@[simp] theorem project_message_other (p : Bool) (m : W → M) (g : M → W → W)
    (ts : List (Turn W M)) : project p (.message (!p) m g :: ts) = .recv g :: project p ts := by
  simp [project, Turn.stmt]

@[simp] theorem project_not_act (p : Bool) (f : W → W) (ts : List (Turn W M)) :
    project (!p) (.act p f :: ts) = project (!p) ts := by
  simp [project, Turn.stmt]

@[simp] theorem project_not_message (p : Bool) (m : W → M) (g : M → W → W)
    (ts : List (Turn W M)) : project (!p) (.message p m g :: ts) = .recv g :: project (!p) ts := by
  simp [project, Turn.stmt]

@[simp] theorem project_append (p : Bool) (ts us : List (Turn W M)) :
    project p (ts ++ us) = project p ts ++ project p us := List.filterMap_append

@[simp] theorem project_loop (p : Bool) (n : Nat) (ts : Nat → List (Turn W M)) :
    project p (loop n ts) = loop n fun i => project p (ts i) := by
  unfold loop
  induction List.range n with
  | nil => rfl
  | cons i l ih => rw [List.flatMap_cons, project_append, ih, List.flatMap_cons]

@[simp] theorem run_act (p : Bool) (f : W → W) (ts : List (Turn W M)) (w : W) :
    run (.act p f :: ts) w = run ts (f w) := rfl

@[simp] theorem run_message (p : Bool) (m : W → M) (g : M → W → W) (ts : List (Turn W M)) (w : W) :
    run (.message p m g :: ts) w = run ts (g (m w) w) := rfl

theorem run_append (ts us : List (Turn W M)) (w : W) : run (ts ++ us) w = run us (run ts w) := by
  induction ts generalizing w with
  | nil => rfl
  | cons t ts ih => cases t <;> exact ih _

/-- **The rule for a loop**: what its body carries from `i` to `i + 1`. -/
theorem run_loop {n : Nat} {body : Nat → List (Turn W M)} {P : Nat → W → Prop} {w : W}
    (h₀ : P 0 w) (hbody : ∀ i w, i < n → P i w → P (i + 1) (run (body i) w)) :
    P n (run (loop n body) w) := by
  induction n with
  | zero => exact h₀
  | succ n ih =>
    rw [loop, List.range_succ, List.flatMap_append, run_append, List.flatMap_singleton]
    exact hbody n _ (Nat.lt_succ_self n)
      (ih fun i w hi => hbody i w (Nat.lt_succ_of_lt hi))

/-- The party that acts or sends. -/
def Turn.party : Turn W M → Bool
  | .act p _ => p
  | .message p .. => p

/-- Nobody is in the way of turns of one party. -/
theorem clear_of_party {p : Bool} {ts : List (Turn W M)} (h : ∀ t ∈ ts, t.party = p)
    (f : W → W) : Clear p f ts := by
  induction ts with
  | nil => trivial
  | cons t ts ih =>
    have ht := h t List.mem_cons_self
    cases t with
    | act q g =>
      exact ⟨fun hq => absurd ht hq, ih fun u hu => h u (List.mem_cons_of_mem _ hu)⟩
    | message q m g => exact fun hq => absurd ht hq

theorem ordered_of_party {p : Bool} {ts : List (Turn W M)} (h : ∀ t ∈ ts, t.party = p) :
    Ordered ts := by
  induction ts with
  | nil => trivial
  | cons t ts ih =>
    have hts := fun u hu => h u (List.mem_cons_of_mem t hu)
    cases t with
    | act q g =>
      obtain rfl : q = p := h _ List.mem_cons_self
      exact ⟨clear_of_party hts g, ih hts⟩
    | message => exact ih hts

/-- Turns of one party, the last a message. -/
def Block (p : Bool) : List (Turn W M) → Prop
  | [] => False
  | .act q _ :: ts => q = p ∧ Block p ts
  | .message q .. :: ts => q = p ∧ (ts = [] ∨ Block p ts)

theorem clear_block {p : Bool} {ts us : List (Turn W M)} (h : Block p ts) (f : W → W) :
    Clear p f (ts ++ us) := by
  induction ts with
  | nil => exact h.elim
  | cons t ts ih =>
    cases t with
    | act q g => exact ⟨fun hq => absurd h.1 hq, ih h.2⟩
    | message q m g => exact fun hq => absurd h.1 hq

/-- What comes after the message does not matter. -/
theorem ordered_block {p : Bool} {ts us : List (Turn W M)} (h : Block p ts) (ho : Ordered us) :
    Ordered (ts ++ us) := by
  induction ts with
  | nil => exact h.elim
  | cons t ts ih =>
    cases t with
    | act q g =>
      obtain ⟨rfl, h⟩ := h
      exact ⟨clear_block h g, ih h⟩
    | message q m g =>
      rcases h.2 with rfl | h
      · exact ho
      · exact ih h

section Project

variable {p : Bool} {f : W → W} {m : W → M} {g : M → W → W} {k k' : List (Stmt W M)}
  {ts : List (Turn W M)} {w : W}

/-- The parties other than `p`. -/
theorem eq_or_eq_not (p q : Bool) : q = p ∨ q = !p := by
  cases p <;> cases q <;> simp

/-- **A turn of `p` alone can be taken first.** The turns before it are the other party's alone. -/
theorem take_act (h : Ordered ts) (hp : project p ts = .act f :: k) :
    ∃ ts', project p ts' = k ∧ project (!p) ts' = project (!p) ts ∧ Ordered ts' ∧
      (∀ w, run ts' (f w) = run ts w) ∧ (∀ w, messages ts' (f w) = messages ts w) ∧
      (∀ q e, Clear q e ts → Clear q e ts') ∧
      (∀ e, Clear (!p) e ts → ∀ w, e (f w) = f (e w)) := by
  induction ts with
  | nil => cases hp
  | cons t ts ih =>
    cases t with
    | act q e =>
      rcases eq_or_eq_not p q with rfl | rfl
      · -- the turn itself
        rw [project_act_self] at hp
        obtain ⟨he, rfl⟩ := List.cons.inj hp
        cases he
        exact ⟨ts, rfl, (project_not_act q f ts).symm, h.2, fun _ => rfl, fun _ => rfl,
          fun _ _ hc => hc.2, fun e hc => hc.1 (by cases q <;> nofun)⟩
      · rw [project_act_other] at hp
        obtain ⟨ts', hk, hk', hord, hrun, hmess, hclear, hcomm⟩ := ih h.2 hp
        have hfe := hcomm e h.1
        refine ⟨.act (!p) e :: ts', ?_, ?_, ⟨hclear _ _ h.1, hord⟩, fun w => ?_, fun w => ?_,
          fun q c hc => ⟨hc.1, hclear q c hc.2⟩, fun c hc => hcomm c hc.2⟩
        · rw [project_act_other]
          exact hk
        · rw [project_act_self, project_act_self, hk']
        · show run ts' (e (f w)) = run ts (e w)
          rw [hfe, hrun]
        · show messages ts' (e (f w)) = messages ts (e w)
          rw [hfe, hmess]
    | message q m g =>
      rcases eq_or_eq_not p q with rfl | rfl
      · rw [project_message_self] at hp
        cases hp
      · rw [project_message_other] at hp
        cases hp

/-- An action of `p` leaves a message the other party is sending. -/
theorem message_clear (h : Ordered ts) (hp : project p ts = .act f :: k)
    (hs : project (!p) ts = .send m :: k') (w : W) : m (f w) = m w := by
  cases ts with
  | nil => cases hp
  | cons t ts =>
    cases t with
    | act q e =>
      rcases eq_or_eq_not p q with rfl | rfl
      · rw [project_act_self] at hp
        cases (List.cons.inj hp).1
        rw [project_not_act] at hs
        clear hp
        -- up to the message there are actions of `q` only
        obtain ⟨hclear, -⟩ := h
        induction ts with
        | nil => cases hs
        | cons t ts ih =>
          cases t with
          | act r c =>
            rcases eq_or_eq_not q r with rfl | rfl
            · rw [project_not_act] at hs
              exact ih hs hclear.2
            · rw [project_act_self] at hs
              cases hs
          | message r m' g =>
            rcases eq_or_eq_not q r with rfl | rfl
            · rw [project_not_message] at hs
              cases hs
            · rw [project_message_self] at hs
              cases hs
              exact hclear (by cases q <;> nofun) w
      · rw [project_act_self] at hs
        cases hs
    | message q m' g =>
      rcases eq_or_eq_not p q with rfl | rfl
      · rw [project_message_self] at hp
        cases hp
      · rw [project_message_other] at hp
        cases hp

/-- **Where one party sends and the other waits, the message is the first turn.** -/
theorem take_message (hp : project p ts = .send m :: k)
    (hq : project (!p) ts = .recv g :: k') :
    ∃ ts', ts = .message p m g :: ts' ∧ k = project p ts' ∧ k' = project (!p) ts' := by
  cases ts with
  | nil => cases hp
  | cons t ts =>
    cases t with
    | act q e =>
      rcases eq_or_eq_not p q with rfl | rfl
      · rw [project_act_self] at hp
        cases hp
      · rw [project_act_self] at hq
        cases hq
    | message q m' g' =>
      rcases eq_or_eq_not p q with rfl | rfl
      · rw [project_message_self] at hp
        rw [project_not_message] at hq
        cases hp
        cases hq
        exact ⟨ts, rfl, rfl, rfl⟩
      · rw [project_message_other] at hp
        cases hp

end Project

/-! ## 2. The programs side by side -/

/-- Where a party is in its next statement. -/
inductive Place (M : Type*) where
  | idle
  | posted
  /-- The message has been read. -/
  | read (x : M)
  /-- It has arrived, and the party has not gone on yet. -/
  | arrived
  deriving DecidableEq

structure State (W M : Type*) where
  world : W
  rest : Bool → List (Stmt W M)
  place : Bool → Place M
  /-- The messages that have arrived. -/
  log : List M

inductive Action where
  | act (p : Bool)
  | post (p : Bool)
  | read (p : Bool)
  /-- The message of `p` arrives. -/
  | arrive (p : Bool)
  | resume (p : Bool)
  deriving DecidableEq

/-- The programs `k` side by side, from the world `w`. -/
def launch (k : Bool → List (Stmt W M)) (w : W) : State W M := ⟨w, k, fun _ => .idle, []⟩

def start (ts : List (Turn W M)) (w : W) : State W M := launch (fun p => project p ts) w

def step (s : State W M) : Action → Option (State W M)
  | .act p =>
    match s.rest p, s.place p with
    | .act f :: k, .idle => some { s with world := f s.world, rest := Function.update s.rest p k }
    | _, _ => none
  | .post p =>
    match s.rest p, s.place p with
    | stmt :: _, .idle =>
      if stmt.waits = true then some { s with place := Function.update s.place p .posted } else none
    | _, _ => none
  | .read p =>
    match s.rest p, s.place p with
    | .send m :: _, .posted =>
      some { s with place := Function.update s.place p (.read (m s.world)) }
    | _, _ => none
  | .arrive p =>
    match s.place p, s.rest (!p), s.place (!p) with
    | .read x, .recv g :: _, .posted =>
      some { s with world := g x s.world, place := fun _ => .arrived, log := s.log ++ [x] }
    | _, _, _ => none
  | .resume p =>
    match s.rest p, s.place p with
    | _ :: k, .arrived => some { s with
        rest := Function.update s.rest p k, place := Function.update s.place p .idle }
    | _, _ => none

def machine (W M : Type*) : Machine (State W M) Action := ⟨step⟩

variable {ts ts₀ : List (Turn W M)} {w₀ : W} {s t : State W M} {p : Bool}

/-- The steps. -/
inductive Moves (s : State W M) : State W M → Prop
  | acted (p : Bool) (f : W → W) (k : List (Stmt W M)) (hr : s.rest p = .act f :: k)
      (hp : s.place p = .idle) :
      Moves s { s with world := f s.world, rest := Function.update s.rest p k }
  | posted (p : Bool) (stmt : Stmt W M) (k : List (Stmt W M)) (hr : s.rest p = stmt :: k)
      (hp : s.place p = .idle) (hw : stmt.waits = true) :
      Moves s { s with place := Function.update s.place p .posted }
  | read (p : Bool) (m : W → M) (k : List (Stmt W M)) (hr : s.rest p = .send m :: k)
      (hp : s.place p = .posted) :
      Moves s { s with place := Function.update s.place p (.read (m s.world)) }
  | arrived (p : Bool) (x : M) (g : M → W → W) (k : List (Stmt W M)) (hp : s.place p = .read x)
      (hr : s.rest (!p) = .recv g :: k) (hq : s.place (!p) = .posted) :
      Moves s { s with world := g x s.world, place := fun _ => .arrived, log := s.log ++ [x] }
  | resumed (p : Bool) (stmt : Stmt W M) (k : List (Stmt W M)) (hr : s.rest p = stmt :: k)
      (hp : s.place p = .arrived) :
      Moves s { s with
        rest := Function.update s.rest p k, place := Function.update s.place p .idle }

theorem moves_of_step {a : Action} (h : (machine W M).step s a = some t) : Moves s t := by
  have h : step s a = some t := h
  cases a with
  | act p =>
    simp only [step] at h
    split at h
    · next f k hr hp =>
      cases h
      exact .acted p f k hr hp
    · cases h
  | post p =>
    simp only [step] at h
    split at h
    · next stmt k hr hp =>
      obtain ⟨hw, h⟩ := Option.ite_none_right_eq_some.mp h
      cases h
      exact .posted p stmt k hr hp hw
    · cases h
  | read p =>
    simp only [step] at h
    split at h
    · next m k hr hp =>
      cases h
      exact .read p m k hr hp
    · cases h
  | arrive p =>
    simp only [step] at h
    split at h
    · next x g k hp hr hq =>
      cases h
      exact .arrived p x g k hp hr hq
    · cases h
  | resume p =>
    simp only [step] at h
    split at h
    · next stmt k hr hp =>
      cases h
      exact .resumed p stmt k hr hp
    · cases h

/-! ## 3. The turns that are left -/

/-- Party `p`, with the turns `ts` left. -/
inductive Party (ts : List (Turn W M)) (s : State W M) (p : Bool) : Prop
  | idle (hp : s.place p = .idle) (hr : s.rest p = project p ts)
  | posted (hp : s.place p = .posted) (hr : s.rest p = project p ts) (stmt : Stmt W M)
      (k : List (Stmt W M)) (hk : project p ts = stmt :: k) (hw : stmt.waits = true)
  | read (m : W → M) (hp : s.place p = .read (m s.world)) (hr : s.rest p = project p ts)
      (k : List (Stmt W M)) (hk : project p ts = .send m :: k)
  | arrived (hp : s.place p = .arrived) (stmt : Stmt W M) (hr : s.rest p = stmt :: project p ts)

/-- The turns `ts` are left of `ts₀`. -/
structure Follows (ts₀ : List (Turn W M)) (w₀ : W) (ts : List (Turn W M)) (s : State W M) :
    Prop where
  ordered : Ordered ts
  party : ∀ p, Party ts s p
  world : run ts s.world = run ts₀ w₀
  log : s.log ++ messages ts s.world = messages ts₀ w₀

theorem follows_start (h : Ordered ts) (w : W) : Follows ts w ts (start ts w) :=
  ⟨h, fun _ => .idle rfl rfl, rfl, rfl⟩

theorem Party.rest_of_ne (h : Party ts s p) (hp : s.place p ≠ .arrived) :
    s.rest p = project p ts := by
  cases h with
  | idle _ hr => exact hr
  | posted _ hr => exact hr
  | read _ _ hr => exact hr
  | arrived hp' => exact absurd hp' hp

/-- A party that has not moved, seen from other turns. -/
theorem Party.congr {ts' : List (Turn W M)} (h : Party ts s p) (hp : t.place p = s.place p)
    (hr : t.rest p = s.rest p) (hts : project p ts' = project p ts)
    (hread : ∀ m k, project p ts = .send m :: k → m t.world = m s.world) : Party ts' t p := by
  cases h with
  | idle hp' hr' => exact .idle (hp.trans hp') (hr.trans (hr'.trans hts.symm))
  | posted hp' hr' stmt k hk hw =>
    exact .posted (hp.trans hp') (hr.trans (hr'.trans hts.symm)) stmt k (hts.trans hk) hw
  | read m hp' hr' k hk =>
    refine .read m ?_ (hr.trans (hr'.trans hts.symm)) k (hts.trans hk)
    rw [hread m k hk]
    exact hp.trans hp'
  | arrived hp' stmt hr' =>
    refine .arrived (hp.trans hp') stmt ?_
    rw [hr, hr', hts]

theorem follows_step (h : Follows ts₀ w₀ ts s) (hs : Moves s t) : ∃ ts', Follows ts₀ w₀ ts' t := by
  cases hs with
  | acted p f k hr hp =>
    have hk : project p ts = .act f :: k := by
      rw [← (h.party p).rest_of_ne (by rw [hp]; exact nofun)]
      exact hr
    obtain ⟨ts', hself, hother, hord, hrun, hmess, -, -⟩ := take_act h.ordered hk
    refine ⟨ts', hord, fun q => ?_, (hrun _).trans h.world, ?_⟩
    · rcases eq_or_eq_not p q with rfl | rfl
      · exact .idle hp ((Function.update_self ..).trans hself.symm)
      · refine (h.party (!p)).congr rfl (Function.update_of_ne (by cases p <;> nofun) _ _) hother
          fun m k' hk' => message_clear h.ordered hk hk' s.world
    · show s.log ++ messages ts' (f s.world) = _
      rw [hmess]
      exact h.log
  | posted p stmt k hr hp hw =>
    have hk : s.rest p = project p ts := (h.party p).rest_of_ne (by rw [hp]; exact nofun)
    refine ⟨ts, h.ordered, fun q => ?_, h.world, h.log⟩
    rcases eq_or_eq_not p q with rfl | rfl
    · exact .posted (Function.update_self ..) hk stmt k (hk.symm.trans hr) hw
    · exact (h.party (!p)).congr (Function.update_of_ne (by cases p <;> nofun) _ _) rfl rfl
        fun _ _ _ => rfl
  | read p m k hr hp =>
    have hk : s.rest p = project p ts := (h.party p).rest_of_ne (by rw [hp]; exact nofun)
    refine ⟨ts, h.ordered, fun q => ?_, h.world, h.log⟩
    rcases eq_or_eq_not p q with rfl | rfl
    · exact .read m (Function.update_self ..) hk k (hk.symm.trans hr)
    · exact (h.party (!p)).congr (Function.update_of_ne (by cases p <;> nofun) _ _) rfl rfl
        fun _ _ _ => rfl
  | arrived p x g k hp hr hq =>
    have hother := (h.party (!p)).rest_of_ne (by rw [hq]; exact nofun)
    cases h.party p with
    | idle hp' => cases hp.symm.trans hp'
    | posted hp' => cases hp.symm.trans hp'
    | arrived hp' => cases hp.symm.trans hp'
    | read m hp' hrest k' hk' =>
      cases hp.symm.trans hp'
      obtain ⟨ts', rfl, rfl, rfl⟩ := take_message hk' (hother.symm.trans hr)
      refine ⟨ts', h.ordered, fun q => ?_, h.world, ?_⟩
      · rcases eq_or_eq_not p q with rfl | rfl
        · exact .arrived rfl (.send m) (hrest.trans hk')
        · exact .arrived rfl (.recv g) hr
      · show (s.log ++ [m s.world]) ++ messages ts' (g (m s.world) s.world) = _
        rw [List.append_assoc]
        exact h.log
  | resumed p stmt k hr hp =>
    refine ⟨ts, h.ordered, fun q => ?_, h.world, h.log⟩
    rcases eq_or_eq_not p q with rfl | rfl
    · cases h.party q with
      | idle hp' => cases hp.symm.trans hp'
      | posted hp' => cases hp.symm.trans hp'
      | read _ hp' => cases hp.symm.trans hp'
      | arrived _ stmt' hr' =>
        refine .idle (Function.update_self ..) ?_
        show Function.update s.rest q k q = _
        rw [Function.update_self]
        exact (List.cons.inj (hr.symm.trans hr')).2
    · have hne : (!p) ≠ p := by cases p <;> nofun
      exact (h.party (!p)).congr (Function.update_of_ne hne _ _) (Function.update_of_ne hne _ _) rfl
        fun _ _ _ => rfl

/-- **Every interleaving follows the choreography.** -/
theorem follows_reach (ho : Ordered ts₀) (h : (machine W M).Reach (start ts₀ w₀) s) :
    ∃ ts, Follows ts₀ w₀ ts s := by
  refine h.invariant (P := fun s => ∃ ts, Follows ts₀ w₀ ts s) ⟨ts₀, follows_start ho w₀⟩ ?_
  rintro s a t ⟨ts, hf⟩ - ht
  exact follows_step hf (moves_of_step ht)

/-! ## 4. The end -/

/-- Both parties have finished. -/
def State.Ended (s : State W M) : Prop := ∀ p, s.rest p = []

/-- A party that waits for no message can go on. -/
theorem can_post {stmt : Stmt W M} {k : List (Stmt W M)} (hr : s.rest p = stmt :: k)
    (hp : s.place p = .idle) (hw : stmt.waits = true) :
    ∃ a t, (machine W M).step s a = some t := by
  refine ⟨.post p, { s with place := Function.update s.place p .posted }, ?_⟩
  show step s (.post p) = _
  simp only [step, hr, hp, hw, if_true]

/-- **No state is stuck** before both parties have finished. -/
theorem Follows.can_step (h : Follows ts₀ w₀ ts s) (he : ¬ s.Ended) :
    ∃ a t, (machine W M).step s a = some t := by
  by_cases harrived : ∃ p, s.place p = .arrived
  · obtain ⟨p, hp⟩ := harrived
    cases h.party p with
    | idle hp' => cases hp.symm.trans hp'
    | posted hp' => cases hp.symm.trans hp'
    | read _ hp' => cases hp.symm.trans hp'
    | arrived _ stmt hr =>
      refine ⟨.resume p, { s with
        rest := Function.update s.rest p (project p ts)
        place := Function.update s.place p .idle }, ?_⟩
      show step s (.resume p) = _
      simp only [step, hr, hp]
  · have hrest : ∀ p, s.rest p = project p ts := fun p =>
      (h.party p).rest_of_ne fun hp => harrived ⟨p, hp⟩
    cases ts with
    | nil => exact absurd hrest he
    | cons t ts =>
      cases t with
      | act p f =>
        have hr : s.rest p = .act f :: project p ts := by rw [hrest, project_act_self]
        have hp : s.place p = .idle := by
          cases h.party p with
          | idle hp => exact hp
          | posted _ _ stmt k hk hw =>
            rw [project_act_self] at hk
            cases hk
            cases hw
          | read _ _ _ _ hk =>
            rw [project_act_self] at hk
            cases hk
          | arrived hp => exact absurd ⟨p, hp⟩ harrived
        refine ⟨.act p, { s with
          world := f s.world, rest := Function.update s.rest p (project p ts) }, ?_⟩
        show step s (.act p) = _
        simp only [step, hr, hp]
      | message p m g =>
        have hr : s.rest p = .send m :: project p ts := by rw [hrest, project_message_self]
        have hr' : s.rest (!p) = .recv g :: project (!p) ts := by
          rw [hrest, project_not_message]
        cases h.party p with
        | idle hp => exact can_post hr hp rfl
        | arrived hp => exact absurd ⟨p, hp⟩ harrived
        | posted hp =>
          refine ⟨.read p, { s with place := Function.update s.place p (.read (m s.world)) }, ?_⟩
          show step s (.read p) = _
          simp only [step, hr, hp]
        | read m' hp =>
          cases h.party (!p) with
          | idle hq => exact can_post hr' hq rfl
          | arrived hq => exact absurd ⟨!p, hq⟩ harrived
          | posted hq =>
            refine ⟨.arrive p, { s with
              world := g (m' s.world) s.world, place := fun _ => .arrived
              log := s.log ++ [m' s.world] }, ?_⟩
            show step s (.arrive p) = _
            simp only [step, hp, hr', hq]
          | read _ _ _ _ hk =>
            rw [project_not_message] at hk
            cases hk

/-- **Where both parties have finished, the world is as the turns leave it one after the other**, and
    the messages are theirs. -/
theorem Follows.ended (h : Follows ts₀ w₀ ts s) (he : s.Ended) :
    s.world = run ts₀ w₀ ∧ s.log = messages ts₀ w₀ := by
  have hnil : ∀ p, project p ts = [] := fun p => by
    cases h.party p with
    | idle _ hr => exact hr.symm.trans (he p)
    | posted _ hr => exact hr.symm.trans (he p)
    | read _ _ hr => exact hr.symm.trans (he p)
    | arrived _ _ hr => cases (he p).symm.trans hr
  obtain rfl : ts = [] := by
    cases ts with
    | nil => rfl
    | cons t ts =>
      cases t with
      | act p f => cases (project_act_self p f ts).symm.trans (hnil p)
      | message p m g => cases (project_message_self p m g ts).symm.trans (hnil p)
  have hlog := h.log
  rw [show messages ([] : List (Turn W M)) s.world = [] from rfl, List.append_nil] at hlog
  exact ⟨h.world, hlog⟩

/-- What a statement has behind it, of its four steps at most. -/
def Place.rank : Place M → Nat
  | .idle => 0
  | .posted => 1
  | .read _ => 2
  | .arrived => 3

/-- The steps that are left to party `p`, at most. -/
def State.left (s : State W M) (p : Bool) : Nat := 4 * (s.rest p).length - (s.place p).rank

/-- The other parties are as they were. -/
theorem left_update {k : List (Stmt W M)} {x : Place M} {w : W} {l : List M} :
    State.left ⟨w, Function.update s.rest p k, Function.update s.place p x, l⟩ (!p) =
      s.left (!p) := by
  have hne : (!p) ≠ p := by cases p <;> nofun
  simp only [State.left, Function.update_of_ne hne]

/-- **Every step is one less that is left.** -/
theorem left_step (h : Moves s t) :
    t.left false + t.left true + 1 ≤ s.left false + s.left true := by
  have hsum : ∀ (u : State W M) (p : Bool), u.left false + u.left true = u.left p + u.left (!p) := by
    intro u p
    cases p with
    | false => rfl
    | true => exact Nat.add_comm ..
  cases h with
  | acted p f k hr hp =>
    have hother := left_update (s := s) (p := p) (k := k) (x := s.place p) (w := f s.world)
      (l := s.log)
    rw [Function.update_eq_self] at hother
    rw [hsum _ p, hsum s p, hother]
    simp only [State.left, Function.update_self, hr, hp, Place.rank, List.length_cons]
    omega
  | posted p stmt k hr hp hw =>
    have hother := left_update (s := s) (p := p) (k := s.rest p) (x := .posted) (w := s.world)
      (l := s.log)
    rw [Function.update_eq_self] at hother
    rw [hsum _ p, hsum s p, hother]
    simp only [State.left, Function.update_self, hr, hp, Place.rank, List.length_cons]
    omega
  | read p m k hr hp =>
    have hother := left_update (s := s) (p := p) (k := s.rest p) (x := .read (m s.world))
      (w := s.world) (l := s.log)
    rw [Function.update_eq_self] at hother
    rw [hsum _ p, hsum s p, hother]
    simp only [State.left, Function.update_self, hr, hp, Place.rank, List.length_cons]
    omega
  | arrived p x g k hp hr hq =>
    rw [hsum _ p, hsum s p]
    simp only [State.left, hr, hp, hq, Place.rank, List.length_cons]
    omega
  | resumed p stmt k hr hp =>
    rw [hsum _ p, hsum s p, left_update]
    simp only [State.left, Function.update_self, hr, hp, Place.rank, List.length_cons]
    omega

/-- A run is as long as what is left allows. -/
theorem takes_length_le {n : Nat}
    (h : (machine W M).Takes (fun _ _ => True) (fun _ => true) s n t) :
    t.left false + t.left true + n ≤ s.left false + s.left true :=
  h.le_measure (μ := fun u => u.left false + u.left true) (P := fun _ => True) trivial
    (fun _ _ _ _ _ _ => trivial) fun _ _ _ _ _ hs => left_step (moves_of_step hs)

/-! ## 5. Two programs -/

/-- **What every run of two programs comes to**: no state is stuck, no run goes on for ever, and
    where both have finished the world is `w'` and the messages were `l`. -/
structure Settles (k : Bool → List (Stmt W M)) (w w' : W) (l : List M) : Prop where
  can_step : ∀ s, (machine W M).Reach (launch k w) s → ¬ s.Ended →
    ∃ a t, (machine W M).step s a = some t
  length_le : ∀ n s, (machine W M).Takes (fun _ _ => True) (fun _ => true) (launch k w) n s →
    n ≤ 4 * ((k false).length + (k true).length)
  ended : ∀ s, (machine W M).Reach (launch k w) s → s.Ended → s.world = w' ∧ s.log = l

/-- **The programs of an ordered choreography settle as its turns do one after the other.** -/
theorem settles (ho : Ordered ts) (w : W) :
    Settles (fun p => project p ts) w (run ts w) (messages ts w) where
  can_step s h he := by
    obtain ⟨ts', hf⟩ := follows_reach ho h
    exact hf.can_step he
  length_le n s h := by
    have hle := takes_length_le h
    simp only [State.left, launch, Place.rank] at hle
    omega
  ended s h he := by
    obtain ⟨ts', hf⟩ := follows_reach ho h
    exact hf.ended he

section Settles

variable {k : Bool → List (Stmt W M)} {w w' : W} {l : List M}

/-- Every state is on the way to the end. -/
theorem Settles.finishes (h : Settles k w w' l) (hs : (machine W M).Reach (launch k w) s) :
    ∃ t, (machine W M).Reach s t ∧ t.Ended := by
  obtain ⟨n, hn⟩ : ∃ n, s.left false + s.left true = n := ⟨_, rfl⟩
  induction n using Nat.strongRecOn generalizing s with
  | ind n ih =>
    by_cases he : s.Ended
    · exact ⟨s, .start, he⟩
    · obtain ⟨a, t, ht⟩ := h.can_step s hs he
      have hlt := left_step (moves_of_step ht)
      obtain ⟨u, hu, hend⟩ := ih (t.left false + t.left true) (by omega) (hs.step a trivial ht) rfl
      exact ⟨u, (Machine.ReachIf.step a .start trivial ht).trans hu, hend⟩

/-- The statement does not end `Q`. -/
def Stmt.Keeps (Q : W → Prop) : Stmt W M → Prop
  | .act f => ∀ w, Q w → Q (f w)
  | .send _ => True
  | .recv g => ∀ x w, Q w → Q (g x w)

/-- Every statement that is left keeps `Q`. -/
theorem keeps_step {Q : W → Prop} (hk : ∀ p, ∀ x ∈ s.rest p, x.Keeps Q) (h : Moves s t) :
    (∀ p, ∀ x ∈ t.rest p, x.Keeps Q) ∧ (Q s.world → Q t.world) := by
  have htail : ∀ (p : Bool) (x : Stmt W M) (k : List (Stmt W M)), s.rest p = x :: k →
      ∀ q, ∀ y ∈ Function.update s.rest p k q, y.Keeps Q := by
    intro p x k hr q y hy
    rcases eq_or_ne q p with rfl | hne
    · rw [Function.update_self] at hy
      exact hk q y (hr ▸ List.mem_cons_of_mem x hy)
    · rw [Function.update_of_ne hne] at hy
      exact hk q y hy
  cases h with
  | acted p f k hr =>
    have hf : (Stmt.act f : Stmt W M).Keeps Q := hk p _ (hr ▸ List.mem_cons_self)
    exact ⟨htail p _ k hr, hf s.world⟩
  | posted | read => exact ⟨hk, id⟩
  | arrived p x g k _ hr =>
    have hg : (Stmt.recv g : Stmt W M).Keeps Q := hk (!p) _ (hr ▸ List.mem_cons_self)
    exact ⟨hk, hg x s.world⟩
  | resumed p x k hr => exact ⟨htail p x k hr, id⟩

/-- **What no statement ends, and the end does not have, is never so.** -/
theorem Settles.never (h : Settles k w w' l) {Q : W → Prop} (hk : ∀ p, ∀ x ∈ k p, x.Keeps Q)
    (hQ : ¬ Q w') (hs : (machine W M).Reach (launch k w) s) : ¬ Q s.world := by
  intro hq
  have hkeeps : ∀ p, ∀ x ∈ s.rest p, x.Keeps Q :=
    hs.invariant (P := fun s => ∀ p, ∀ x ∈ s.rest p, x.Keeps Q) hk
      fun _ _ _ hk' _ ht => (keeps_step hk' (moves_of_step ht)).1
  obtain ⟨t, ht, he⟩ := h.finishes hs
  obtain ⟨-, hqt⟩ := ht.invariant
    (P := fun t => (∀ p, ∀ x ∈ t.rest p, x.Keeps Q) ∧ Q t.world) ⟨hkeeps, hq⟩ (by
      rintro u a v ⟨hu, hqu⟩ - hv
      obtain ⟨hkv, hqv⟩ := keeps_step hu (moves_of_step hv)
      exact ⟨hkv, hqv hqu⟩)
  rw [(h.ended t (hs.trans ht) he).1] at hqt
  exact hQ hqt

end Settles

end Choreography

end Lib
