/-
  File:      Rdmapp/Lib/Ownership.lean
  Subject:   SHARED OWNERSHIP: objects with a use count, destroyed when the last owner lets go.

  A `Heap` holds objects behind counted references. Owners are the program (`refs`), other
  objects (their `members`), and destructors under way (`tasks`): an object whose count reaches
  zero leaves the effects of its destructor's body to run, and after them its members to release,
  in front of what the thread had left to do. Several such lists run side by side.

  * `total` -- a weight of all tasks, those under way and those the live objects will leave. Each
    operation changes it by the tasks it adds or takes away (`total_*`); owners, pending effects
    and the length of a teardown are weights of this kind.
  * `Heap.Inv` -- every count is the number of owners, members are older than their object, and
    the references an effect needs are released after it.
  * `Inv.alive_of_pending` -- what a pending effect needs is alive: owners go before what they own.
  * `Inv.pending_eq_zero` -- when nothing is held and nothing is left to do, nothing is pending:
    counting finds all garbage.
-/
import Mathlib.Data.List.Basic
import Mathlib.Data.List.Count
import Mathlib.Algebra.BigOperators.Group.List.Basic
import Mathlib.Tactic.Ring

namespace Lib

/-! ## 1. Objects, owners, destructors -/

/-- What is left to do of a destructor. -/
inductive Task (β : Type*) where
  /-- Run an effect of its body. -/
  | run (e : β)
  /-- Let go of a member. -/
  | release (a : Nat)
  deriving DecidableEq, Repr

/-- How the objects of a class end: the effects of the destructor's body, then the owning members
    in the order they are destroyed. -/
structure Layout (ο β : Type*) where
  body : ο → List β
  members : ο → List Nat

/-- A control block: the use count, the object. -/
structure Block (ο : Type*) where
  uses : Nat
  obj : ο
  deriving DecidableEq, Repr

/-- Blocks by address, the references the program holds, the destructors under way. -/
structure Heap (ο β : Type*) where
  blocks : List (Block ο)
  refs : List Nat
  tasks : List (List (Task β))
  deriving Repr

namespace Heap

variable {ο β : Type*}

def empty : Heap ο β := ⟨[], [], []⟩

/-- The use count at an address. -/
def usesAt (h : Heap ο β) (a : Nat) : Nat := (h.blocks[a]?.map Block.uses).getD 0

def Alive (h : Heap ο β) (a : Nat) : Prop := 0 < h.usesAt a

/-- The object at an address, also while it is being destroyed. -/
def objAt (h : Heap ο β) (a : Nat) : Option ο := h.blocks[a]?.map Block.obj

/-- Nothing is being destroyed. -/
def Idle (h : Heap ο β) : Prop := ∀ ts ∈ h.tasks, ts = []

/-! ## 2. Operations -/

/-- Copies a reference. -/
def copy (h : Heap ο β) (a : Nat) : Heap ο β :=
  { h with
    blocks := h.blocks.modify a fun b => { b with uses := b.uses + 1 }
    refs := a :: h.refs }

/-- Copies several. -/
def copyAll (h : Heap ο β) (ms : List Nat) : Heap ο β := ms.foldl copy h

/-- A new object, its members moved into it from the program's references. -/
def adopt (L : Layout ο β) (h : Heap ο β) (o : ο) : Heap ο β :=
  { h with
    blocks := h.blocks ++ [⟨1, o⟩]
    refs := h.blocks.length :: h.refs.diff (L.members o) }

/-- Storage whose object was never completed. -/
def abandon (h : Heap ο β) (husk : ο) : Heap ο β :=
  { h with blocks := h.blocks ++ [⟨0, husk⟩] }

/-- Drops a reference of the program. -/
def drop (h : Heap ο β) (a : Nat) : Heap ο β :=
  { h with refs := h.refs.erase a, tasks := [.release a] :: h.tasks }

/-- Move construction: a new object takes over what the block held, a husk stays. -/
def moveOut (h : Heap ο β) (a : Nat) (b : Block ο) (husk : ο) : Heap ο β :=
  { h with
    blocks := h.blocks.set a { b with obj := husk } ++ [⟨1, b.obj⟩]
    refs := h.blocks.length :: h.refs }

/-- The `i`-th list is done with its first task. -/
def finish (h : Heap ο β) (i : Nat) (rest : List (Task β)) : Heap ο β :=
  { h with tasks := h.tasks.set i rest }

/-- The tasks an object leaves behind. -/
def teardown (L : Layout ο β) (o : ο) : List (Task β) :=
  (L.body o).map .run ++ (L.members o).map .release

/-- The `i`-th list lets go of the block `b` at `a`. -/
def release (L : Layout ο β) (h : Heap ο β) (i a : Nat) (b : Block ο) (rest : List (Task β)) :
    Heap ο β :=
  { h with
    blocks := h.blocks.set a { b with uses := b.uses - 1 }
    tasks := h.tasks.set i (if b.uses = 1 then teardown L b.obj ++ rest else rest) }

/-! ## 3. The weight of what is left to do -/

/-- The weight of a list of tasks. -/
def weight (w : Task β → Nat) (ts : List (Task β)) : Nat := (ts.map w).sum

/-- The weight a block will leave: none if its object is gone. -/
def blockWeight (L : Layout ο β) (w : Task β → Nat) (b : Block ο) : Nat :=
  if 0 < b.uses then weight w (teardown L b.obj) else 0

/-- The weight of all tasks, under way and to come. -/
def total (L : Layout ο β) (w : Task β → Nat) (h : Heap ο β) : Nat :=
  (h.tasks.map (weight w)).sum + (h.blocks.map (blockWeight L w)).sum

@[simp] theorem weight_nil (w : Task β → Nat) : weight w [] = 0 := rfl

@[simp] theorem weight_cons (w : Task β → Nat) (t : Task β) (ts : List (Task β)) :
    weight w (t :: ts) = w t + weight w ts := by
  simp [weight]

@[simp] theorem weight_append (w : Task β → Nat) (ts us : List (Task β)) :
    weight w (ts ++ us) = weight w ts + weight w us := by
  simp [weight]

/-- Replacing an element changes a sum by the difference. -/
theorem sum_map_set {α : Type*} (f : α → Nat) {l : List α} {i : Nat} {x : α}
    (hi : l[i]? = some x) (y : α) : ((l.set i y).map f).sum + f x = (l.map f).sum + f y := by
  induction l generalizing i with
  | nil => simp at hi
  | cons z l ih =>
    cases i with
    | zero =>
      simp at hi
      subst hi
      simp
      omega
    | succ i =>
      have := ih (i := i) (by simpa using hi)
      simp only [List.set_cons_succ, List.map_cons, List.sum_cons]
      omega

variable {L : Layout ο β} {w : Task β → Nat} {h : Heap ο β} {a i : Nat} {b : Block ο} {o : ο}
  {t : Task β} {rest : List (Task β)}

theorem total_set_block (hb : h.blocks[a]? = some b) (b' : Block ο) (refs : List Nat) :
    total L w { h with blocks := h.blocks.set a b', refs := refs } + blockWeight L w b =
      total L w h + blockWeight L w b' := by
  have := sum_map_set (blockWeight L w) hb b'
  simp only [total]
  omega

theorem total_set_task {ts : List (Task β)} (hi : h.tasks[i]? = some ts) (us : List (Task β)) :
    total L w { h with tasks := h.tasks.set i us } + weight w ts = total L w h + weight w us := by
  have := sum_map_set (weight w) hi us
  simp only [total]
  omega

theorem modify_of_getElem? {α : Type*} {l : List α} {a : Nat} {x : α} (f : α → α)
    (hx : l[a]? = some x) : l.modify a f = l.set a (f x) := by
  induction l generalizing a with
  | nil => simp at hx
  | cons y l ih =>
    cases a with
    | zero => simp_all
    | succ a => simpa using ih (by simpa using hx)

theorem exists_block_of_alive (ha : h.Alive a) : ∃ b, h.blocks[a]? = some b ∧ 0 < b.uses := by
  unfold Alive usesAt at ha
  cases hb : h.blocks[a]? with
  | none => simp [hb] at ha
  | some b => exact ⟨b, rfl, by simpa [hb] using ha⟩

theorem usesAt_eq (hb : h.blocks[a]? = some b) : h.usesAt a = b.uses := by
  simp [usesAt, hb]

theorem objAt_eq (hb : h.blocks[a]? = some b) : h.objAt a = some b.obj := by
  simp [objAt, hb]

/-! The objects after an operation: only `adopt`, `abandon` and `moveOut` change them. -/

theorem objAt_set (hb : h.blocks[a]? = some b) (b' : Block ο) (refs : List Nat)
    (tasks : List (List (Task β))) (c : Nat) :
    objAt ⟨h.blocks.set a b', refs, tasks⟩ c = if c = a then some b'.obj else h.objAt c := by
  have hlt : a < h.blocks.length := (List.getElem?_eq_some_iff.mp hb).1
  unfold objAt
  by_cases hc : c = a
  · subst hc
    simp [hlt]
  · simp [hc, List.getElem?_set_ne (Ne.symm hc)]

/-- The elements of a list with one more. -/
theorem getElem?_concat_eq {α : Type*} (l : List α) (x : α) (c : Nat) :
    (l ++ [x])[c]? = if c = l.length then some x else l[c]? := by
  rcases Nat.lt_trichotomy c l.length with hlt | rfl | hgt
  · rw [if_neg (Nat.ne_of_lt hlt), List.getElem?_append_left hlt]
  · rw [if_pos rfl, List.getElem?_concat_length]
  · rw [if_neg (Nat.ne_of_gt hgt), List.getElem?_eq_none (Nat.le_of_lt hgt)]
    exact List.getElem?_eq_none (by rw [List.length_append]; exact hgt)

theorem objAt_append (b' : Block ο) (refs : List Nat) (tasks : List (List (Task β)))
    (blocks : List (Block ο)) (c : Nat) :
    objAt ⟨blocks ++ [b'], refs, tasks⟩ c =
      if c = blocks.length then some b'.obj else objAt ⟨blocks, refs, tasks⟩ c := by
  unfold objAt
  dsimp only
  rw [getElem?_concat_eq]
  split <;> rfl

theorem objAt_fresh (ha : h.blocks.length ≤ a) : h.objAt a = none := by
  simp [objAt, ha]

@[simp] theorem objAt_copy (c : Nat) : (h.copy a).objAt c = h.objAt c := by
  unfold objAt copy
  rw [List.getElem?_modify]
  cases h.blocks[c]? with
  | none => rfl
  | some b => by_cases hc : a = c <;> simp [hc]

@[simp] theorem length_copy : (h.copy a).blocks.length = h.blocks.length := by
  simp [copy]

@[simp] theorem objAt_copyAll (ms : List Nat) (c : Nat) : (h.copyAll ms).objAt c = h.objAt c := by
  induction ms generalizing h with
  | nil => rfl
  | cons m ms ih => exact ih.trans (objAt_copy c)

@[simp] theorem length_copyAll (ms : List Nat) :
    (h.copyAll ms).blocks.length = h.blocks.length := by
  induction ms generalizing h with
  | nil => rfl
  | cons m ms ih => exact ih.trans length_copy

theorem count_copyAll (ms : List Nat) (c : Nat) :
    (h.copyAll ms).refs.count c = h.refs.count c + ms.count c := by
  induction ms generalizing h with
  | nil => rfl
  | cons m ms ih =>
    have hstep : (h.copyAll (m :: ms)).refs.count c = (m :: h.refs).count c + ms.count c := ih
    rw [hstep, List.count_cons, List.count_cons]
    omega

theorem objAt_release (hb : h.blocks[a]? = some b) (c : Nat) :
    (h.release L i a b rest).objAt c = h.objAt c := by
  refine (objAt_set hb _ _ _ c).trans ?_
  split
  next hc => rw [hc, objAt_eq hb]
  next => rfl

theorem total_copy (ha : h.Alive a) : total L w (h.copy a) = total L w h := by
  obtain ⟨b, hb, hu⟩ := exists_block_of_alive ha
  have hw : blockWeight L w { b with uses := b.uses + 1 } = blockWeight L w b := by
    simp [blockWeight, hu]
  have := total_set_block (L := L) (w := w) hb { b with uses := b.uses + 1 } (a :: h.refs)
  rw [copy, modify_of_getElem? _ hb]
  omega

theorem total_adopt : total L w (h.adopt L o) = total L w h + weight w (teardown L o) := by
  simp [total, adopt, blockWeight]
  omega

theorem total_abandon {husk : ο} : total L w (h.abandon husk) = total L w h := by
  simp [total, abandon, blockWeight]

theorem total_drop : total L w (h.drop a) = total L w h + w (.release a) := by
  simp [total, drop]
  omega

theorem total_moveOut (hb : h.blocks[a]? = some b) (hu : 0 < b.uses) {husk : ο}
    (hh : teardown L husk = []) : total L w (h.moveOut a b husk) = total L w h := by
  have hset := sum_map_set (blockWeight L w) hb { b with obj := husk }
  have hb' : blockWeight L w b = weight w (teardown L b.obj) := if_pos hu
  have hhusk : blockWeight L w { b with obj := husk } = 0 := by simp [blockWeight, hh]
  have hnew : blockWeight L w ⟨1, b.obj⟩ = weight w (teardown L b.obj) := by simp [blockWeight]
  simp only [total, moveOut, List.map_append, List.map_cons, List.map_nil, List.sum_append,
    List.sum_cons, List.sum_nil]
  omega

theorem total_finish (hi : h.tasks[i]? = some (t :: rest)) :
    total L w (h.finish i rest) + w t = total L w h := by
  have := total_set_task (L := L) (w := w) hi rest
  rw [weight_cons] at this
  show total L w { h with tasks := h.tasks.set i rest } + w t = _
  omega

/-- **Letting go of a reference takes one task away**: what the object leaves behind when the
    count reaches zero was counted with the object before. -/
theorem total_release (hi : h.tasks[i]? = some (.release a :: rest)) (hb : h.blocks[a]? = some b)
    (hu : 0 < b.uses) : total L w (h.release L i a b rest) + w (.release a) = total L w h := by
  have hblock := sum_map_set (blockWeight L w) hb { b with uses := b.uses - 1 }
  have htask := sum_map_set (weight w) hi (if b.uses = 1 then teardown L b.obj ++ rest else rest)
  rw [weight_cons] at htask
  simp only [total, release]
  by_cases h1 : b.uses = 1
  · simp [blockWeight, h1] at hblock htask ⊢
    omega
  · have hu' : 0 < b.uses - 1 := by omega
    simp [blockWeight, h1, hu, hu'] at hblock htask ⊢
    omega

/-! ## 4. What an effect needs -/

theorem release_mem_teardown {m : Nat} : Task.release m ∈ teardown L o ↔ m ∈ L.members o := by
  simp [teardown]

theorem run_mem_teardown {e : β} : Task.run e ∈ teardown L o ↔ e ∈ L.body o := by
  simp [teardown]

/-- What each effect needs is released after it. -/
def Covered (needs : β → Nat → Prop) : List (Task β) → Prop
  | [] => True
  | .run e :: ts => (∀ m, needs e m → .release m ∈ ts) ∧ Covered needs ts
  | .release _ :: ts => Covered needs ts

variable {needs : β → Nat → Prop}

theorem Covered.append {ts us : List (Task β)} (ht : Covered needs ts) (hu : Covered needs us) :
    Covered needs (ts ++ us) := by
  induction ts with
  | nil => exact hu
  | cons t ts ih =>
    cases t with
    | run e => exact ⟨fun m hm => List.mem_append_left us (ht.1 m hm), ih ht.2⟩
    | release a => exact ih ht

theorem Covered.tail {ts : List (Task β)} (hc : Covered needs (t :: ts)) : Covered needs ts := by
  cases t with
  | run e => exact hc.2
  | release a => exact hc

theorem Covered.release_mem {ts : List (Task β)} (hc : Covered needs ts) {e : β} {m : Nat}
    (he : .run e ∈ ts) (hm : needs e m) : .release m ∈ ts := by
  induction ts with
  | nil => simp at he
  | cons t ts ih =>
    rcases List.mem_cons.mp he with rfl | he
    · exact List.mem_cons_of_mem _ (hc.1 m hm)
    · exact List.mem_cons_of_mem _ (ih hc.tail he)

/-- What an object's own effects need are members of it. -/
theorem covered_teardown (hn : ∀ e ∈ L.body o, ∀ m, needs e m → m ∈ L.members o) :
    Covered needs (teardown L o) := by
  have hm : Covered needs ((L.members o).map Task.release) := by
    induction L.members o with
    | nil => trivial
    | cons m ms ih => exact ih
  have hb : ∀ es : List β, (∀ e ∈ es, ∀ m, needs e m → m ∈ L.members o) →
      Covered needs (es.map .run ++ (L.members o).map .release) := by
    intro es he
    induction es with
    | nil => exact hm
    | cons e es ih =>
      refine ⟨fun m hem => ?_, ih fun e' h' => he e' (List.mem_cons_of_mem e h')⟩
      exact List.mem_append_right _ (List.mem_map_of_mem (he e List.mem_cons_self m hem))
  exact hb (L.body o) hn

/-! ## 5. Changes of the blocks -/

/-- The count at the addresses after one block changed. -/
theorem usesAt_set (hb : h.blocks[a]? = some b) (b' : Block ο) (refs : List Nat)
    (tasks : List (List (Task β))) (c : Nat) :
    usesAt ⟨h.blocks.set a b', refs, tasks⟩ c = if c = a then b'.uses else h.usesAt c := by
  have hlt : a < h.blocks.length := (List.getElem?_eq_some_iff.mp hb).1
  unfold usesAt
  by_cases hc : c = a
  · subst hc
    simp [hlt]
  · simp [hc, List.getElem?_set_ne (Ne.symm hc)]

/-- The count at the addresses after a block was added. -/
theorem usesAt_append (b' : Block ο) (refs : List Nat) (tasks : List (List (Task β)))
    (blocks : List (Block ο)) (c : Nat) :
    usesAt ⟨blocks ++ [b'], refs, tasks⟩ c =
      if c = blocks.length then b'.uses else usesAt ⟨blocks, refs, tasks⟩ c := by
  unfold usesAt
  dsimp only
  rw [getElem?_concat_eq]
  split <;> rfl

/-- A change of counts leaves what the blocks hold. -/
theorem mem_set_block {P : ο → Prop} (hP : ∀ b ∈ h.blocks, P b.obj) (b' : Block ο)
    (hb' : P b'.obj) {c : Block ο} (hc : c ∈ h.blocks.set a b') : P c.obj := by
  rcases List.mem_or_eq_of_mem_set hc with hc | rfl
  · exact hP c hc
  · exact hb'

theorem older_set (ho : ∀ a b, h.blocks[a]? = some b → ∀ m ∈ L.members b.obj, m < a)
    (hb : h.blocks[a]? = some b) {b' : Block ο} (hm : ∀ m ∈ L.members b'.obj, m ∈ L.members b.obj) :
    ∀ c d, (h.blocks.set a b')[c]? = some d → ∀ m ∈ L.members d.obj, m < c := by
  intro c d hd m hmd
  by_cases hc : c = a
  · subst hc
    rw [List.getElem?_set_self (List.getElem?_eq_some_iff.mp hb).1] at hd
    cases hd
    exact ho c b hb m (hm m hmd)
  · rw [List.getElem?_set_ne (Ne.symm hc)] at hd
    exact ho c d hd m hmd

theorem older_append {blocks : List (Block ο)}
    (ho : ∀ a b, blocks[a]? = some b → ∀ m ∈ L.members b.obj, m < a) {b' : Block ο}
    (hm : ∀ m ∈ L.members b'.obj, m < blocks.length) :
    ∀ c d, (blocks ++ [b'])[c]? = some d → ∀ m ∈ L.members d.obj, m < c := by
  intro c d hd m hmd
  rcases List.getElem?_append.symm.trans hd with hd
  split at hd
  next hlt => exact ho c d hd m hmd
  next hge =>
    obtain ⟨hlt, rfl⟩ := List.getElem?_eq_some_iff.mp hd
    simp at hlt hmd
    have hc : c = blocks.length := by omega
    rw [hc]
    exact hm m hmd

theorem count_cons_eq (l : List Nat) (a c : Nat) :
    (a :: l).count c = l.count c + if c = a then 1 else 0 := by
  by_cases hc : c = a
  · simp [hc]
  · simp [hc, Ne.symm hc]

theorem pos_sum_map_iff {α : Type*} (f : α → Nat) (l : List α) :
    0 < (l.map f).sum ↔ ∃ x ∈ l, 0 < f x := by
  induction l with
  | nil => simp
  | cons x l ih =>
    simp only [List.map_cons, List.sum_cons, List.exists_mem_cons_iff, ← ih]
    omega

theorem total_idle (hidle : h.Idle) (hdead : ∀ a, ¬ h.Alive a) : total L w h = 0 := by
  have htasks : ¬ 0 < (h.tasks.map (weight w)).sum := by
    rw [pos_sum_map_iff]
    rintro ⟨ts, hts, hp⟩
    rw [hidle ts hts] at hp
    exact absurd hp (Nat.lt_irrefl 0)
  have hblocks : ¬ 0 < (h.blocks.map (blockWeight L w)).sum := by
    rw [pos_sum_map_iff]
    rintro ⟨b, hb, hp⟩
    obtain ⟨a, ha⟩ := List.mem_iff_getElem?.mp hb
    have hu : ¬ 0 < b.uses := fun hu => hdead a (by unfold Alive; rwa [usesAt_eq ha])
    simp [blockWeight, hu] at hp
  unfold total
  omega

/-! ## 6. Tasks in play, owners -/

section Owners

variable [DecidableEq β]

/-- The weight that counts one task. -/
def one (t : Task β) : Task β → Nat := fun u => if u = t then 1 else 0

/-- How often a task is to be done, now or when an object goes. -/
def pending (L : Layout ο β) (h : Heap ο β) (t : Task β) : Nat := total L (one t) h

/-- The owners of the object at an address. -/
def holders (L : Layout ο β) (h : Heap ο β) (a : Nat) : Nat :=
  h.refs.count a + pending L h (.release a)

@[simp] theorem one_self (t : Task β) : one t t = 1 := if_pos rfl

theorem one_of_ne {t u : Task β} (hne : u ≠ t) : one t u = 0 := if_neg hne

theorem weight_one (t : Task β) (ts : List (Task β)) : weight (one t) ts = ts.count t := by
  induction ts with
  | nil => rfl
  | cons u ts ih =>
    simp only [weight_cons, ih, List.count_cons, one, beq_iff_eq]
    omega

theorem count_release_teardown (m : Nat) :
    weight (one (.release m)) (teardown L o) = (L.members o).count m := by
  have hb : ((L.body o).map Task.run).count (.release m) = 0 := by
    simp [List.count_eq_zero]
  have hm : ((L.members o).map (Task.release (β := β))).count (.release m) =
      (L.members o).count m :=
    List.count_map_of_injective _ _ (fun _ _ he => Task.release.inj he) _
  rw [weight_one, teardown, List.count_append, hb, hm, Nat.zero_add]

theorem count_run_teardown (e : β) :
    weight (one (.run e)) (teardown L o) = (L.body o).count e := by
  have hm : ((L.members o).map Task.release).count (.run e) = 0 := by
    simp [List.count_eq_zero]
  have hb : ((L.body o).map Task.run).count (.run e) = (L.body o).count e :=
    List.count_map_of_injective _ _ (fun _ _ he => Task.run.inj he) _
  rw [weight_one, teardown, List.count_append, hb, hm, Nat.add_zero]

/-- Where a pending task is: in a list under way, or with a live object. -/
theorem pending_pos_iff : 0 < pending L h t ↔
    (∃ ts ∈ h.tasks, t ∈ ts) ∨ ∃ b ∈ h.blocks, 0 < b.uses ∧ t ∈ teardown L b.obj := by
  have hsplit : 0 < pending L h t ↔
      0 < (h.tasks.map (weight (one t))).sum ∨ 0 < (h.blocks.map (blockWeight L (one t))).sum := by
    unfold pending total
    omega
  rw [hsplit, pos_sum_map_iff, pos_sum_map_iff]
  refine or_congr ?_ ?_
  · simp only [weight_one, List.count_pos_iff]
  · refine exists_congr fun b => and_congr_right fun _ => ?_
    unfold blockWeight
    split
    next hu => simp only [weight_one, List.count_pos_iff, hu, true_and]
    next hu => simp [hu]

/-! ## 7. The invariant -/

variable {needs : β → Nat → Prop}

/-- **The invariant of counted ownership.** -/
structure Inv (L : Layout ο β) (needs : β → Nat → Prop) (h : Heap ο β) : Prop where
  counts : ∀ a, h.usesAt a = holders L h a
  older : ∀ a b, h.blocks[a]? = some b → ∀ m ∈ L.members b.obj, m < a
  underway : ∀ ts ∈ h.tasks, Covered needs ts
  objects : ∀ b ∈ h.blocks, Covered needs (teardown L b.obj)

namespace Inv

variable (hi : Inv L needs h)
include hi

theorem alive_of_mem (ha : a ∈ h.refs) : h.Alive a := by
  have := List.count_pos_iff.mpr ha
  unfold Alive
  rw [hi.counts, holders]
  omega

theorem alive_of_release (hp : 0 < pending L h (.release a)) : h.Alive a := by
  unfold Alive
  rw [hi.counts, holders]
  omega

/-- A live object keeps its members alive. -/
theorem alive_of_member (ha : h.Alive a) (ho : h.objAt a = some o) {m : Nat}
    (hm : m ∈ L.members o) : h.Alive m := by
  obtain ⟨b, hb, hu⟩ := exists_block_of_alive ha
  obtain rfl : b.obj = o := Option.some.inj ((objAt_eq hb).symm.trans ho)
  exact hi.alive_of_release <| pending_pos_iff.mpr <|
    .inr ⟨b, List.mem_of_getElem? hb, hu, release_mem_teardown.mpr hm⟩

/-- **What a pending effect needs is alive.** -/
theorem alive_of_pending {e : β} {m : Nat} (hp : 0 < pending L h (.run e)) (hm : needs e m) :
    h.Alive m := by
  refine hi.alive_of_release (pending_pos_iff.mpr ?_)
  rcases pending_pos_iff.mp hp with ⟨ts, hts, he⟩ | ⟨b, hb, hu, he⟩
  · exact .inl ⟨ts, hts, (hi.underway ts hts).release_mem he hm⟩
  · exact .inr ⟨b, hb, hu, (hi.objects b hb).release_mem he hm⟩

/-- The block a list is about to let go of. -/
theorem block_of_task (ht : h.tasks[i]? = some (.release a :: rest)) :
    ∃ b, h.blocks[a]? = some b ∧ 0 < b.uses :=
  exists_block_of_alive <| hi.alive_of_release <| pending_pos_iff.mpr <|
    .inl ⟨_, List.mem_of_getElem? ht, List.mem_cons_self⟩

/-- An address that is not in use has no owners. -/
theorem holders_fresh (ha : h.blocks.length ≤ a) : holders L h a = 0 := by
  rw [← hi.counts]
  simp [usesAt, ha]

end Inv

/-! ## 8. The operations keep it -/

theorem inv_empty : Inv L needs (empty : Heap ο β) where
  counts a := by simp [usesAt, empty, holders, pending, total]
  older a b hb := by simp [empty] at hb
  underway ts hts := by simp [empty] at hts
  objects b hb := by simp [empty] at hb

namespace Inv

variable (hi : Inv L needs h)
include hi

theorem copy (ha : h.Alive a) : Inv L needs (h.copy a) := by
  obtain ⟨b, hb, hu⟩ := exists_block_of_alive ha
  have htotal : ∀ c, pending L (h.copy a) (.release c) = pending L h (.release c) :=
    fun c => total_copy ha
  have heq : h.copy a =
      ⟨h.blocks.set a { b with uses := b.uses + 1 }, a :: h.refs, h.tasks⟩ := by
    rw [Heap.copy, modify_of_getElem? _ hb]
  refine ⟨fun c => ?_, ?_, hi.underway, ?_⟩
  · have hc := hi.counts c
    have hrefs : (h.copy a).refs.count c = h.refs.count c + if c = a then 1 else 0 :=
      count_cons_eq h.refs a c
    unfold holders at hc ⊢
    rw [htotal, hrefs, heq, usesAt_set hb]
    split
    next he =>
      subst he
      rw [usesAt_eq hb] at hc
      show b.uses + 1 = _
      omega
    next => omega
  · rw [heq]
    exact older_set hi.older hb fun m hm => hm
  · rw [heq]
    exact fun c hc => mem_set_block (P := fun o => Covered needs (teardown L o)) hi.objects
      { b with uses := b.uses + 1 } (hi.objects b (List.mem_of_getElem? hb)) hc

theorem copyAll {ms : List Nat} (hm : ∀ m ∈ ms, m ∈ h.refs) : Inv L needs (h.copyAll ms) := by
  induction ms generalizing h with
  | nil => exact hi
  | cons m ms ih =>
    refine ih (hi.copy (hi.alive_of_mem (hm m List.mem_cons_self))) fun m' hm' => ?_
    exact List.mem_cons_of_mem m (hm m' (List.mem_cons_of_mem m hm'))

theorem total_copyAll {ms : List Nat} (hm : ∀ m ∈ ms, m ∈ h.refs) :
    total L w (h.copyAll ms) = total L w h := by
  induction ms generalizing h with
  | nil => rfl
  | cons m ms ih =>
    have hmem := hm m List.mem_cons_self
    have halive := hi.alive_of_mem hmem
    refine (ih (hi.copy halive) fun m' hm' => ?_).trans (total_copy halive)
    exact List.mem_cons_of_mem m (hm m' (List.mem_cons_of_mem m hm'))

theorem adopt (hm : ∀ m, (L.members o).count m ≤ h.refs.count m)
    (hn : Covered needs (teardown L o)) : Inv L needs (h.adopt L o) := by
  have hold : ∀ m ∈ L.members o, m < h.blocks.length := by
    intro m hmo
    have hpos := List.count_pos_iff.mpr hmo
    have hmr : m ∈ h.refs := List.count_pos_iff.mp (Nat.lt_of_lt_of_le hpos (hm m))
    obtain ⟨b, hb, -⟩ := exists_block_of_alive (hi.alive_of_mem hmr)
    exact (List.getElem?_eq_some_iff.mp hb).1
  refine ⟨fun c => ?_, older_append hi.older hold, hi.underway, ?_⟩
  · have hc := hi.counts c
    have htotal : pending L (h.adopt L o) (.release c) =
        pending L h (.release c) + (L.members o).count c := by
      rw [← count_release_teardown]
      exact total_adopt
    have hrefs : (h.adopt L o).refs.count c =
        h.refs.count c - (L.members o).count c + if c = h.blocks.length then 1 else 0 := by
      show (h.blocks.length :: h.refs.diff (L.members o)).count c = _
      rw [count_cons_eq, List.count_diff]
    have hle := hm c
    have huses := usesAt_append ⟨1, o⟩ (h.blocks.length :: h.refs.diff (L.members o)) h.tasks
      h.blocks c
    unfold holders at hc ⊢
    rw [htotal, hrefs]
    refine huses.trans ?_
    split
    next he =>
      have hf := hi.holders_fresh (Nat.le_of_eq he.symm)
      unfold holders at hf
      show 1 = _
      omega
    next =>
      show h.usesAt c = _
      omega
  · intro b hb
    rcases List.mem_append.mp hb with hb | hb
    · exact hi.objects b hb
    · rw [List.mem_singleton.mp hb]
      exact hn

/-- A constructor copies what the new object owns from pointers the program holds. -/
theorem build (hm : ∀ m ∈ L.members o, m ∈ h.refs) (hn : Covered needs (teardown L o)) :
    Inv L needs ((h.copyAll (L.members o)).adopt L o) := by
  refine (hi.copyAll hm).adopt (fun m => ?_) hn
  rw [count_copyAll]
  omega

theorem total_build (hm : ∀ m ∈ L.members o, m ∈ h.refs) :
    total L w ((h.copyAll (L.members o)).adopt L o) = total L w h + weight w (teardown L o) := by
  rw [total_adopt, hi.total_copyAll hm]

theorem abandon {husk : ο} (hh : teardown L husk = []) : Inv L needs (h.abandon husk) := by
  have hmem : ∀ m, m ∉ L.members husk := by
    intro m hm
    have := release_mem_teardown.mpr hm
    simp [hh] at this
  refine ⟨fun c => ?_, older_append hi.older fun m hm => absurd hm (hmem m), hi.underway, ?_⟩
  · have hc := hi.counts c
    have htotal : pending L (h.abandon husk) (.release c) = pending L h (.release c) :=
      total_abandon
    unfold holders at hc ⊢
    rw [htotal]
    refine (usesAt_append ⟨0, husk⟩ h.refs h.tasks h.blocks c).trans ?_
    split
    next he =>
      have hf := hi.holders_fresh (Nat.le_of_eq he.symm)
      exact hf.symm
    next => exact hc
  · intro b hb
    rcases List.mem_append.mp hb with hb | hb
    · exact hi.objects b hb
    · rw [List.mem_singleton.mp hb]
      show Covered needs (teardown L husk)
      rw [hh]
      trivial

theorem drop (ha : a ∈ h.refs) : Inv L needs (h.drop a) := by
  refine ⟨fun c => ?_, hi.older, ?_, hi.objects⟩
  · have hc := hi.counts c
    have htotal : pending L (h.drop a) (.release c) =
        pending L h (.release c) + one (.release c) (.release a : Task β) := total_drop
    have hone : one (.release c) (.release a : Task β) = if c = a then 1 else 0 := by
      simp [one, eq_comm]
    have hrefs : (h.drop a).refs.count c = h.refs.count c - if c = a then 1 else 0 := by
      show (h.refs.erase a).count c = _
      by_cases hc : c = a
      · simp [hc]
      · simp [hc, List.count_erase_of_ne hc]
    have hpos := List.count_pos_iff.mpr ha
    unfold holders at hc ⊢
    rw [htotal, hone, hrefs]
    show h.usesAt c = _
    split
    next he =>
      subst he
      omega
    next => omega
  · intro ts hts
    rcases List.mem_cons.mp hts with rfl | hts
    · trivial
    · exact hi.underway ts hts

theorem moveOut (ha : a ∈ h.refs) (hb : h.blocks[a]? = some b) {husk : ο}
    (hh : teardown L husk = []) : Inv L needs (h.moveOut a b husk) := by
  have hu : 0 < b.uses := by
    have := hi.alive_of_mem ha
    unfold Alive at this
    rwa [usesAt_eq hb] at this
  have hmem : ∀ m, m ∉ L.members husk := by
    intro m hm
    have := release_mem_teardown.mpr hm
    simp [hh] at this
  have hlen : (h.blocks.set a { b with obj := husk }).length = h.blocks.length := by simp
  refine ⟨fun c => ?_, ?_, hi.underway, ?_⟩
  · have hc := hi.counts c
    have htotal : pending L (h.moveOut a b husk) (.release c) = pending L h (.release c) :=
      total_moveOut hb hu hh
    have hrefs : (h.moveOut a b husk).refs.count c =
        h.refs.count c + if c = h.blocks.length then 1 else 0 :=
      count_cons_eq h.refs _ c
    unfold holders at hc ⊢
    rw [htotal, hrefs]
    refine (usesAt_append ⟨1, b.obj⟩ _ h.tasks _ c).trans ?_
    rw [hlen]
    split
    next he =>
      have hf := hi.holders_fresh (Nat.le_of_eq he.symm)
      unfold holders at hf
      show 1 = _
      omega
    next =>
      rw [usesAt_set hb]
      split
      next he =>
        subst he
        rw [usesAt_eq hb] at hc
        show b.uses = _
        omega
      next => omega
  · refine older_append (older_set hi.older hb fun m hm => absurd hm (hmem m)) ?_
    rw [hlen]
    intro m hm
    exact Nat.lt_trans (hi.older a b hb m hm) (List.getElem?_eq_some_iff.mp hb).1
  · intro c hc
    rcases List.mem_append.mp hc with hc | hc
    · refine mem_set_block (P := fun o => Covered needs (teardown L o)) hi.objects _ ?_ hc
      show Covered needs (teardown L husk)
      rw [hh]
      trivial
    · rw [List.mem_singleton.mp hc]
      exact hi.objects b (List.mem_of_getElem? hb)

theorem finish {e : β} (ht : h.tasks[i]? = some (.run e :: rest)) : Inv L needs (h.finish i rest) := by
  refine ⟨fun c => ?_, hi.older, ?_, hi.objects⟩
  · have hc := hi.counts c
    have htotal : pending L (h.finish i rest) (.release c) + 0 = pending L h (.release c) := by
      rw [← one_of_ne (t := .release c) (u := .run e) (by simp)]
      exact total_finish ht
    unfold holders at hc ⊢
    rw [← htotal] at hc
    exact hc
  · intro ts hts
    rcases List.mem_or_eq_of_mem_set hts with hts | rfl
    · exact hi.underway ts hts
    · exact (hi.underway _ (List.mem_of_getElem? ht)).tail

theorem release (ht : h.tasks[i]? = some (.release a :: rest)) (hb : h.blocks[a]? = some b) :
    Inv L needs (h.release L i a b rest) := by
  obtain ⟨b', hb', hu⟩ := hi.block_of_task ht
  obtain rfl : b = b' := Option.some.inj (hb.symm.trans hb')
  refine ⟨fun c => ?_, older_set hi.older hb fun m hm => hm, ?_, ?_⟩
  · have hc := hi.counts c
    have htotal : pending L (h.release L i a b rest) (.release c) +
        one (.release c) (.release a : Task β) = pending L h (.release c) := total_release ht hb hu
    have hone : one (.release c) (.release a : Task β) = if c = a then 1 else 0 := by
      simp [one, eq_comm]
    unfold holders at hc ⊢
    rw [hone] at htotal
    refine (usesAt_set hb _ _ _ c).trans ?_
    show _ = h.refs.count c + _
    split
    next he =>
      subst he
      rw [usesAt_eq hb] at hc
      rw [if_pos rfl] at htotal
      show b.uses - 1 = _
      omega
    next he =>
      rw [if_neg he] at htotal
      omega
  · intro ts hts
    have hrest : Covered needs rest := (hi.underway _ (List.mem_of_getElem? ht)).tail
    rcases List.mem_or_eq_of_mem_set hts with hts | rfl
    · exact hi.underway ts hts
    · split
      · exact (hi.objects b (List.mem_of_getElem? hb)).append hrest
      · exact hrest
  · exact fun c hc => mem_set_block (P := fun o => Covered needs (teardown L o)) hi.objects
      { b with uses := b.uses - 1 } (hi.objects b (List.mem_of_getElem? hb)) hc

end Inv

/-! ## 9. Nothing is forgotten -/

/-- **When the program holds nothing and no destructor is under way, no object is left.** The
    owner of the youngest object would be younger still. -/
theorem Inv.not_alive (hi : Inv L needs h) (hrefs : h.refs = []) (hidle : h.Idle) (a : Nat) :
    ¬ h.Alive a := by
  -- induction on how far the address is from the end
  suffices hd : ∀ k a, h.blocks.length ≤ a + k → ¬ h.Alive a from
    hd h.blocks.length a (Nat.le_add_left _ _)
  intro k
  induction k with
  | zero =>
    intro a hk ha
    unfold Alive at ha
    rw [hi.counts, hi.holders_fresh (a := a) hk] at ha
    exact absurd ha (Nat.lt_irrefl 0)
  | succ k ih =>
    intro a hk ha
    unfold Alive at ha
    rw [hi.counts, holders, hrefs, List.count_nil, Nat.zero_add, pending_pos_iff] at ha
    rcases ha with ⟨ts, hts, hm⟩ | ⟨b, hb, hu, hm⟩
    · rw [hidle ts hts] at hm
      simp at hm
    · obtain ⟨c, hc⟩ := List.mem_iff_getElem?.mp hb
      have hlt := hi.older c b hc a (release_mem_teardown.mp hm)
      refine ih c (by omega) ?_
      unfold Alive
      rwa [usesAt_eq hc]

theorem Inv.pending_eq_zero (hi : Inv L needs h) (hrefs : h.refs = []) (hidle : h.Idle)
    (t : Task β) : pending L h t = 0 :=
  total_idle hidle (hi.not_alive hrefs hidle)

end Owners

end Heap

end Lib
