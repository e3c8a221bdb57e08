/-
  File:      Rdmapp/Lib/Memory.lean
  Subject:   FLAT MEMORY: bytes by address, what is written is what is read.

  A write is read back where it was made (`read_write`) and does not reach a range apart from it
  (`read_write_apart`); equal blocks of one region are apart (`blocks_apart`).
-/
import Mathlib.Data.List.GetD

namespace Lib

/-- Bytes by address. -/
abbrev Mem : Type := Nat → UInt8

namespace Mem

/-! ## 1. Reading and writing -/

/-- The `n` bytes at `a`. -/
def read (m : Mem) (a n : Nat) : List UInt8 := (List.range n).map fun i => m (a + i)

/-- The bytes `bs`, laid down at `a`. -/
def write (m : Mem) (a : Nat) (bs : List UInt8) : Mem := fun i =>
  if a ≤ i then bs.getD (i - a) (m i) else m i

variable {m : Mem} {a b n k : Nat} {bs : List UInt8}

theorem getElem_read {i : Nat} (h : i < (m.read a n).length) : (m.read a n)[i] = m (a + i) := by
  simp only [read, List.getElem_map, List.getElem_range]

@[simp] theorem read_length (m : Mem) (a n : Nat) : (m.read a n).length = n := by
  unfold read
  rw [List.length_map, List.length_range]

theorem write_outside {i : Nat} (h : i < a ∨ a + bs.length ≤ i) : m.write a bs i = m i := by
  unfold write
  rcases h with h | h
  · rw [if_neg (by omega)]
  · rw [if_pos (by omega), List.getD_eq_default _ _ (by omega)]

theorem write_inside {i : Nat} (h : i < bs.length) : m.write a bs (a + i) = bs[i] := by
  unfold write
  rw [if_pos (by omega), Nat.add_sub_cancel_left, List.getD_eq_getElem _ _ h]

/-- **What was written is read back.** -/
theorem read_write (m : Mem) (a : Nat) (bs : List UInt8) :
    (m.write a bs).read a bs.length = bs := by
  apply List.ext_getElem
  · rw [read_length]
  · intro i h₁ h₂
    rw [getElem_read h₁]
    exact write_inside h₂

/-- Two ranges that have no address in common. -/
def Apart (a n b k : Nat) : Prop := a + n ≤ b ∨ b + k ≤ a

/-- **A write does not reach what is apart from it.** -/
theorem read_write_apart (h : Apart a n b bs.length) : (m.write b bs).read a n = m.read a n := by
  unfold read
  refine List.map_congr_left fun i hi => write_outside ?_
  have hlt : i < n := List.mem_range.mp hi
  unfold Apart at h
  omega

/-- A range in two pieces. -/
theorem read_add (m : Mem) (a n k : Nat) : m.read a (n + k) = m.read a n ++ m.read (a + n) k := by
  unfold read
  rw [List.range_add, List.map_append, List.map_map]
  congr 1
  refine List.map_congr_left fun i _ => ?_
  show m (a + (n + i)) = m (a + n + i)
  rw [Nat.add_assoc]

theorem read_take (h : k ≤ n) : (m.read a n).take k = m.read a k := by
  obtain ⟨l, rfl⟩ := Nat.exists_eq_add_of_le h
  rw [read_add, List.take_left' (read_length m a k)]

theorem read_drop (m : Mem) (a n k : Nat) : (m.read a (n + k)).drop n = m.read (a + n) k := by
  rw [read_add, List.drop_left' (read_length m a n)]

/-- The two memories have the same `n` bytes at `a`. -/
def Agree (m m' : Mem) (a n : Nat) : Prop := ∀ i, a ≤ i → i < a + n → m i = m' i

theorem Agree.refl (m : Mem) (a n : Nat) : Agree m m a n := fun _ _ _ => rfl

theorem Agree.trans {m₁ m₂ m₃ : Mem} (h : Agree m₁ m₂ a n) (h' : Agree m₂ m₃ a n) :
    Agree m₁ m₃ a n := fun i ha hn => (h i ha hn).trans (h' i ha hn)

/-- What is read there is the same. -/
theorem Agree.read {m' : Mem} (h : Agree m m' a n) (hb : a ≤ b) (hk : b + k ≤ a + n) :
    m'.read b k = m.read b k := by
  unfold Mem.read
  refine List.map_congr_left fun i hi => (h _ (Nat.le_add_right_of_le hb) ?_).symm
  have hlt : i < k := List.mem_range.mp hi
  omega

/-- A write apart from them leaves them. -/
theorem agree_write (h : Apart a n b bs.length) : Agree m (m.write b bs) a n := by
  intro i ha hn
  unfold Apart at h
  exact (write_outside (by omega)).symm

/-! ## 2. Blocks -/

/-- Two blocks of one region. -/
theorem blocks_apart {i j : Nat} (size : Nat) (h : i ≠ j) :
    i * size + size ≤ j * size ∨ j * size + size ≤ i * size := by
  rcases Nat.lt_or_gt_of_ne h with h | h
  · left
    rw [← Nat.succ_mul]
    exact Nat.mul_le_mul_right size h
  · right
    rw [← Nat.succ_mul]
    exact Nat.mul_le_mul_right size h

/-- The `n` bytes at `a` are within the `i`-th block. -/
def Within (a n i size : Nat) : Prop := i * size ≤ a ∧ a + n ≤ i * size + size

/-- Ranges within two blocks. -/
theorem apart_of_blocks {i j size : Nat} (h : i ≠ j) (ha : Within a n i size)
    (hb : Within b k j size) : Apart a n b k := by
  unfold Within at ha hb
  unfold Apart
  rcases blocks_apart size h with h | h
  · left
    omega
  · right
    omega

/-- A block's first bytes. -/
theorem within_start {i size : Nat} (h : n ≤ size) : Within (i * size) n i size :=
  ⟨Nat.le_refl _, Nat.add_le_add_left h _⟩

/-- Bytes further on in a block. -/
theorem within_offset {i size x : Nat} (h : x + n ≤ size) : Within (i * size + x) n i size := by
  refine ⟨Nat.le_add_right _ _, ?_⟩
  rw [Nat.add_assoc]
  exact Nat.add_le_add_left h _

/-- A write within one block leaves the others. -/
theorem agree_write_block {i j size : Nat} (h : i ≠ j) (hb : Within b bs.length j size) :
    Agree m (m.write b bs) (i * size) size :=
  agree_write (apart_of_blocks h ⟨Nat.le_refl _, Nat.le_refl _⟩ hb)

end Mem

end Lib
