/-
  File:      Rdmapp/Views.lean
  Subject:   WHICH BYTES A VIEW DENOTES: slices of local and of remote regions.

  The view constructors clamp the length asked for to what the region has past the offset, a
  subtraction in 64 bits. Past the end of the region it wraps and the clamp is no clamp
  (`slice_length_past`); so a view is the part of its region that was asked for exactly when the
  offset lies in the region, or nothing was asked for (`view_exact_iff`).
-/
import Rdmapp.Awaitable
import Mathlib.Order.Interval.Set.Basic

namespace Rdmapp

/-! ## 1. Regions -/

/-- What a view is made from. -/
inductive Region where
  | localMr (l : LocalMr)
  | remoteMr (r : RemoteMr)
  deriving DecidableEq, Repr

namespace Region

def addr : Region → UInt64
  | localMr l => l.addr
  | remoteMr r => r.addr_

def length : Region → UInt64
  | localMr l => l.length
  | remoteMr r => r.length_

/-- `mr_view(region, offset, length)`. -/
def view : Region → UInt64 → UInt64 → MrView
  | localMr l => MrView.ofLocal l
  | remoteMr r => MrView.ofRemote r

end Region

/-- The addresses of `n` bytes at `a`, which no arithmetic bounds. -/
def addresses (a n : Nat) : Set Nat := Set.Ico a (a + n)

/-- The bytes of the region, of the span and of the scatter/gather entry. -/
def Region.bytes (R : Region) : Set Nat := addresses R.addr.toNat R.length.toNat

def MrView.bytes (v : MrView) : Set Nat := addresses v.addr.toNat v.length.toNat

def Span.bytes (s : Span) : Set Nat := addresses s.data.toNat s.size.toNat

def IbvSge.bytes (s : IbvSge) : Set Nat := addresses s.addr.toNat s.length.toNat

/-- The view is what was asked for of the region, and what is made from the view stays in it. -/
structure ViewExact (R : Region) (offset length : UInt64) : Prop where
  exact : (R.view offset length).bytes =
    addresses (R.addr.toNat + offset.toNat) length.toNat ∩ R.bytes
  empty : R.length ≤ offset → (R.view offset length).bytes = ∅
  span : (R.view offset length).span.bytes ⊆ R.bytes
  sge : (fillLocalSge (R.view offset length)).bytes ⊆ R.bytes

/-! ## 2. The clamp -/

section Clamp

variable {a L offset length : UInt64} {key : UInt32}

/-- Both constructors, where `length()` does not narrow. -/
def slice (a L : UInt64) (key : UInt32) (offset length : UInt64) : MrView :=
  ⟨a + offset, min length (L - offset), key⟩

theorem Region.view_eq (R : Region) (h : R.length.toNat < 2 ^ 32) (offset length : UInt64) :
    ∃ key, R.view offset length = slice R.addr R.length key offset length := by
  cases R with
  | localMr l => exact ⟨l.lkey, rfl⟩
  | remoteMr r =>
    refine ⟨r.rkey, ?_⟩
    show MrView.mk _ (min length (r.length_.toUInt32.toUInt64 - offset)) _ = _
    rw [(toUInt32_toUInt64_eq_iff r.length_).mpr h]
    rfl

theorem toNat_toUInt32_eq_iff (n : UInt64) : n.toUInt32.toNat = n.toNat ↔ n.toNat < 2 ^ 32 := by
  rw [← toUInt32_toUInt64_eq_iff, ← UInt64.toNat_inj, UInt32.toNat_toUInt64]

theorem toNat_min (x y : UInt64) : (min x y).toNat = min x.toNat y.toNat := by
  show (if x ≤ y then x else y).toNat = _
  by_cases h : x ≤ y
  · rw [if_pos h, min_eq_left (UInt64.le_iff_toNat_le.mp h)]
  · rw [if_neg h]
    rw [UInt64.le_iff_toNat_le, not_le] at h
    exact (min_eq_right h.le).symm

/-- Within the region the clamp is one. -/
theorem slice_length (h : offset.toNat ≤ L.toNat) :
    (slice a L key offset length).length.toNat =
      min length.toNat (L.toNat - offset.toNat) := by
  unfold slice
  rw [toNat_min, UInt64.toNat_sub_of_le _ _ (UInt64.le_iff_toNat_le.mpr h)]

/-- **Past the end of the region** it leaves some of what was asked for, if anything was. -/
theorem slice_length_past (h : L.toNat < offset.toNat) :
    (slice a L key offset length).length.toNat = 0 ↔ length = 0 := by
  have hoff := offset.toNat_lt
  have hsub : (L - offset).toNat = 2 ^ 64 - offset.toNat + L.toNat := by
    rw [UInt64.toNat_sub, Nat.mod_eq_of_lt (by omega)]
  unfold slice
  rw [toNat_min, hsub, ← UInt64.toNat_inj, UInt64.toNat_zero]
  omega

/-- The address does not wrap while the offset lies in the region, but behind its last byte. -/
theorem slice_addr (hfit : a.toNat + L.toNat ≤ 2 ^ 64) (h : offset.toNat < L.toNat) :
    (slice a L key offset length).addr.toNat = a.toNat + offset.toNat := by
  unfold slice
  rw [UInt64.toNat_add, Nat.mod_eq_of_lt (by omega)]

theorem addresses_empty {a n : Nat} : addresses a n = ∅ ↔ n = 0 := by
  unfold addresses
  rw [Set.Ico_eq_empty_iff]
  omega

theorem addresses_subset {a b n k : Nat} (ha : b ≤ a) (hn : a + n ≤ b + k) :
    addresses a n ⊆ addresses b k := Set.Ico_subset_Ico ha hn

/-- What was asked for and lies in the region. -/
theorem addresses_inter (a x n L : Nat) :
    addresses (a + x) n ∩ addresses a L = addresses (a + x) (min n (L - x)) := by
  unfold addresses
  ext y
  simp only [Set.mem_inter_iff, Set.mem_Ico]
  omega

end Clamp

/-! ## 3. Views -/

section Views

variable {R : Region} {offset length : UInt64}

theorem view_bytes (hfit : R.addr.toNat + R.length.toNat ≤ 2 ^ 64)
    (hlen : R.length.toNat < 2 ^ 32) (h : offset.toNat ≤ R.length.toNat) :
    (R.view offset length).bytes =
      addresses (R.addr.toNat + offset.toNat) length.toNat ∩ R.bytes := by
  obtain ⟨key, hv⟩ := R.view_eq hlen offset length
  unfold MrView.bytes Region.bytes
  rw [hv, addresses_inter, slice_length h]
  rcases Nat.lt_or_eq_of_le h with h | h
  · rw [slice_addr hfit h]
  · -- at the end of the region the address may wrap, but there is no byte
    have hzero : min length.toNat (R.length.toNat - offset.toNat) = 0 := by omega
    rw [hzero, addresses_empty.mpr rfl, addresses_empty.mpr rfl]

/-- A view of nothing. -/
theorem view_bytes_nothing (hlen : R.length.toNat < 2 ^ 32) :
    (R.view offset 0).bytes = ∅ := by
  obtain ⟨key, hv⟩ := R.view_eq hlen offset 0
  unfold MrView.bytes
  rw [hv]
  refine addresses_empty.mpr ?_
  unfold slice
  rw [toNat_min]
  exact Nat.min_eq_left (Nat.zero_le _)

/-- The narrowed length of an entry is no longer than the view. -/
theorem sge_subset (v : MrView) : (fillLocalSge v).bytes ⊆ v.bytes := by
  refine addresses_subset (Nat.le_refl _) (Nat.add_le_add_left ?_ _)
  show v.length.toUInt32.toNat ≤ v.length.toNat
  rw [UInt64.toNat_toUInt32]
  exact Nat.mod_le _ _

/-- **A view is the part of its region that was asked for exactly when the offset lies in the
    region, or nothing was asked for**: of every local and every remote region below 4 GiB, for
    every offset and length. -/
theorem view_exact_iff (R : Region) (offset length : UInt64)
    (hfit : R.addr.toNat + R.length.toNat ≤ 2 ^ 64) (hlen : R.length.toNat < 2 ^ 32) :
    ViewExact R offset length ↔ offset ≤ R.length ∨ length = 0 := by
  constructor
  · intro h
    by_cases hoff : offset ≤ R.length
    · exact Or.inl hoff
    · right
      have hpast : R.length.toNat < offset.toNat := by
        rw [UInt64.le_iff_toNat_le] at hoff
        omega
      have hempty := h.empty (UInt64.le_iff_toNat_le.mpr (by omega))
      obtain ⟨key, hv⟩ := R.view_eq hlen offset length
      unfold MrView.bytes at hempty
      rw [hv] at hempty
      exact (slice_length_past hpast).mp (addresses_empty.mp hempty)
  · intro h
    have hexact : (R.view offset length).bytes =
        addresses (R.addr.toNat + offset.toNat) length.toNat ∩ R.bytes := by
      rcases h with h | rfl
      · exact view_bytes hfit hlen (UInt64.le_iff_toNat_le.mp h)
      · rw [view_bytes_nothing hlen, addresses_empty.mpr UInt64.toNat_zero, Set.empty_inter]
    have hwithin : (R.view offset length).bytes ⊆ R.bytes := by
      rw [hexact]
      exact Set.inter_subset_right
    refine ⟨hexact, fun hend => ?_, hwithin, (sge_subset _).trans hwithin⟩
    rw [hexact]
    unfold Region.bytes
    rw [addresses_inter]
    refine addresses_empty.mpr ?_
    have hle := UInt64.le_iff_toNat_le.mp hend
    omega

/-- Such a view: half of a page past its middle. -/
theorem view_exact_iff_page :
    ViewExact (.localMr ⟨⟨65536, 4096, 7, 9⟩⟩) 2048 4096 :=
  (view_exact_iff (.localMr ⟨⟨65536, 4096, 7, 9⟩⟩) 2048 4096 (by decide) (by decide)).mpr
    (Or.inl (by decide))

/-- A page at 64 KiB, sliced 8 KiB on: the view's 64 bytes lie behind the region. -/
theorem view_past_region :
    ¬ ViewExact (.localMr ⟨⟨65536, 4096, 7, 9⟩⟩) 8192 64 ∧
      (Region.view (.localMr ⟨⟨65536, 4096, 7, 9⟩⟩) 8192 64) = ⟨73728, 64, 7⟩ := by
  have hview : (Region.view (.localMr ⟨⟨65536, 4096, 7, 9⟩⟩) 8192 64) = ⟨73728, 64, 7⟩ := by
    decide
  refine ⟨fun h => ?_, hview⟩
  have hempty := h.empty (by decide)
  rw [hview] at hempty
  exact absurd (addresses_empty.mp hempty) (by decide)

end Views

end Rdmapp
