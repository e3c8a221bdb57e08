/-
  File:      Rdmapp/Lib/Pool.lean
  Subject:   POOLS: indices that are free or held, none twice and none lost.

  `Pool m free held` says of the indices below `m` that each is in the list `free` once or held by
  one party, never both. Taking a free index (`acquire`) and giving it back (`release`) keep it;
  the order of the list does not matter.
-/
import Mathlib.Data.List.Nodup
import Mathlib.Logic.Function.Basic

namespace Lib

variable {ι : Type*} {m : Nat} {free : List Nat} {held : ι → Option Nat} {c d : ι} {i : Nat}

/-- The indices below `m`, free or held. -/
structure Pool (m : Nat) (free : List Nat) (held : ι → Option Nat) : Prop where
  nodup : free.Nodup
  free_lt : ∀ i ∈ free, i < m
  held_lt : ∀ c i, held c = some i → i < m
  disjoint : ∀ c i, held c = some i → i ∉ free
  inj : ∀ c d i, held c = some i → held d = some i → c = d
  covered : ∀ i < m, i ∉ free → ∃ c, held c = some i

namespace Pool

theorem start (m : Nat) : Pool m (List.range m) (fun _ : ι => none) where
  nodup := List.nodup_range
  free_lt _ hi := List.mem_range.mp hi
  held_lt _ _ hc := nomatch hc
  disjoint _ _ hc := nomatch hc
  inj _ _ _ hc := nomatch hc
  covered _ hi hn := absurd (List.mem_range.mpr hi) hn

variable [DecidableEq ι]

/-- A free index is taken. -/
theorem acquire (h : Pool m free held) (hi : i ∈ free) (hc : held c = none) :
    Pool m (free.erase i) (Function.update held c (some i)) where
  nodup := h.nodup.erase i
  free_lt j hj := h.free_lt j (List.mem_of_mem_erase hj)
  held_lt d j hd := by
    rcases eq_or_ne d c with rfl | hne
    · rw [Function.update_self, Option.some.injEq] at hd
      exact hd ▸ h.free_lt i hi
    · rw [Function.update_of_ne hne] at hd
      exact h.held_lt d j hd
  disjoint d j hd := by
    rcases eq_or_ne d c with rfl | hne
    · rw [Function.update_self, Option.some.injEq] at hd
      exact hd ▸ h.nodup.not_mem_erase
    · rw [Function.update_of_ne hne] at hd
      exact fun hj => h.disjoint d j hd (List.mem_of_mem_erase hj)
  inj d e j hd he := by
    -- who held before does not hold a free index
    have hold : ∀ x, x ≠ c → Function.update held c (some i) x = some j → i ≠ j := by
      rintro x hx hxj rfl
      rw [Function.update_of_ne hx] at hxj
      exact h.disjoint x i hxj hi
    have hself : ∀ x, x = c → Function.update held c (some i) x = some j → i = j := by
      rintro x rfl hxj
      rwa [Function.update_self, Option.some.injEq] at hxj
    by_cases hdc : d = c <;> by_cases hec : e = c
    · rw [hdc, hec]
    · exact absurd (hself d hdc hd) (hold e hec he)
    · exact absurd (hself e hec he) (hold d hdc hd)
    · rw [Function.update_of_ne hdc] at hd
      rw [Function.update_of_ne hec] at he
      exact h.inj d e j hd he
  covered j hj hn := by
    rcases eq_or_ne j i with rfl | hne
    · exact ⟨c, Function.update_self c _ held⟩
    · obtain ⟨d, hd⟩ := h.covered j hj fun hm => hn ((List.mem_erase_of_ne hne).mpr hm)
      have hdc : d ≠ c := by
        rintro rfl
        rw [hc] at hd
        cases hd
      exact ⟨d, by rw [Function.update_of_ne hdc, hd]⟩

/-- A held index is given back. -/
theorem release (h : Pool m free held) (hc : held c = some i) :
    Pool m (free ++ [i]) (Function.update held c none) where
  nodup := by
    rw [List.nodup_append]
    refine ⟨h.nodup, List.nodup_cons.mpr ⟨List.not_mem_nil, List.nodup_nil⟩, fun a ha b hb => ?_⟩
    rw [List.mem_singleton.mp hb]
    rintro rfl
    exact h.disjoint c a hc ha
  free_lt j hj := by
    rcases List.mem_append.mp hj with hj | hj
    · exact h.free_lt j hj
    · exact List.mem_singleton.mp hj ▸ h.held_lt c i hc
  held_lt d j hd := by
    rcases eq_or_ne d c with rfl | hne
    · rw [Function.update_self] at hd
      cases hd
    · rw [Function.update_of_ne hne] at hd
      exact h.held_lt d j hd
  disjoint d j hd := by
    rcases eq_or_ne d c with rfl | hne
    · rw [Function.update_self] at hd
      cases hd
    · rw [Function.update_of_ne hne] at hd
      intro hj
      rcases List.mem_append.mp hj with hj | hj
      · exact h.disjoint d j hd hj
      · rw [List.mem_singleton.mp hj] at hd
        exact hne (h.inj d c i hd hc)
  inj d e j hd he := by
    have hold : ∀ x, Function.update held c none x = some j → held x = some j := by
      intro x hx
      rcases eq_or_ne x c with rfl | hne
      · rw [Function.update_self] at hx
        cases hx
      · rwa [Function.update_of_ne hne] at hx
    exact h.inj d e j (hold d hd) (hold e he)
  covered j hj hn := by
    rw [List.mem_append, not_or, List.mem_singleton] at hn
    obtain ⟨d, hd⟩ := h.covered j hj hn.1
    have hdc : d ≠ c := by
      rintro rfl
      rw [hc] at hd
      exact hn.2 (Option.some.inj hd).symm
    exact ⟨d, by rw [Function.update_of_ne hdc, hd]⟩

end Pool

end Lib
