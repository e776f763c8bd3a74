/-
# `RealBoy.Lib.Doubling` — an array that doubles when it is full

Room for one more element is made by doubling the capacity, where the array is
full, and never given back.  So the capacity is a power of two times the first
one, and as small as the lengths seen so far allow (`Tight`); and the array is full
where it has such a power of elements and never had more (`Tight.full_iff`).
-/
import Mathlib.Algebra.Group.Nat.Defs

namespace Doubling

/-- The capacity after room was made for one more element. -/
def grow (capacity length : Nat) : Nat := if length = capacity then capacity * 2 else capacity

/-- What the capacity owes to the lengths seen so far, where it began as `c`. -/
structure Tight (c : Nat) (seen : List Nat) (capacity : Nat) : Prop where
  power : ∃ k, capacity = c * 2 ^ k
  fits : ∀ n ∈ seen, n ≤ capacity
  needed : capacity = c ∨ ∃ n ∈ seen, capacity < 2 * n

variable {c capacity length : Nat} {seen : List Nat}

theorem tight_start (c : Nat) : Tight c [0] c where
  power := ⟨0, by simp⟩
  fits := by simp
  needed := .inl rfl

/-- A length for which there is room. -/
theorem Tight.keep (h : Tight c seen capacity) {n : Nat} (hn : n ≤ capacity) :
    Tight c (seen ++ [n]) capacity where
  power := h.power
  fits := by
    intro m hm
    rcases List.mem_append.mp hm with hm | hm
    · exact h.fits m hm
    · rw [List.mem_singleton.mp hm]
      exact hn
  needed := h.needed.imp_right fun ⟨m, hm, hlt⟩ => ⟨m, List.mem_append_left _ hm, hlt⟩

/-- **One more element.** -/
theorem Tight.grow (h : Tight c seen capacity) (hc : 0 < c) (hlength : length ∈ seen) :
    Tight c (seen ++ [length + 1]) (grow capacity length) := by
  have hle := h.fits length hlength
  unfold Doubling.grow
  split
  case isTrue hfull =>
    obtain ⟨k, hk⟩ := h.power
    have hpos : 0 < capacity := by
      rw [hk]
      exact Nat.mul_pos hc (Nat.two_pow_pos k)
    refine ⟨⟨k + 1, by rw [hk, Nat.pow_succ, Nat.mul_assoc]⟩, ?_,
      .inr ⟨length + 1, by simp, by omega⟩⟩
    intro m hm
    rcases List.mem_append.mp hm with hm | hm
    · have := h.fits m hm
      omega
    · rw [List.mem_singleton.mp hm]
      omega
  case isFalse hfull => exact h.keep (by omega)

/-- **When the array is full.** -/
theorem Tight.full_iff (h : Tight c seen capacity) (hc : 0 < c) (hlength : length ∈ seen) :
    length = capacity ↔ (∃ k, length = c * 2 ^ k) ∧ ∀ n ∈ seen, n ≤ length := by
  constructor
  · rintro rfl
    exact ⟨h.power, h.fits⟩
  · rintro ⟨⟨j, rfl⟩, hmax⟩
    refine Nat.le_antisymm (h.fits _ hlength) ?_
    rcases h.needed with rfl | ⟨n, hn, hlt⟩
    · exact Nat.le_mul_of_pos_right capacity (Nat.two_pow_pos j)
    · obtain ⟨k, rfl⟩ := h.power
      have hle := hmax n hn
      have hpow : c * 2 ^ k < c * 2 ^ (j + 1) := by
        rw [Nat.pow_succ, ← Nat.mul_assoc]
        omega
      have hexp : k < j + 1 := (Nat.pow_lt_pow_iff_right Nat.one_lt_two).mp
        (Nat.lt_of_mul_lt_mul_left hpow)
      exact Nat.mul_le_mul_left c (Nat.pow_le_pow_right Nat.zero_lt_two (Nat.le_of_lt_succ hexp))

end Doubling
