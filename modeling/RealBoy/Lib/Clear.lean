/-
# `RealBoy.Lib.Clear` — words with some bits clear

`Clear mask v` says that `v` has no bit of the mask.  It is kept by whatever a
register of flags is changed with: an AND with anything, an OR with a word that
is clear as well, a choice between two such words.  A word shifted to the left is
clear below.
-/
import Mathlib.Data.BitVec

variable {w : Nat} {mask v v' : BitVec w}

/-- None of these bits is set. -/
def Clear (mask v : BitVec w) : Prop := v &&& mask = 0#w

instance (mask v : BitVec w) : Decidable (Clear mask v) := inferInstanceAs (Decidable (_ = _))

namespace Clear

theorem zero (mask : BitVec w) : Clear mask 0#w := BitVec.zero_and

theorem or_iff : Clear mask (v ||| v') ↔ Clear mask v ∧ Clear mask v' := by
  rw [Clear, BitVec.and_or_distrib_right, BitVec.or_eq_zero_iff]
  rfl

theorem and_right (h : Clear mask v) (m : BitVec w) : Clear mask (v &&& m) := by
  rw [Clear] at h ⊢
  rw [BitVec.and_assoc, BitVec.and_comm m, ← BitVec.and_assoc, h, BitVec.zero_and]

theorem and_left (h : Clear mask v) (m : BitVec w) : Clear mask (m &&& v) := by
  rw [BitVec.and_comm]
  exact h.and_right m

/-- One of two words. -/
theorem ite {c : Prop} [Decidable c] (h : Clear mask v) (h' : Clear mask v') :
    Clear mask (if c then v else v') := by
  split
  · exact h
  · exact h'

/-- A shift leaves nothing below. -/
theorem shiftLeft {n : Nat} (h : mask.toNat < 2 ^ n) (v : BitVec w) : Clear mask (v <<< n) := by
  rw [Clear]
  ext i hi
  have hhigh : n ≤ i → mask[i] = false := by
    intro hle
    have hlt : mask.toNat < 2 ^ i := Nat.lt_of_lt_of_le h (Nat.pow_le_pow_right (by decide) hle)
    rw [← BitVec.getLsbD_eq_getElem]
    exact Nat.testBit_lt_two_pow hlt
  simp only [BitVec.getElem_and, BitVec.getElem_shiftLeft, BitVec.getElem_zero]
  by_cases hle : n ≤ i
  · rw [hhigh hle, Bool.and_false]
  · rw [decide_eq_true (Nat.lt_of_not_le hle)]
    rfl

end Clear
