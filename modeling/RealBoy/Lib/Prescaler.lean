/-
# `RealBoy.Lib.Prescaler` — a counter that divides a clock

`count k` is what the counter holds before the `k`-th increment `inc k`; it
wraps at `d`.  Over a run the quotients of the increments add up to one
division of everything counted (`sum_quotient`).  A device that ticks once
whenever an increment completes a period, however many it completes, gets that
number right exactly when no increment completes two (`overflows_eq_iff`).

A device that sees the period complete only by the counter having come out
smaller counts right as long as the increments are shorter than a period
(`pair_modEq`).
-/
import Mathlib.Algebra.Order.BigOperators.Group.Finset
import Mathlib.Data.Nat.ModEq
import Mathlib.Tactic.Common

namespace Prescaler

open Finset

variable {d n : Nat} {count inc : Nat → Nat}

/-- The counter wraps at `d`, `n` increments long. -/
structure Wraps (d : Nat) (count inc : Nat → Nat) (n : Nat) : Prop where
  start : count 0 < d
  step : ∀ k < n, count (k + 1) = (count k + inc k) % d

/-- The increments that complete a period, one or more. -/
def overflows (d : Nat) (count inc : Nat → Nat) (n : Nat) : Nat :=
  ∑ k ∈ range n, if (count k + inc k) / d ≠ 0 then 1 else 0

theorem Wraps.pred (h : Wraps d count inc (n + 1)) : Wraps d count inc n :=
  ⟨h.start, fun k hk => h.step k (by omega)⟩

/-- The counter holds the remainder of everything counted. -/
theorem Wraps.count_eq (h : Wraps d count inc n) :
    count n = (count 0 + ∑ k ∈ range n, inc k) % d := by
  induction n with
  | zero => rw [sum_range_zero, Nat.add_zero, Nat.mod_eq_of_lt h.start]
  | succ n ih =>
      rw [h.step n (Nat.lt_succ_self n), ih h.pred, Nat.mod_add_mod, sum_range_succ, Nat.add_assoc]

/-- The quotients of the increments add up to one division. -/
theorem Wraps.sum_quotient (h : Wraps d count inc n) :
    ∑ k ∈ range n, (count k + inc k) / d = (count 0 + ∑ k ∈ range n, inc k) / d := by
  induction n with
  | zero => rw [sum_range_zero, sum_range_zero, Nat.add_zero, Nat.div_eq_of_lt h.start]
  | succ n ih =>
      have hd : 0 < d := Nat.lt_of_le_of_lt (Nat.zero_le _) h.start
      rw [sum_range_succ, sum_range_succ, ih h.pred, h.pred.count_eq, ← Nat.add_assoc]
      generalize count 0 + ∑ k ∈ range n, inc k = total
      have hsplit : total + inc n = total % d + inc n + d * (total / d) := by
        have := Nat.mod_add_div total d
        omega
      rw [hsplit, Nat.add_mul_div_left _ _ hd, Nat.add_comm]

theorem tick_le (q : Nat) : (if q ≠ 0 then 1 else 0) ≤ q := by
  split <;> omega

theorem tick_eq_iff {q : Nat} : (if q ≠ 0 then 1 else 0) = q ↔ q ≤ 1 := by
  split <;> omega

/-- **One tick an increment** is the right number when no increment completes
two periods. -/
theorem Wraps.overflows_eq_iff (h : Wraps d count inc n) :
    overflows d count inc n = (count 0 + ∑ k ∈ range n, inc k) / d ↔
      ∀ k < n, (count k + inc k) / d ≤ 1 := by
  rw [overflows, ← h.sum_quotient, sum_eq_sum_iff_of_le fun k _ => tick_le _]
  constructor
  · intro he k hk
    exact tick_eq_iff.mp (he k (mem_range.mpr hk))
  · intro hone k hk
    exact tick_eq_iff.mpr (hone k (mem_range.mp hk))

/-! ## The carry seen as a wrap -/

theorem wrapped_iff {lo k : Nat} (hlo : lo < d) (hk : k < d) : (lo + k) % d < lo ↔ d ≤ lo + k := by
  rcases Nat.lt_or_ge (lo + k) d with h | h
  · rw [Nat.mod_eq_of_lt h]
    omega
  · rw [Nat.mod_eq_sub_mod h, Nat.mod_eq_of_lt (by omega)]
    omega

/-- The counter and what it feeds, which wraps at `m`, together count the
increment. -/
theorem pair_modEq {m hi lo k : Nat} (hlo : lo < d) (hk : k < d) :
    d * ((hi + if (lo + k) % d < lo then 1 else 0) % m) + (lo + k) % d ≡
      d * hi + lo + k [MOD d * m] := by
  have hcarry : d * (hi + if (lo + k) % d < lo then 1 else 0) + (lo + k) % d = d * hi + lo + k := by
    rw [if_congr (wrapped_iff hlo hk) rfl rfl]
    split
    case isTrue h =>
      rw [Nat.mod_eq_sub_mod h, Nat.mod_eq_of_lt (by omega), Nat.mul_add, Nat.mul_one]
      omega
    case isFalse h => rw [Nat.mod_eq_of_lt (by omega), Nat.add_zero, Nat.add_assoc]
  rw [← hcarry]
  exact (Nat.ModEq.mul_left' d (Nat.mod_modEq _ m)).add_right _

end Prescaler
