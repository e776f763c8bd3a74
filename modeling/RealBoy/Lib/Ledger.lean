/-
# `RealBoy.Lib.Ledger` — sums along a run

`total f` adds up what the steps of a run are worth.  A step that only moves a
balance is worth the difference, and the total is that of the two ends
(`total_sub`); a balance that agrees with its total after every initial part of
a run is one that every step moves by what it is worth (`forall_prefix_iff`);
along a run that follows a schedule the total is fixed by the positions it has
passed, not by the steps it took (`total_eq`).
-/
import Mathlib.Algebra.BigOperators.Group.Finset.Basic
import Mathlib.Algebra.BigOperators.Intervals
import Mathlib.Algebra.Ring.Periodic
import RealBoy.Lib.Runs

namespace Runs

variable {σ α M : Type} {step : σ → α → σ}

/-- The sum of `f` over the steps of a run. -/
def total [AddCommMonoid M] (step : σ → α → σ) (f : σ → α → M) : σ → List α → M
  | _, [] => 0
  | s, a :: l => f s a + total step f (step s a) l

theorem total_append [AddCommMonoid M] (f : σ → α → M) (l' l : List α) :
    ∀ s : σ, total step f s (l ++ l') = total step f s l + total step f (run step s l) l' := by
  induction l with
  | nil => exact fun _ => (zero_add _).symm
  | cons a l ih =>
      intro s
      rw [List.cons_append, total, ih, total, run_cons, add_assoc]

/-- The sum of a part of what the steps are worth. -/
theorem map_total {N : Type} [AddCommMonoid M] [AddCommMonoid N] (g : M →+ N) (f : σ → α → M)
    (l : List α) : ∀ s : σ, g (total step f s l) = total step (fun s a => g (f s a)) s l := by
  induction l with
  | nil => exact fun _ => map_zero g
  | cons a l ih =>
      intro s
      rw [total, map_add, ih, total]

/-- A sum that the actions alone decide. -/
theorem total_const [AddCommMonoid M] (f : α → M) (l : List α) :
    ∀ s : σ, total step (fun _ a => f a) s l = (l.map f).sum := by
  induction l with
  | nil => exact fun _ => rfl
  | cons a l ih =>
      intro s
      rw [total, ih, List.map_cons, List.sum_cons]

theorem total_add [AddCommMonoid M] (f g : σ → α → M) (l : List α) :
    ∀ s : σ, total step (fun s a => f s a + g s a) s l = total step f s l + total step g s l := by
  induction l with
  | nil => exact fun _ => (add_zero 0).symm
  | cons a l ih =>
      intro s
      rw [total, ih, total, total, add_add_add_comm]

/-- What moves a balance is worth the difference of the ends. -/
theorem total_sub [AddCommGroup M] (q : σ → M) (l : List α) :
    ∀ s : σ, total step (fun s a => q (step s a) - q s) s l = q (run step s l) - q s := by
  induction l with
  | nil => exact fun s => (sub_self (q s)).symm
  | cons a l ih =>
      intro s
      rw [total, ih, run_cons, sub_add_sub_cancel']

/-- **Right throughout is right at every step.** -/
theorem forall_prefix_iff [AddCommGroup M] (q : σ → M) (f : σ → α → M) (l : List α) :
    ∀ s : σ, (∀ past, past <+: l → q (run step s past) = q s + total step f s past) ↔
      Steps step (fun s a => q (step s a) = q s + f s a) s l := by
  induction l with
  | nil =>
      intro s
      simp [Steps, total]
  | cons a l ih =>
      intro s
      constructor
      · intro hall
        have hfirst : q (step s a) = q s + f s a := by
          simpa [total] using hall [a] (List.prefix_append [a] l)
        refine ⟨hfirst, (ih _).mp fun past hp => ?_⟩
        have hp := hall (a :: past) (List.prefix_cons_inj a |>.mpr hp)
        rw [run_cons, total, ← add_assoc, ← hfirst] at hp
        exact hp
      · rintro ⟨hfirst, hrest⟩ past hp
        cases past with
        | nil => exact (add_zero (q s)).symm
        | cons b past =>
            obtain ⟨rfl, hpast⟩ := List.cons_prefix_cons.mp hp
            rw [run_cons, total, ← add_assoc, ← hfirst]
            exact (ih _).mpr hrest past hpast

/-- A balance kept modulo `m`. -/
theorem total_modEq {q : σ → Nat} {f : σ → α → Nat} {C : σ → α → Prop} {m : Nat}
    (hstep : ∀ s a, C s a → q (step s a) ≡ q s + f s a [MOD m]) :
    ∀ {l : List α} {s : σ}, Steps step C s l → q (run step s l) ≡ q s + total step f s l [MOD m] := by
  intro l
  induction l with
  | nil => exact fun _ => Nat.ModEq.refl _
  | cons a l ih =>
      rintro s ⟨hc, hl⟩
      have hrest := (ih hl).trans ((hstep s a hc).add_right _)
      rw [Nat.add_assoc] at hrest
      exact hrest

variable [AddCommMonoid M] {I : Nat → σ → Prop} {A : σ → α → Prop} {f : σ → α → M}
  {price : Nat → M}

/-- **Accounting by positions.**  A step that stays at its position is worth
nothing, one that leaves position `n` is worth `price n`. -/
theorem total_eq (hstep : ∀ n s a, I n s → A s a →
      (I n (step s a) ∧ f s a = 0) ∨ (I (n + 1) (step s a) ∧ f s a = price n)) :
    ∀ {l : List α} {n : Nat} {s : σ}, I n s → Steps step A s l →
      ∃ k, I (n + k) (run step s l) ∧
        total step f s l = ∑ i ∈ Finset.range k, price (n + i) := by
  intro l
  induction l with
  | nil =>
      intro n s h _
      exact ⟨0, h, rfl⟩
  | cons a l ih =>
      rintro n s h ⟨ha, hl⟩
      rcases hstep n s a h ha with ⟨h', hf⟩ | ⟨h', hf⟩
      · obtain ⟨k, hk, ht⟩ := ih h' hl
        refine ⟨k, hk, ?_⟩
        rw [total, hf, zero_add, ht]
      · obtain ⟨k, hk, ht⟩ := ih h' hl
        refine ⟨k + 1, by rwa [Nat.add_right_comm] at hk, ?_⟩
        rw [total, hf, ht, Finset.sum_range_succ', Nat.add_zero, add_comm]
        congr 1
        refine Finset.sum_congr rfl fun i _ => ?_
        rw [Nat.add_right_comm, Nat.add_assoc]

/-- A sum over whole periods. -/
theorem sum_periods {p : Nat} (hp : Function.Periodic price p) (n k : Nat) :
    ∑ i ∈ Finset.range (k * p), price (n + i) = k • ∑ i ∈ Finset.range p, price (n + i) := by
  induction k with
  | zero => simp
  | succ k ih =>
      have hshift (i : Nat) : price (n + (k * p + i)) = price (n + i) := by
        rw [Nat.add_comm (k * p), ← Nat.add_assoc]
        exact hp.nat_mul k _
      rw [Nat.succ_mul, Finset.sum_range_add, ih, succ_nsmul]
      congr 1
      exact Finset.sum_congr rfl fun i _ => hshift i

end Runs
