/-
# `RealBoy.Lib.Stutter` — runs that follow a schedule

A schedule is a sequence of observations, no two in a row equal.  A machine
follows it when every step leaves its position in the schedule or moves it by
one.  What is seen of such a run, repetitions dropped, is an initial segment of
the schedule, and tells the position it has reached (`visited_eq`).
-/
import Mathlib.Data.List.Destutter
import Mathlib.Data.List.Range
import RealBoy.Lib.Runs

namespace Runs

variable {σ α β : Type} [DecidableEq β] {step : σ → α → σ}

/-- The observations of a run, repetitions dropped. -/
def visited (step : σ → α → σ) (obs : σ → β) (s : σ) (l : List α) : List β :=
  ((states step s l).map obs).destutter (· ≠ ·)

theorem visited_nil (obs : σ → β) (s : σ) : visited step obs s [] = [obs s] := rfl

theorem visited_cons (obs : σ → β) (s : σ) (a : α) (l : List α) :
    visited step obs s (a :: l) =
      if obs s = obs (step s a) then visited step obs (step s a) l
      else obs s :: visited step obs (step s a) l := by
  obtain ⟨rest, hrest⟩ : ∃ rest, states step (step s a) l = step s a :: rest := by
    cases l with
    | nil => exact ⟨[], rfl⟩
    | cons b l => exact ⟨_, rfl⟩
  simp only [visited, states_cons, hrest, List.map_cons, List.destutter_cons_cons]
  by_cases h : obs s = obs (step s a)
  · rw [if_neg (not_not.mpr h), if_pos h, List.destutter_cons', h]
  · rw [if_pos h, if_neg h, List.destutter_cons']

variable {I : Nat → σ → Prop} {A : σ → α → Prop} {obs : σ → β} {sched : Nat → β}

/-- **Following a schedule.**  `I n` is the invariant of position `n`. -/
theorem visited_eq (hne : ∀ n, sched n ≠ sched (n + 1)) (hobs : ∀ n s, I n s → obs s = sched n)
    (hstep : ∀ n s a, I n s → A s a → I n (step s a) ∨ I (n + 1) (step s a)) :
    ∀ {l : List α} {n : Nat} {s : σ}, I n s → Steps step A s l →
      ∃ k, I (n + k) (run step s l) ∧
        visited step obs s l = (List.range' n (k + 1)).map sched := by
  intro l
  induction l with
  | nil =>
      intro n s h _
      refine ⟨0, h, ?_⟩
      rw [visited_nil, hobs n s h]
      rfl
  | cons a l ih =>
      rintro n s h ⟨ha, hl⟩
      rcases hstep n s a h ha with h' | h'
      · obtain ⟨k, hk, hv⟩ := ih h' hl
        refine ⟨k, hk, ?_⟩
        rw [visited_cons, if_pos ((hobs n s h).trans (hobs n _ h').symm), hv]
      · obtain ⟨k, hk, hv⟩ := ih h' hl
        refine ⟨k + 1, by rwa [Nat.add_right_comm] at hk, ?_⟩
        have hmove : obs s ≠ obs (step s a) := by
          rw [hobs n s h, hobs (n + 1) _ h']
          exact hne n
        rw [visited_cons, if_neg hmove, hv, hobs n s h]
        rfl

end Runs
