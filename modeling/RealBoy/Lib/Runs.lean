/-
# `RealBoy.Lib.Runs` — runs of a state machine

A machine is a total step function; a run is its fold over a list of actions.
`Steps C` says that every step of a run
satisfies `C`, a condition on the state before the step and the action.

The rules: what every step that satisfies `C` preserves holds along a run of
such steps (`inv_run`, `inv_states`); and where a step that violates `C` is
seen in the state after it, a property of all states is a property of all
steps (`forall_states_iff`).
-/
import Mathlib.Tactic.Common

namespace Runs

variable {σ α : Type} (step : σ → α → σ)

/-- The state after some actions. -/
def run (s : σ) (l : List α) : σ := l.foldl step s

/-- The states of a run, the first and the last included. -/
def states : σ → List α → List σ
  | s, [] => [s]
  | s, a :: l => s :: states (step s a) l

/-- Every step of the run satisfies `C`. -/
def Steps (C : σ → α → Prop) : σ → List α → Prop
  | _, [] => True
  | s, a :: l => C s a ∧ Steps C (step s a) l

def decidableSteps (C : σ → α → Prop) [∀ s a, Decidable (C s a)] :
    (s : σ) → (l : List α) → Decidable (Steps step C s l)
  | _, [] => inferInstanceAs (Decidable True)
  | s, a :: l =>
    haveI := decidableSteps C (step s a) l
    inferInstanceAs (Decidable (_ ∧ _))

instance (C : σ → α → Prop) [∀ s a, Decidable (C s a)] (s : σ) (l : List α) :
    Decidable (Steps step C s l) := decidableSteps step C s l

variable {step}

@[simp] theorem run_nil (s : σ) : run step s [] = s := rfl
@[simp] theorem run_cons (s : σ) (a : α) (l : List α) :
    run step s (a :: l) = run step (step s a) l := rfl

theorem run_append (s : σ) (l l' : List α) :
    run step s (l ++ l') = run step (run step s l) l' := List.foldl_append

@[simp] theorem states_nil (s : σ) : states step s [] = [s] := rfl
@[simp] theorem states_cons (s : σ) (a : α) (l : List α) :
    states step s (a :: l) = s :: states step (step s a) l := rfl

theorem self_mem_states (s : σ) (l : List α) : s ∈ states step s l := by
  cases l <;> simp

theorem run_mem_states : ∀ (s : σ) (l : List α), run step s l ∈ states step s l
  | _, [] => List.mem_singleton_self _
  | s, _ :: l => List.mem_cons_of_mem s (run_mem_states _ l)

theorem states_concat (s : σ) (l : List α) (a : α) :
    states step s (l ++ [a]) = states step s l ++ [run step s (l ++ [a])] := by
  induction l generalizing s with
  | nil => rfl
  | cons b l ih => exact congrArg (s :: ·) (ih (step s b))

theorem steps_append {C : σ → α → Prop} :
    ∀ {s : σ} {l l' : List α}, Steps step C s (l ++ l') ↔
      Steps step C s l ∧ Steps step C (run step s l) l'
  | _, [], _ => by simp [Steps]
  | s, a :: l, l' => by
      show C s a ∧ Steps step C (step s a) (l ++ l') ↔
        (C s a ∧ Steps step C (step s a) l) ∧ Steps step C (run step (step s a) l) l'
      rw [steps_append (l := l), and_assoc]

theorem steps_and {C D : σ → α → Prop} :
    ∀ {s : σ} {l : List α}, Steps step (fun s a => C s a ∧ D s a) s l ↔
      Steps step C s l ∧ Steps step D s l
  | _, [] => (and_self_iff (a := True)).symm
  | s, a :: l => by
      show (C s a ∧ D s a) ∧ Steps step (fun s a => C s a ∧ D s a) (step s a) l ↔
        (C s a ∧ Steps step C (step s a) l) ∧ D s a ∧ Steps step D (step s a) l
      rw [steps_and, and_and_and_comm]

/-- A condition on the actions alone. -/
theorem steps_of_forall {C : σ → α → Prop} :
    ∀ {s : σ} {l : List α}, (∀ a ∈ l, ∀ s, C s a) → Steps step C s l
  | _, [], _ => trivial
  | s, a :: _, h =>
      ⟨h a (List.mem_cons_self ..) s, steps_of_forall fun b hb => h b (List.mem_cons_of_mem _ hb)⟩

/-- What the steps preserve holds at the end of a run. -/
theorem inv_run {I : σ → Prop} {C : σ → α → Prop}
    (hstep : ∀ s a, I s → C s a → I (step s a)) :
    ∀ {s : σ} {l : List α}, I s → Steps step C s l → I (run step s l)
  | _, [], h, _ => h
  | s, a :: l, h, ⟨hc, hl⟩ => by
      rw [run_cons]
      exact inv_run hstep (hstep s a h hc) hl

/-- What the steps preserve holds in every state of a run. -/
theorem inv_states {I : σ → Prop} {C : σ → α → Prop}
    (hstep : ∀ s a, I s → C s a → I (step s a)) :
    ∀ {s : σ} {l : List α}, I s → Steps step C s l → ∀ s' ∈ states step s l, I s'
  | s, [], h, _, s', hs' => by
      rw [states_nil, List.mem_singleton] at hs'
      exact hs' ▸ h
  | s, a :: l, h, ⟨hc, hl⟩, s', hs' => by
      rw [states_cons] at hs'
      rcases List.mem_cons.mp hs' with rfl | hs'
      · exact h
      · exact inv_states hstep (hstep s a h hc) hl s' hs'

/-- What the invariant gives for one step holds for every step. -/
theorem steps_of_inv {I : σ → Prop} {A C : σ → α → Prop}
    (hstep : ∀ s a, I s → A s a → I (step s a)) (hC : ∀ s a, I s → A s a → C s a) :
    ∀ {s : σ} {l : List α}, I s → Steps step A s l → Steps step C s l
  | _, [], _, _ => trivial
  | s, a :: _, h, ⟨ha, hl⟩ => ⟨hC s a h ha, steps_of_inv hstep hC (hstep s a h ha) hl⟩

/-- **Safety is a property of the steps**, where `C` is all that `P` needs: the
invariant `I` carries `P` through the steps that satisfy `C`, and `P` fails
after the first that does not. -/
theorem forall_states_iff {I P : σ → Prop} {A C : σ → α → Prop}
    (hP : ∀ s, I s → P s)
    (hstep : ∀ s a, I s → A s a → C s a → I (step s a))
    (hfail : ∀ s a, I s → A s a → ¬ C s a → ¬ P (step s a)) :
    ∀ {s : σ} {l : List α}, I s → Steps step A s l →
      ((∀ s' ∈ states step s l, P s') ↔ Steps step C s l)
  | s, [], h, _ => by
      rw [states_nil]
      simpa [Steps] using hP s h
  | s, a :: l, h, ⟨ha, hl⟩ => by
      constructor
      · intro hall
        have hc : C s a := by
          by_contra hc
          refine hfail s a h ha hc (hall _ ?_)
          exact List.mem_cons_of_mem s (self_mem_states _ l)
        refine ⟨hc, (forall_states_iff hP hstep hfail (hstep s a h ha hc) hl).mp ?_⟩
        exact fun s' hs' => hall s' (List.mem_cons_of_mem _ hs')
      · rintro ⟨hc, hcl⟩ s' hs'
        rw [states_cons] at hs'
        rcases List.mem_cons.mp hs' with rfl | hs'
        · exact hP _ h
        · exact (forall_states_iff hP hstep hfail (hstep s a h ha hc) hl).mpr hcl s' hs'

/-- **Simulation**: where every step is a step of another machine, so is the run. -/
theorem run_map {τ : Type} {next : τ → α → τ} {abs : σ → τ} {I : σ → Prop} {C : σ → α → Prop}
    (hinv : ∀ s a, I s → I (step s a))
    (hstep : ∀ s a, I s → C s a → abs (step s a) = next (abs s) a) :
    ∀ {s : σ} {l : List α}, I s → Steps step C s l → abs (run step s l) = run next (abs s) l
  | _, [], _, _ => rfl
  | s, a :: l, h, ⟨hc, hl⟩ => by
      rw [run_cons, run_cons, run_map hinv hstep (hinv s a h) hl, hstep s a h hc]

/-- **Progress**: as long as `Q` has not been met, every beat lowers the rank and no
other action raises it; so a run with more beats than that meets `Q`. -/
theorem exists_mem_states {I Q : σ → Prop} (beat : α → Bool) (rank : σ → Nat)
    (hstep : ∀ s a, I s → ¬ Q s → Q (step s a) ∨
      (I (step s a) ∧ rank (step s a) + (if beat a = true then 1 else 0) ≤ rank s)) :
    ∀ {l : List α} {s : σ}, I s → rank s < l.countP beat → ∃ s' ∈ states step s l, Q s'
  | [], _, _, hn => absurd hn (Nat.not_lt_zero _)
  | a :: l, s, h, hn => by
      by_cases hQ : Q s
      · exact ⟨s, self_mem_states _ _, hQ⟩
      · rcases hstep s a h hQ with hnext | ⟨hI, hrank⟩
        · exact ⟨_, List.mem_cons_of_mem s (self_mem_states _ _), hnext⟩
        · rw [List.countP_cons] at hn
          obtain ⟨s', hs', hQ'⟩ := exists_mem_states beat rank hstep (l := l) hI (by omega)
          exact ⟨s', List.mem_cons_of_mem s hs', hQ'⟩

end Runs
