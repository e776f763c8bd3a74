/-
# `RealBoy.Lib.Traces` — runs of a machine that can be stuck

A machine is a partial step function: `step s a` is the state after the action
`a`, or `none` where `a` is not enabled.  `exec` runs a list of actions, and
`Steps C` says that every step of a run satisfies `C`, a condition on the state
before the step and the action.

The rules: what every step that satisfies `C` preserves holds at the end of a
run of such steps (`inv_exec`); a quantity that the steps decrease until the
run is done bounds the run (`length_exec`), and one that an action decreases brings
the machine there (`exec_replicate`).
-/
import Mathlib.Tactic.Common

namespace Traces

variable {σ α : Type} (step : σ → α → Option σ)

/-- The state after some actions, if they are enabled one after the other. -/
def exec : σ → List α → Option σ
  | s, [] => some s
  | s, a :: l => (step s a).bind fun s' => exec s' l

/-- Every step of the run satisfies `C`. -/
def Steps (C : σ → α → Prop) : σ → List α → Prop
  | _, [] => True
  | s, a :: l => C s a ∧ match step s a with
    | none => True
    | some s' => Steps C s' l

/-- Whether the steps of a run satisfy `C` can be run. -/
def decidableSteps (C : σ → α → Prop) [∀ s a, Decidable (C s a)] :
    ∀ (s : σ) (l : List α), Decidable (Steps step C s l)
  | _, [] => .isTrue trivial
  | s, a :: l =>
      match h : step s a with
      | none => decidable_of_iff (C s a) (by rw [Steps, h, and_true])
      | some s' =>
          have := decidableSteps C s' l
          decidable_of_iff (C s a ∧ Steps step C s' l) (by rw [Steps, h])

instance (C : σ → α → Prop) [∀ s a, Decidable (C s a)] (s : σ) (l : List α) :
    Decidable (Steps step C s l) := decidableSteps step C s l

variable {step}

theorem exec_cons {s s' : σ} {a : α} {l : List α} :
    exec step s (a :: l) = some s' ↔ ∃ m, step s a = some m ∧ exec step m l = some s' :=
  Option.bind_eq_some_iff

/-- A run that ends in a state with `P`, found by running it. -/
theorem exec_of_any {P : σ → Prop} [DecidablePred P] {s : σ} {l : List α}
    (h : (exec step s l).any (fun s' => decide (P s')) = true) :
    ∃ s', exec step s l = some s' ∧ P s' := by
  obtain ⟨s', hs', hP⟩ := (Option.any_eq_true _ _).mp h
  exact ⟨s', hs', of_decide_eq_true hP⟩

theorem steps_cons {C : σ → α → Prop} {s m : σ} {a : α} {l : List α} (h : step s a = some m) :
    Steps step C s (a :: l) ↔ C s a ∧ Steps step C m l := by
  rw [Steps, h]

theorem steps_of_forall {C : σ → α → Prop} {l : List α} (h : ∀ a ∈ l, ∀ s, C s a) {s : σ} :
    Steps step C s l := by
  induction l generalizing s with
  | nil => trivial
  | cons a l ih =>
      refine ⟨h a (List.mem_cons_self ..) s, ?_⟩
      cases hs : step s a with
      | none => trivial
      | some m => exact ih fun b hb => h b (List.mem_cons_of_mem _ hb)

/-- What the steps preserve holds at the end of a run. -/
theorem inv_exec {I : σ → Prop} {C : σ → α → Prop}
    (hstep : ∀ s a s', I s → C s a → step s a = some s' → I s') {s s' : σ} {l : List α} (h : I s)
    (hrun : exec step s l = some s') (hC : Steps step C s l) : I s' := by
  induction l generalizing s with
  | nil =>
      rw [exec] at hrun
      exact Option.some.inj hrun ▸ h
  | cons a l ih =>
      obtain ⟨m, hm, hrest⟩ := exec_cons.mp hrun
      obtain ⟨hc, hl⟩ := (steps_cons hm).mp hC
      exact ih (hstep s a m h hc hm) hrest hl

/-- What every step preserves holds at the end of every run. -/
theorem inv_exec_all {I : σ → Prop} (hstep : ∀ s a s', I s → step s a = some s' → I s') {s s' : σ}
    {l : List α} (h : I s) (hrun : exec step s l = some s') : I s' := by
  induction l generalizing s with
  | nil =>
      rw [exec] at hrun
      exact Option.some.inj hrun ▸ h
  | cons a l ih =>
      obtain ⟨m, hm, hrest⟩ := exec_cons.mp hrun
      exact ih (hstep s a m h hm) hrest

/-- A run that is not done has taken no more steps than a quantity allows that its
steps decrease, but for those that are counted. -/
theorem length_exec_counted {I D : σ → Prop} {C : σ → α → Prop} {μ κ : σ → Nat}
    (hdone : ∀ s a s', D s → C s a → step s a = some s' → D s')
    (hstep : ∀ s a s', I s → C s a → step s a = some s' →
      D s' ∨ (I s' ∧ μ s' + κ s < μ s + κ s')) {s s' : σ}
    {l : List α} (h : I s) (hrun : exec step s l = some s') (hC : Steps step C s l) :
    D s' ∨ l.length + μ s' + κ s ≤ μ s + κ s' := by
  induction l generalizing s with
  | nil =>
      rw [exec] at hrun
      rw [Option.some.inj hrun, List.length_nil, Nat.zero_add]
      exact .inr (Nat.le_refl _)
  | cons a l ih =>
      obtain ⟨m, hm, hrest⟩ := exec_cons.mp hrun
      obtain ⟨hc, hl⟩ := (steps_cons hm).mp hC
      rcases hstep s a m h hc hm with hd | ⟨hi, hlt⟩
      · exact .inl (inv_exec hdone hd hrest hl)
      · refine (ih hi hrest hl).imp_right fun hle => ?_
        rw [List.length_cons]
        omega

/-- A run is done, for good, after no more steps than a quantity that its steps
decrease. -/
theorem length_exec {I D : σ → Prop} {C : σ → α → Prop} {μ : σ → Nat}
    (hdone : ∀ s a s', D s → C s a → step s a = some s' → D s')
    (hstep : ∀ s a s', I s → C s a → step s a = some s' → D s' ∨ (I s' ∧ μ s' < μ s)) {s s' : σ}
    {l : List α} (h : I s) (hrun : exec step s l = some s') (hC : Steps step C s l) :
    D s' ∨ l.length + μ s' ≤ μ s :=
  length_exec_counted (κ := fun _ => 0) hdone hstep h hrun hC

/-- A machine that is given the same action again and again gets to `Q`, if on the way
there the action is enabled and lowers a rank. -/
theorem exec_replicate {I Q : σ → Prop} {a : α} (rank : σ → Nat)
    (hstep : ∀ s, I s → ∃ s', step s a = some s' ∧ (Q s' ∨ (I s' ∧ rank s' < rank s))) {s : σ}
    (h : I s) : ∃ n ≤ rank s + 1, ∃ s', exec step s (List.replicate n a) = some s' ∧ Q s' := by
  induction hn : rank s using Nat.strongRecOn generalizing s with
  | ind k ih =>
      subst hn
      obtain ⟨m, hm, hQ | ⟨hI, hlt⟩⟩ := hstep s h
      · exact ⟨1, by omega, m, exec_cons.mpr ⟨m, hm, rfl⟩, hQ⟩
      · obtain ⟨n, hn, s', hrun, hQ⟩ := ih _ hlt hI rfl
        exact ⟨n + 1, by omega, s', exec_cons.mpr ⟨m, hm, hrun⟩, hQ⟩

end Traces
