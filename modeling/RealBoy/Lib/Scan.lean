/-
# `RealBoy.Lib.Scan` — a loop over a list that acts on some of its entries

A scan runs a step over a list while the step itself changes what the later
entries will see.  `calls` are the entries at which a condition held when
they came up.  If a step is the identity where the condition fails, and taking
one makes it fail for good, the whole loop is one step, at the first entry where
the condition holds in the state the loop began with (`foldl_first`).
-/
import Mathlib.Tactic.Common

namespace Scan

variable {σ α : Type} (step : σ → α → σ) (cond : σ → α → Bool)

/-- The entries whose condition holds when the scan reaches them. -/
def calls : σ → List α → List α
  | _, [] => []
  | s, a :: l => if cond s a then a :: calls (step s a) l else calls (step s a) l

variable {step cond}

/-- What the steps preserve holds at every call. -/
theorem calls_inv {I : σ → Prop} (hstep : ∀ s a, I s → I (step s a)) {l : List α} {a : α} :
    ∀ {s : σ}, I s → a ∈ calls step cond s l → a ∈ l ∧ ∃ s', I s' ∧ cond s' a = true := by
  induction l with
  | nil => exact fun _ ha => absurd ha List.not_mem_nil
  | cons b l ih =>
      intro s hs ha
      have later (ha : a ∈ calls step cond (step s b) l) :
          a ∈ b :: l ∧ ∃ s', I s' ∧ cond s' a = true :=
        (ih (hstep s b hs) ha).imp_left (List.mem_cons_of_mem b)
      rw [calls] at ha
      split at ha
      case isTrue hc =>
        rcases List.mem_cons.mp ha with rfl | ha
        · exact ⟨List.mem_cons_self, s, hs, hc⟩
        · exact later ha
      case isFalse => exact later ha

/-- Without a call, what the other entries preserve is preserved. -/
theorem foldl_of_calls_nil {I : σ → Prop} (hstep : ∀ s a, cond s a = false → I s → I (step s a))
    {l : List α} : ∀ {s : σ}, I s → calls step cond s l = [] → I (l.foldl step s) := by
  induction l with
  | nil => exact fun hs _ => hs
  | cons a l ih =>
      intro s hs h
      rw [calls] at h
      split at h
      case isTrue => exact absurd h (List.cons_ne_nil _ _)
      case isFalse hc => exact ih (hstep s a (Bool.eq_false_iff.mpr hc) hs) h

variable (hmiss : ∀ s a, cond s a = false → step s a = s)

include hmiss

/-- Nothing to do. -/
theorem foldl_none {s : σ} {l : List α} (h : ∀ a ∈ l, cond s a = false) : l.foldl step s = s := by
  induction l with
  | nil => rfl
  | cons a l ih =>
      rw [List.foldl_cons, hmiss s a (h a List.mem_cons_self)]
      exact ih fun b hb => h b (List.mem_cons_of_mem a hb)

/-- **One step at most.** -/
theorem foldl_first {s : σ} (hquiet : ∀ a, cond s a = true → ∀ b, cond (step s a) b = false)
    (l : List α) : l.foldl step s = (l.find? (cond s)).elim s (step s) := by
  induction l with
  | nil => rfl
  | cons a l ih =>
      rw [List.foldl_cons, List.find?_cons]
      cases ha : cond s a with
      | true => exact foldl_none hmiss fun b _ => hquiet a ha b
      | false =>
          rw [hmiss s a ha]
          exact ih

/-- The calls of a narrower condition: the first entry's, if any. -/
theorem calls_first {call : σ → α → Bool} (hcall : ∀ s a, cond s a = false → call s a = false)
    {s : σ} (hquiet : ∀ a, cond s a = true → ∀ b, cond (step s a) b = false) (l : List α) :
    calls step call s l = (l.find? (cond s)).toList.filter (call s) := by
  have quiet : ∀ (l : List α) (s : σ), (∀ b, cond s b = false) → calls step call s l = [] := by
    intro l
    induction l with
    | nil => exact fun _ _ => rfl
    | cons b l ih =>
        intro s hs
        rw [calls, hcall s b (hs b), hmiss s b (hs b)]
        exact ih s hs
  induction l with
  | nil => rfl
  | cons a l ih =>
      rw [calls, List.find?_cons]
      cases ha : cond s a with
      | true =>
          rw [quiet l _ (hquiet a ha)]
          cases hc : call s a with
          | true => simp [hc]
          | false => simp [hc]
      | false =>
          rw [hcall s a ha, hmiss s a ha]
          exact ih

end Scan
