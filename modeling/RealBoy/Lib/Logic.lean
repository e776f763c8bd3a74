/-
# `RealBoy.Lib.Logic` — where a program leads

A program is run by a machine, one step after another.  `Leads f Ok Q s` says
that the machine gets from `s` to a state of `Q`, and that every step on the way
is made from a permitted state.  It is total correctness: the way is finite, and
its length is a number (`leads_iff`).

The rules are those of a program logic: consequence (`mono`), composition
(`seq`), the loop, whose variant is the passes that are left (`loop`), and the variant
by itself (`of_rank`).  What
a program leads to is then true of any machine that follows the first one
wherever it is permitted to go (`Leads.follow`); that machine may do more
than one thing, and all of them are covered.
-/
import Mathlib.Logic.Function.Iterate
import Mathlib.Tactic.Common

namespace Logic

/-- The machine `f` gets to `Q`, through permitted states. -/
inductive Leads {σ : Type} (f : σ → σ) (Ok Q : σ → Prop) : σ → Prop where
  | here {s : σ} : Q s → Leads f Ok Q s
  | step {s : σ} : Ok s → Leads f Ok Q (f s) → Leads f Ok Q s

/-- `n` steps of a machine that may do several things. -/
inductive Turns {τ : Type} (next : τ → τ → Prop) : Nat → τ → τ → Prop where
  | none {t : τ} : Turns next 0 t t
  | turn {n : Nat} {t u v : τ} : next t u → Turns next n u v → Turns next (n + 1) t v

section

variable {σ : Type} {f : σ → σ} {Ok P Q : σ → Prop} {s : σ}

/-- **Consequence.** -/
theorem Leads.mono (h : Leads f Ok P s) (hPQ : ∀ s, P s → Q s) : Leads f Ok Q s := by
  induction h with
  | here hP => exact .here (hPQ _ hP)
  | step hok _ ih => exact .step hok ih

/-- **Composition.** -/
theorem Leads.seq (h : Leads f Ok P s) (hPQ : ∀ s, P s → Leads f Ok Q s) : Leads f Ok Q s := by
  induction h with
  | here hP => exact hPQ _ hP
  | step hok _ ih => exact .step hok ih

/-- **The loop**: every pass keeps the invariant and leaves one pass less. -/
theorem Leads.loop {I : Nat → σ → Prop} (hdone : ∀ s, I 0 s → Leads f Ok Q s)
    (hpass : ∀ n s, I (n + 1) s → Leads f Ok (I n) s) {n : Nat} (h : I n s) : Leads f Ok Q s := by
  induction n generalizing s with
  | zero => exact hdone s h
  | succ n ih => exact (hpass n s h).seq fun s hs => ih hs

/-- **The variant**: every step short of `Q` keeps the invariant and lowers the rank. -/
theorem Leads.of_rank {I : σ → Prop} (rank : σ → Nat)
    (hstep : ∀ s, I s → ¬ Q s → Ok s ∧ I (f s) ∧ rank (f s) < rank s) {s : σ} (h : I s) :
    Leads f Ok (fun s => I s ∧ Q s) s := by
  induction hn : rank s using Nat.strongRecOn generalizing s with
  | ind n ih =>
      subst hn
      by_cases hQ : Q s
      · exact .here ⟨h, hQ⟩
      · obtain ⟨hok, hI, hlt⟩ := hstep s h hQ
        exact .step hok (ih _ hlt hI rfl)

/-- The way is a number of steps. -/
theorem leads_iff : Leads f Ok Q s ↔ ∃ n, (∀ k < n, Ok (f^[k] s)) ∧ Q (f^[n] s) := by
  constructor
  · intro h
    induction h with
    | here hQ => exact ⟨0, fun k hk => absurd hk (Nat.not_lt_zero k), hQ⟩
    | step hok _ ih =>
        obtain ⟨n, hn, hQ⟩ := ih
        refine ⟨n + 1, fun k hk => ?_, hQ⟩
        cases k with
        | zero => exact hok
        | succ k => exact hn k (Nat.lt_of_succ_lt_succ hk)
  · rintro ⟨n, hn, hQ⟩
    induction n generalizing s with
    | zero => exact .here hQ
    | succ n ih =>
        refine .step (hn 0 (Nat.succ_pos n)) (ih (fun k hk => ?_) hQ)
        exact hn (k + 1) (Nat.succ_lt_succ hk)

end

section

variable {σ τ : Type} {f : σ → σ} {Ok : σ → Prop} {next : τ → τ → Prop} {R : σ → τ → Prop}

/-- A machine that follows another where it is permitted follows it on the way. -/
theorem Turns.follow (hsim : ∀ s t u, R s t → Ok s → next t u → R (f s) u) {n : Nat} {s : σ}
    {t u : τ} (h : Turns next n t u) (hR : R s t) (hok : ∀ k < n, Ok (f^[k] s)) :
    R (f^[n] s) u := by
  induction h generalizing s with
  | none => exact hR
  | turn hnext _ ih =>
      refine ih (hsim _ _ _ hR (hok 0 (Nat.succ_pos _)) hnext) fun k hk => ?_
      exact hok (k + 1) (Nat.succ_lt_succ hk)

/-- **What a program leads to** is true of the machine that runs it, however
that machine goes on the way. -/
theorem Leads.follow (hsim : ∀ s t u, R s t → Ok s → next t u → R (f s) u) {Q : σ → Prop} {s : σ}
    {t : τ} (h : Leads f Ok Q s) (hR : R s t) :
    ∃ n, ∀ u, Turns next n t u → ∃ s', Q s' ∧ R s' u := by
  obtain ⟨n, hok, hQ⟩ := leads_iff.mp h
  exact ⟨n, fun u hu => ⟨f^[n] s, hQ, hu.follow hsim hR hok⟩⟩

end

end Logic
