/-
# `RealBoy.Lib.Nesting` — well-nested runs of a machine with a stack

`Nested` are the runs in which pushes and pops match like parentheses, with
other steps in between; the transfers of a run are what each pair pushed and
what it popped.  `Rep st s` says that the state `s` holds the list `st` as its
stack.  Where the three kinds of steps keep the representation, a nested run
ends with the stack it began with, and every pop delivers what its push stored
(`Nested.lifo`): the machine's stack refines the list.
-/
import Mathlib.Tactic.Common

namespace Nesting

variable {σ W P : Type}

/-- A machine with a stack: `push n v s m` pushes `v` onto a stack of `n`
entries, `pop p s m` pops `p`, `other n s m` is any other step. -/
structure Machine (σ W P : Type) where
  push : Nat → W → σ → σ → Prop
  pop : P → σ → σ → Prop
  other : Nat → σ → σ → Prop

/-- The well-nested runs that begin with `n` entries on the stack. -/
inductive Nested (M : Machine σ W P) : Nat → σ → List (W × P) → σ → Prop where
  | done {n : Nat} {s : σ} : Nested M n s [] s
  | other {n : Nat} {s m s' : σ} {tr : List (W × P)} :
      M.other n s m → Nested M n m tr s' → Nested M n s tr s'
  | pair {n : Nat} {v : W} {p : P} {s m m' m'' s' : σ} {inner rest : List (W × P)} :
      M.push n v s m → Nested M (n + 1) m inner m' → M.pop p m' m'' → Nested M n m'' rest s' →
      Nested M n s (inner ++ (v, p) :: rest) s'

/-- The steps keep a representation of the stack. -/
structure Refines (M : Machine σ W P) (Rep : List W → σ → Prop) (Delivers : W → P → Prop) :
    Prop where
  push : ∀ st v s m, Rep st s → M.push st.length v s m → Rep (v :: st) m
  pop : ∀ st v p s m, Rep (v :: st) s → M.pop p s m → Rep st m ∧ Delivers v p
  other : ∀ st s m, Rep st s → M.other st.length s m → Rep st m

/-- **Last in, first out.** -/
theorem Nested.lifo {M : Machine σ W P} {Rep : List W → σ → Prop} {Delivers : W → P → Prop}
    (R : Refines M Rep Delivers) {n : Nat} {s s' : σ} {tr : List (W × P)} (h : Nested M n s tr s') :
    ∀ st : List W, st.length = n → Rep st s → Rep st s' ∧ ∀ t ∈ tr, Delivers t.1 t.2 := by
  induction h with
  | done =>
      intro st _ hrep
      exact ⟨hrep, fun t ht => absurd ht List.not_mem_nil⟩
  | other hstep _ ih =>
      intro st hlen hrep
      subst hlen
      exact ih st rfl (R.other st _ _ hrep hstep)
  | @pair n v p s m m' m'' s' inner rest hpush _ hpop _ ihin ihrest =>
      intro st hlen hrep
      subst hlen
      obtain ⟨hin, hinner⟩ := ihin (v :: st) rfl (R.push st v s m hrep hpush)
      obtain ⟨hout, hdel⟩ := R.pop st v p m' m'' hin hpop
      obtain ⟨hend, hrest⟩ := ihrest st rfl hout
      refine ⟨hend, fun t ht => ?_⟩
      rcases List.mem_append.mp ht with ht | ht
      · exact hinner t ht
      · rcases List.mem_cons.mp ht with rfl | ht
        · exact hdel
        · exact hrest t ht

end Nesting
