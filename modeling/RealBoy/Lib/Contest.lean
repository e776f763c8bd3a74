/-
# `RealBoy.Lib.Contest` — a running winner

A loop over candidates that carries the winner so far.  The winner of the whole
list is a candidate that takes over from whatever the loop can hold when it comes
up.  What follows can only do harm: a later candidate leaves the winner alone or
throws it out, and a winner that is out stays out.  So the loop ends with the
winner exactly when nothing after it throws it out (`foldl_eq_iff`).
-/
import Mathlib.Tactic.Common

namespace Contest

variable {σ α : Type} {f : σ → α → σ}

variable (I Lost : σ → Prop) (out : α → Prop) {w : σ} {b : α} {pre post : List α}

/-- After the winner. -/
theorem foldl_post_iff (hkeep : ∀ c ∈ post, ¬ out c → f w c = w)
    (hout : ∀ c ∈ post, out c → Lost (f w c)) (hlost : ∀ s, ∀ c ∈ post, Lost s → Lost (f s c))
    (hw : ¬ Lost w) : post.foldl f w = w ↔ ∀ c ∈ post, ¬ out c := by
  induction post with
  | nil => simp
  | cons c post ih =>
      have later : ∀ d ∈ post, d ∈ c :: post := fun d hd => List.mem_cons_of_mem c hd
      constructor
      · intro h
        have hc : ¬ out c := by
          intro hc
          have hend := List.foldlRecOn post f (hout c List.mem_cons_self hc)
            fun s hs d hd => hlost s d (later d hd) hs
          exact hw (h ▸ hend)
        rw [List.foldl_cons, hkeep c List.mem_cons_self hc] at h
        have hrest := (ih (fun d hd => hkeep d (later d hd)) (fun d hd => hout d (later d hd))
          fun s d hd => hlost s d (later d hd)).mp h
        simpa [hc] using hrest
      · intro hall
        rw [List.foldl_cons, hkeep c List.mem_cons_self (hall c List.mem_cons_self)]
        exact (ih (fun d hd => hkeep d (later d hd)) (fun d hd => hout d (later d hd))
          fun s d hd => hlost s d (later d hd)).mpr fun d hd => hall d (later d hd)

/-- **Who wins.**  `I` is what the loop can hold, `Lost` that the winner is out. -/
theorem foldl_eq_iff {s : σ} (hs : I s) (hstep : ∀ s, ∀ c ∈ pre, I s → I (f s c))
    (htake : ∀ s, I s → f s b = w) (hkeep : ∀ c ∈ post, ¬ out c → f w c = w)
    (hout : ∀ c ∈ post, out c → Lost (f w c)) (hlost : ∀ s, ∀ c ∈ post, Lost s → Lost (f s c))
    (hw : ¬ Lost w) : (pre ++ b :: post).foldl f s = w ↔ ∀ c ∈ post, ¬ out c := by
  have hpre := List.foldlRecOn pre f hs fun s hs c hc => hstep s c hc hs
  rw [List.foldl_append, List.foldl_cons, htake _ hpre]
  exact foldl_post_iff Lost out hkeep hout hlost hw

end Contest
