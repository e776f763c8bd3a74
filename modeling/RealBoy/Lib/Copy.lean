/-
# `RealBoy.Lib.Copy` — a copy loop as a simultaneous copy

A loop that copies one place after another reads what its earlier passes left.
It still is the copy of the places as they were, as long as no source is written
before its own turn (`Apart`): a region copied to another one, and a region
copied onto itself.
-/
import Mathlib.Data.List.Range

namespace Copy

section

variable {σ α β : Type}

/-- The passes `0 .. n-1` of a copy from the places `src` to the places `dst`. -/
def loop (rd : σ → α → β) (wr : α → β → σ → σ) (dst src : Nat → α) (n : Nat) (s : σ) : σ :=
  (List.range n).foldl (fun s i => wr (dst i) (rd s (src i)) s) s

/-- No pass writes the source of a later one, nor the target of another. -/
structure Apart (dst src : Nat → α) (n : Nat) : Prop where
  src_ne : ∀ i j, i < j → j < n → src j ≠ dst i
  dst_ne : ∀ i j, i < j → j < n → dst j ≠ dst i

/-- A write is seen where it went, and nowhere else. -/
def Cellwise [DecidableEq α] (rd : σ → α → β) (wr : α → β → σ → σ) (a : α) : Prop :=
  ∀ v s b, rd (wr a v s) b = if b = a then v else rd s b

variable {rd : σ → α → β} {wr : α → β → σ → σ} {dst src : Nat → α}

/-- One more pass. -/
theorem loop_succ (n : Nat) (s : σ) :
    loop rd wr dst src (n + 1) s =
      wr (dst n) (rd (loop rd wr dst src n s) (src n)) (loop rd wr dst src n s) := by
  rw [loop, List.range_succ, List.foldl_append]
  rfl

theorem Apart.of_succ {n : Nat} (h : Apart dst src (n + 1)) : Apart dst src n where
  src_ne i j hij hj := h.src_ne i j hij (Nat.lt_succ_of_lt hj)
  dst_ne i j hij hj := h.dst_ne i j hij (Nat.lt_succ_of_lt hj)

variable [DecidableEq α]

/-- What no pass writes, stays. -/
theorem rd_loop_of_ne {n : Nat} (hwr : ∀ i < n, Cellwise rd wr (dst i)) (s : σ) {b : α}
    (hb : ∀ i < n, b ≠ dst i) : rd (loop rd wr dst src n s) b = rd s b := by
  induction n with
  | zero => rfl
  | succ n ih =>
      rw [loop_succ, hwr n (Nat.lt_succ_self n), if_neg (hb n (Nat.lt_succ_self n))]
      exact ih (fun i hi => hwr i (Nat.lt_succ_of_lt hi)) fun i hi => hb i (Nat.lt_succ_of_lt hi)

/-- **A copy loop is a simultaneous copy**: every target holds what its source
held before the loop. -/
theorem rd_loop_dst {n : Nat} (hwr : ∀ i < n, Cellwise rd wr (dst i)) (hapart : Apart dst src n)
    (s : σ) {i : Nat} (hi : i < n) : rd (loop rd wr dst src n s) (dst i) = rd s (src i) := by
  induction n with
  | zero => exact absurd hi (Nat.not_lt_zero i)
  | succ n ih =>
      have hwr' : ∀ i < n, Cellwise rd wr (dst i) := fun i hi => hwr i (Nat.lt_succ_of_lt hi)
      rw [loop_succ, hwr n (Nat.lt_succ_self n)]
      by_cases hlast : i = n
      · subst hlast
        rw [if_pos rfl]
        -- the passes before this one left its source alone
        exact rd_loop_of_ne hwr' s fun j hj => hapart.src_ne j i hj hi
      · have hlt : i < n := by omega
        rw [if_neg (hapart.dst_ne i n hlt (Nat.lt_succ_self n)).symm]
        exact ih hwr' hapart.of_succ hlt

end

end Copy
