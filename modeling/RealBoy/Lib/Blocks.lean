/-
# `RealBoy.Lib.Blocks` — allocated blocks

A block as `malloc` returns it: cells that hold nothing yet.  A copy into it
fails past its end.  A loop that copies the pieces of a message one behind the
other fills the block and stays inside it, if the block was made for as many
pieces (`foldlM_memcpy`).
-/
import Mathlib.Tactic.Common

namespace Blocks

variable {α ε : Type}

/-- `malloc`: no cell has been written. -/
def malloc (α : Type) (size : Nat) : List (Option α) := List.replicate size none

/-- `memcpy` to an offset of a block; `overrun` where the block is too short. -/
def memcpy (overrun : ε) (block : List (Option α)) (offset : Nat) (src : List α) :
    Except ε (List (Option α)) :=
  if offset + src.length ≤ block.length then
    .ok (block.take offset ++ src.map some ++ block.drop (offset + src.length))
  else .error overrun

theorem malloc_add (n m : Nat) : malloc α (n + m) = malloc α n ++ malloc α m :=
  List.replicate_append_replicate.symm

/-- A copy behind what is written already. -/
theorem memcpy_append (overrun : ε) (done src : List α) (rest : Nat) :
    memcpy overrun (done.map some ++ malloc α (src.length + rest)) done.length src =
      .ok ((done ++ src).map some ++ malloc α rest) := by
  have hfits : done.length + src.length ≤
      (done.map some ++ malloc α (src.length + rest)).length := by
    simp [malloc]
  rw [memcpy, if_pos hfits, malloc_add]
  simp [malloc, List.drop_append]

/-- **The loop that fills a block**, from its `k`-th piece on; every piece is as
long as `w`. -/
theorem foldlM_memcpy (overrun : ε) {w : Nat} (m : Nat) :
    ∀ {k : Nat} {done : List α} {f : Nat → List α}, done.length = w * k → (∀ i, (f i).length = w) →
      (List.range m).foldlM (fun block i => memcpy overrun block (w * (k + i)) (f i))
          (done.map some ++ malloc α (w * m)) =
        .ok ((done ++ (List.range m).flatMap f).map some) := by
  induction m with
  | zero =>
      intro k done f _ _
      simp [malloc]
      rfl
  | succ m ih =>
      intro k done f hdone hf
      have hfirst : memcpy overrun (done.map some ++ malloc α (w * (m + 1))) (w * (k + 0)) (f 0) =
          .ok ((done ++ f 0).map some ++ malloc α (w * m)) := by
        have h := memcpy_append overrun done (f 0) (w * m)
        rwa [hf 0, hdone, Nat.add_comm w, ← Nat.mul_succ] at h
      have hdone' : (done ++ f 0).length = w * (k + 1) := by
        rw [List.length_append, hdone, hf 0, Nat.mul_succ]
      have hrest := ih (f := fun i => f (i + 1)) hdone' fun i => hf (i + 1)
      have hloop : (List.range (m + 1)).foldlM
          (fun block i => memcpy overrun block (w * (k + i)) (f i))
            (done.map some ++ malloc α (w * (m + 1))) =
          (List.range m).foldlM (fun block i => memcpy overrun block (w * (k + 1 + i)) (f (i + 1)))
            ((done ++ f 0).map some ++ malloc α (w * m)) := by
        have hshift (i : Nat) : k + 1 + i = k + (i + 1) := by omega
        rw [List.range_succ_eq_map, List.foldlM_cons, hfirst]
        simp only [hshift]
        exact List.foldlM_map ..
      rw [hloop, hrest, List.range_succ_eq_map]
      simp [List.flatMap_map]

end Blocks
