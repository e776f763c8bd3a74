/-
# `RealBoy.Lib.Bounded` — programs that stop where an index leaves its table

A program over tables, written a second time as a partial one: it looks at every
index first, and gives nothing once one is outside.  `read` and `store` are its
accesses, `collect`, `link` and `unlink` its loops over a row of
`RealBoy.Lib.NullRows`.  The rules say when the partial program runs to its end,
and that it then computes what the program does (`bind_eq`, `foldlM_eq`,
`collect_eq`, `link_eq`, `unlink_eq`).
-/
import RealBoy.Lib.NullRows

namespace Bounded

variable {α β σ : Type}

/-- A read of a table of `size` cells. -/
def read (size : Nat) (table : Nat → α) (i : Int) : Option α :=
  if 0 ≤ i ∧ i < size then some (table i.toNat) else none

/-- The next cell of an array of `size` cells, of which the first ones are taken. -/
def store (size : Nat) (acc : List α) (a : α) : Option (List α) :=
  if acc.length < size then some (acc ++ [a]) else none

/-- `NullRows.collect` into an array of `size` cells.  Its fuel is the number of
cells left in the table, so where that runs out the next cell is outside. -/
def collect (test : α → Option Bool) (cap size : Nat) (t : Nat → Option α) :
    (fuel cell : Nat) → (acc : List α) → Option (List α)
  | 0, _, _ => none
  | fuel + 1, cell, acc =>
    match t cell with
    | none => some acc
    | some b =>
      if acc.length < cap then do
        let found ← test b
        let acc ← if found then store size acc b else some acc
        collect test cap size t fuel (cell + 1) acc
      else
        some acc

/-- `NullRows.link` in a table of `size` cells. -/
def link (a : α) (size : Nat) :
    (fuel cell : Nat) → (Nat → Option α) → Option (Nat → Option α)
  | 0, _, _ => none
  | fuel + 1, cell, t => do
    match ← read size t cell with
    | none => return Function.update t cell (some a)
    | some _ => link a size fuel (cell + 1) t

/-- `NullRows.unlink` in a table of `size` cells; an entry that moves is read from
the next cell. -/
def unlink [DecidableEq α] (a : α) (size : Nat) :
    (fuel cell : Nat) → (found : Bool) → (Nat → Option α) → Option (Nat → Option α)
  | 0, _, _, _ => none
  | fuel + 1, cell, found, t => do
    match ← read size t cell with
    | none => return t
    | some b =>
      if b = a ∨ found then do
        let next ← read size t (cell + 1 : Nat)
        unlink a size fuel (cell + 1) true (Function.update t cell next)
      else
        unlink a size fuel (cell + 1) found t

theorem read_eq {size : Nat} {i : Int} (h₀ : 0 ≤ i) (h₁ : i < size) (table : Nat → α) :
    read size table i = some (table i.toNat) := if_pos ⟨h₀, h₁⟩

theorem read_natCast {size k : Nat} (h : k < size) (table : Nat → α) :
    read size table k = some (table k) := read_eq (Int.natCast_nonneg k) (Int.ofNat_lt.mpr h) table

/-- One access more. -/
theorem bind_eq {x : Option α} {a : α} (h : x = some a) (f : α → Option β) : x >>= f = f a := by
  rw [h]
  rfl

/-- **A loop** whose body runs through on the states it meets. -/
theorem foldlM_eq {f : σ → α → Option σ} {g : σ → α → σ} (I : σ → Prop) {l : List α} :
    (∀ s, ∀ a ∈ l, I s → f s a = some (g s a) ∧ I (g s a)) →
      ∀ {s : σ}, I s → l.foldlM f s = some (l.foldl g s) ∧ I (l.foldl g s) := by
  induction l with
  | nil => exact fun _ _ hs => ⟨rfl, hs⟩
  | cons a l ih =>
      intro hstep s hs
      obtain ⟨hf, hg⟩ := hstep s a List.mem_cons_self hs
      rw [List.foldlM_cons, List.foldl_cons, bind_eq hf]
      exact ih (fun s b hb => hstep s b (List.mem_cons_of_mem a hb)) hg

section

open NullRows

variable {test : α → Option Bool} {test' : α → Bool} {cap size : Nat} {t : Nat → Option α}

/-- The row ends before the table does. -/
theorem collect_eq (hsize : cap ≤ size) :
    ∀ {l : List α} {fuel cell : Nat} {acc : List α}, Row t cell l → l.length < fuel →
      (∀ b ∈ l, test b = some (test' b)) →
      collect test cap size t fuel cell acc = some (NullRows.collect test' cap t fuel cell acc)
  | [], fuel + 1, cell, acc, h, _, _ => by
      rw [collect, NullRows.collect, row_nil.mp h]
  | b :: l, fuel + 1, cell, acc, h, hf, htest => by
      obtain ⟨h₀, h₁⟩ := row_cons.mp h
      have hrest (acc : List α) : collect test cap size t fuel (cell + 1) acc =
          some (NullRows.collect test' cap t fuel (cell + 1) acc) :=
        collect_eq hsize h₁ (Nat.lt_of_succ_lt_succ hf)
          fun c hc => htest c (List.mem_cons_of_mem b hc)
      rw [collect, NullRows.collect, h₀]
      dsimp only
      split
      case isTrue hlt =>
        have hstore : store size acc b = some (acc ++ [b]) := if_pos (Nat.lt_of_lt_of_le hlt hsize)
        rw [htest b List.mem_cons_self]
        cases test' b with
        | false => exact hrest acc
        | true =>
            show (store size acc b).bind _ = _
            rw [hstore]
            exact hrest (acc ++ [b])
      case isFalse => rfl

/-- The cell behind the row is in the table. -/
theorem link_eq (a : α) {l : List α} :
    ∀ {fuel cell : Nat} {t : Nat → Option α}, Row t cell l → l.length < fuel →
      cell + l.length < size →
      link a size fuel cell t = some (NullRows.link a fuel cell t) := by
  induction l with
  | nil =>
      intro fuel cell t h hfuel hsize
      cases fuel with
      | zero => simp at hfuel
      | succ fuel =>
          have hread : read size t cell = some (t cell) := read_natCast hsize t
          rw [link, NullRows.link, bind_eq hread, row_nil.mp h]
          rfl
  | cons b l ih =>
      intro fuel cell t h hfuel hsize
      rw [List.length_cons] at hsize
      obtain ⟨h₀, h₁⟩ := row_cons.mp h
      cases fuel with
      | zero => simp at hfuel
      | succ fuel =>
          rw [link, NullRows.link, bind_eq (read_natCast (by omega) t), h₀]
          exact ih h₁ (Nat.lt_of_succ_lt_succ hfuel) (by omega)

/-- The last entry that moves is read from the cell behind the row. -/
theorem unlink_eq [DecidableEq α] (a : α) {l : List α} :
    ∀ {fuel cell : Nat} {found : Bool} {t : Nat → Option α}, Row t cell l → l.length < fuel →
      cell + l.length < size →
      unlink a size fuel cell found t = some (NullRows.unlink a fuel cell found t) := by
  induction l with
  | nil =>
      intro fuel cell found t h hfuel hsize
      cases fuel with
      | zero => simp at hfuel
      | succ fuel =>
          have hread : read size t cell = some (t cell) := read_natCast hsize t
          rw [unlink, NullRows.unlink, bind_eq hread, row_nil.mp h]
          rfl
  | cons b l ih =>
      intro fuel cell found t h hfuel hsize
      rw [List.length_cons] at hsize
      obtain ⟨h₀, h₁⟩ := row_cons.mp h
      cases fuel with
      | zero => simp at hfuel
      | succ fuel =>
          have hfuel := Nat.lt_of_succ_lt_succ hfuel
          rw [unlink, NullRows.unlink, bind_eq (read_natCast (by omega) t), h₀]
          dsimp only
          split
          case isTrue =>
            rw [bind_eq (read_natCast (by omega) t)]
            exact ih (h₁.update (Nat.lt_succ_self cell) _) hfuel (by omega)
          case isFalse => exact ih h₁ hfuel (by omega)

end

end Bounded
