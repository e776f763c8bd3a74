/-
# `RealBoy.Lib.NullRows` — loops over a table of null-terminated rows

A flat table of cells, an empty cell ending each row.  The three loops a
program writes over such a table, each from a given cell: append at the first
empty cell, delete by shifting the rest of the row left, and collect up to
`cap` entries that satisfy a test.  Every loop carries as fuel the number of
cells left in the table, so it stops at the table's end at the latest.

`Row` is what one row holds.  `Table` describes a whole table of `n` rows of
`w` cells by the lists its rows hold; the three loops are then append, erase
and filter on one of the lists (`Table.link`, `Table.unlink`, `Table.collect`).
A row may be full, its empty cell being the first of the next row, so long as
that row is empty.
-/
import Mathlib.Data.List.Basic
import Mathlib.Logic.Function.Basic

namespace NullRows

variable {α : Type}

/-- `while (*p) p++; *p = a;` -/
def link (a : α) : (fuel cell : Nat) → (Nat → Option α) → (Nat → Option α)
  | 0, _, t => t
  | fuel + 1, cell, t =>
    match t cell with
    | none => Function.update t cell (some a)
    | some _ => link a fuel (cell + 1) t

/-- `while (*p) { if (*p == a || found) { found = true; *p = *(p+1); } p++; }` -/
def unlink [DecidableEq α] (a : α) :
    (fuel cell : Nat) → (found : Bool) → (Nat → Option α) → (Nat → Option α)
  | 0, _, _, t => t
  | fuel + 1, cell, found, t =>
    match t cell with
    | none => t
    | some b =>
      if b = a ∨ found then
        unlink a fuel (cell + 1) true (Function.update t cell (t (cell + 1)))
      else
        unlink a fuel (cell + 1) found t

/-- `while (*p && n < cap) { if (test(*p)) out[n++] = *p; p++; }`, the entries
collected so far in `acc`. -/
def collect (test : α → Bool) (cap : Nat) (t : Nat → Option α) :
    (fuel cell : Nat) → (acc : List α) → List α
  | 0, _, acc => acc
  | fuel + 1, cell, acc =>
    match t cell with
    | none => acc
    | some b =>
      if acc.length < cap then
        collect test cap t fuel (cell + 1) (if test b then acc ++ [b] else acc)
      else
        acc

/-! ## One row -/

/-- From `cell` on, `t` holds `l` and then an empty cell. -/
def Row (t : Nat → Option α) (cell : Nat) (l : List α) : Prop :=
  ∀ i ≤ l.length, t (cell + i) = l[i]?

variable {t : Nat → Option α} {cell : Nat}

theorem row_nil : Row t cell [] ↔ t cell = none := by
  constructor
  · exact fun h => h 0 (Nat.le_refl 0)
  · intro h i hi
    obtain rfl : i = 0 := Nat.le_zero.mp hi
    exact h

theorem row_cons {b : α} {l : List α} :
    Row t cell (b :: l) ↔ t cell = some b ∧ Row t (cell + 1) l := by
  constructor
  · intro h
    refine ⟨h 0 (Nat.zero_le _), fun i hi => ?_⟩
    have := h (i + 1) (Nat.succ_le_succ hi)
    rwa [Nat.add_comm i 1, ← Nat.add_assoc, Nat.add_comm 1 i] at this
  · rintro ⟨h₀, h₁⟩ i hi
    cases i with
    | zero => exact h₀
    | succ i =>
        have := h₁ i (Nat.le_of_succ_le_succ hi)
        rwa [Nat.add_assoc, Nat.add_comm 1 i] at this

/-- A row does not look at the cells before it. -/
theorem Row.update {l : List α} (h : Row t cell l) {c : Nat} (hc : c < cell) (v : Option α) :
    Row (Function.update t c v) cell l := by
  intro i hi
  rw [Function.update_of_ne (by omega)]
  exact h i hi

theorem link_eq (a : α) :
    ∀ {l : List α} {fuel cell : Nat} {t : Nat → Option α}, Row t cell l → l.length < fuel →
      link a fuel cell t = Function.update t (cell + l.length) (some a)
  | [], fuel + 1, cell, t, h, _ => by
      rw [link, row_nil.mp h]
      rfl
  | b :: l, fuel + 1, cell, t, h, hf => by
      obtain ⟨h₀, h₁⟩ := row_cons.mp h
      rw [link, h₀]
      show link a fuel (cell + 1) t = _
      rw [link_eq a h₁ (Nat.lt_of_succ_lt_succ hf), List.length_cons]
      congr 1
      omega

theorem collect_eq (test : α → Bool) (cap : Nat) :
    ∀ {l : List α} {fuel cell : Nat} {acc : List α}, Row t cell l → l.length < fuel →
      acc.length ≤ cap →
      collect test cap t fuel cell acc = (acc ++ l.filter test).take cap
  | [], fuel + 1, cell, acc, h, _, hacc => by
      rw [collect, row_nil.mp h, List.filter_nil, List.append_nil, List.take_of_length_le hacc]
  | b :: l, fuel + 1, cell, acc, h, hf, hacc => by
      obtain ⟨h₀, h₁⟩ := row_cons.mp h
      rw [collect, h₀]
      dsimp only
      by_cases hc : acc.length < cap
      · rw [if_pos hc, collect_eq test cap h₁ (Nat.lt_of_succ_lt_succ hf)]
        · by_cases hb : test b <;> simp [hb]
        · split
          · rw [List.length_append, List.length_singleton]
            omega
          · exact hacc
      · have hlen : acc.length = cap := by omega
        rw [if_neg hc, ← hlen, List.take_left]

/-- The cells from `i` up to `j` take the value of the next cell. -/
def shift (t : Nat → Option α) (i j : Nat) : Nat → Option α :=
  fun c => if i ≤ c ∧ c < j then t (c + 1) else t c

section

variable [DecidableEq α]

theorem unlink_found (a : α) :
    ∀ {l : List α} {fuel cell : Nat} {t : Nat → Option α}, Row t cell l → l.length < fuel →
      unlink a fuel cell true t = shift t cell (cell + l.length)
  | [], fuel + 1, cell, t, h, _ => by
      rw [unlink, row_nil.mp h]
      funext c
      rw [shift, if_neg]
      simp
  | b :: l, fuel + 1, cell, t, h, hf => by
      obtain ⟨h₀, h₁⟩ := row_cons.mp h
      rw [unlink, h₀]
      dsimp only
      rw [if_pos (Or.inr rfl),
        unlink_found a (h₁.update (Nat.lt_succ_self cell) _) (Nat.lt_of_succ_lt_succ hf)]
      funext c
      simp only [shift, List.length_cons]
      by_cases hc : c = cell
      · subst hc
        rw [if_neg (by omega), if_pos (by omega), Function.update_self]
      · by_cases hin : cell + 1 ≤ c ∧ c < cell + 1 + l.length
        · rw [if_pos hin, if_pos (by omega), Function.update_of_ne (by omega)]
        · rw [if_neg hin, if_neg (by omega), Function.update_of_ne hc]

theorem unlink_eq (a : α) :
    ∀ {l : List α} {fuel cell : Nat} {t : Nat → Option α}, Row t cell l → l.length < fuel →
      unlink a fuel cell false t = shift t (cell + l.idxOf a) (cell + l.length)
  | [], fuel + 1, cell, t, h, _ => by
      rw [unlink, row_nil.mp h]
      funext c
      rw [shift, if_neg]
      simp
  | b :: l, fuel + 1, cell, t, h, hf => by
      obtain ⟨h₀, h₁⟩ := row_cons.mp h
      by_cases hb : b = a
      · -- from here on the entries move
        have hall : unlink a (fuel + 1) cell true t = _ := unlink_found a h hf
        rw [unlink, h₀] at hall ⊢
        dsimp only at hall ⊢
        rw [if_pos (Or.inr rfl)] at hall
        rw [if_pos (Or.inl hb), hall, hb, List.idxOf_cons_self]
        rfl
      · rw [unlink, h₀]
        dsimp only
        rw [if_neg (by simp [hb]), unlink_eq a h₁ (Nat.lt_of_succ_lt_succ hf),
          List.idxOf_cons_ne _ hb, List.length_cons]
        congr 1 <;> omega

end

/-! ## A table -/

/-- `t` is a table of `n` rows of `w` cells, holding `rows`. -/
structure Table (w n : Nat) (rows : Nat → List α) (t : Nat → Option α) : Prop where
  pos : 0 < w
  cells : ∀ r < n, ∀ i < w, t (w * r + i) = (rows r)[i]?
  length_le : ∀ r < n, (rows r).length ≤ w

/-- A row ends within the table. -/
def Ends (w n : Nat) (rows : Nat → List α) (r : Nat) : Prop :=
  (rows r).length < w ∨ (r + 1 < n ∧ rows (r + 1) = [])

section

variable {w n r : Nat} {rows : Nat → List α}

theorem cell_inj {r' i j : Nat} (hi : i < w) (hj : j < w) (h : w * r + i = w * r' + j) :
    r = r' ∧ i = j := by
  have hw : 0 < w := by omega
  have hr : (w * r + i) / w = r := by
    rw [Nat.mul_add_div hw, Nat.div_eq_of_lt hi, Nat.add_zero]
  have hr' : (w * r' + j) / w = r' := by
    rw [Nat.mul_add_div hw, Nat.div_eq_of_lt hj, Nat.add_zero]
  have he : r = r' := by rw [← hr, h, hr']
  subst he
  exact ⟨rfl, by omega⟩

theorem Table.row (h : Table w n rows t) (hr : r < n) (he : Ends w n rows r) :
    Row t (w * r) (rows r) := by
  intro i hi
  by_cases hw : i < w
  · exact h.cells r hr i hw
  · -- the row is full and the next one empty
    have hlen := h.length_le r hr
    rcases he with hlt | ⟨hr', hnext⟩
    · omega
    · obtain rfl : i = w := by omega
      have hfirst := h.cells (r + 1) hr' 0 h.pos
      rw [hnext, Nat.mul_succ, Nat.add_zero] at hfirst
      rw [hfirst, List.getElem?_eq_none hlen]
      rfl

/-- The cells left in the table are more than the row holds. -/
theorem Table.fuel (h : Table w n rows t) (hr : r < n) (he : Ends w n rows r) :
    (rows r).length < w * n - w * r := by
  have hlen := h.length_le r hr
  have hpos := h.pos
  rcases he with hlt | ⟨hr', -⟩
  · have : w * (r + 1) ≤ w * n := Nat.mul_le_mul_left w hr
    rw [Nat.mul_succ] at this
    omega
  · have : w * (r + 1 + 1) ≤ w * n := Nat.mul_le_mul_left w hr'
    rw [Nat.mul_succ, Nat.mul_succ] at this
    omega

/-- **Append.** -/
theorem Table.link (h : Table w n rows t) (hr : r < n) (hlt : (rows r).length < w) (a : α) :
    Table w n (Function.update rows r (rows r ++ [a]))
      (NullRows.link a (w * n - w * r) (w * r) t) := by
  rw [link_eq a (h.row hr (.inl hlt)) (h.fuel hr (.inl hlt))]
  refine ⟨h.pos, fun r' hr' i hi => ?_, fun r' hr' => ?_⟩
  · by_cases hc : w * r' + i = w * r + (rows r).length
    · obtain ⟨rfl, rfl⟩ := cell_inj hi hlt hc
      rw [Function.update_self, Function.update_self, List.getElem?_concat_length]
    · rw [Function.update_of_ne hc, h.cells r' hr' i hi]
      by_cases he : r' = r
      · subst he
        have hne : i ≠ (rows r').length := fun hi => hc (by rw [hi])
        rw [Function.update_self]
        rcases Nat.lt_or_gt_of_ne hne with hlt' | hgt
        · rw [List.getElem?_append_left hlt']
        · rw [List.getElem?_eq_none (by omega), List.getElem?_eq_none]
          rw [List.length_append, List.length_singleton]
          omega
      · rw [Function.update_of_ne he]
  · by_cases he : r' = r
    · subst he
      rw [Function.update_self, List.length_append, List.length_singleton]
      omega
    · rw [Function.update_of_ne he]
      exact h.length_le r' hr'

/-- **Erase.** -/
theorem Table.unlink [DecidableEq α] (h : Table w n rows t) (hr : r < n) (he : Ends w n rows r)
    (a : α) :
    Table w n (Function.update rows r ((rows r).erase a))
      (NullRows.unlink a (w * n - w * r) (w * r) false t) := by
  have hrow := h.row hr he
  have hlen := h.length_le r hr
  rw [unlink_eq a hrow (h.fuel hr he)]
  refine ⟨h.pos, fun r' hr' i hi => ?_, fun r' hr' => ?_⟩
  · by_cases hrr : r' = r
    · subst hrr
      rw [Function.update_self, List.erase_eq_eraseIdx_of_idxOf rfl, List.getElem?_eraseIdx, shift]
      split
      case isTrue hin =>
        have := hrow (i + 1) (by omega)
        rw [← Nat.add_assoc] at this
        rw [if_neg (by omega), this]
      case isFalse hout =>
        rw [h.cells r' hr' i hi]
        by_cases hlo : i < (rows r').idxOf a
        · rw [if_pos hlo]
        · rw [if_neg hlo, List.getElem?_eq_none (by omega), List.getElem?_eq_none (by omega)]
    · rw [Function.update_of_ne hrr, shift, if_neg, h.cells r' hr' i hi]
      rintro ⟨hlo, hhi⟩
      obtain ⟨j, hj⟩ : ∃ j, w * r' + i = w * r + j := ⟨w * r' + i - w * r, by omega⟩
      exact hrr (cell_inj hi (by omega) hj).1
  · by_cases hrr : r' = r
    · subst hrr
      rw [Function.update_self]
      exact Nat.le_trans List.length_erase_le hlen
    · rw [Function.update_of_ne hrr]
      exact h.length_le r' hr'

/-- **Filter**, up to `cap` entries in all. -/
theorem Table.collect (h : Table w n rows t) (hr : r < n) (he : Ends w n rows r)
    (test : α → Bool) {cap : Nat} {acc : List α} (hacc : acc.length ≤ cap) :
    NullRows.collect test cap t (w * n - w * r) (w * r) acc =
      (acc ++ (rows r).filter test).take cap :=
  collect_eq test cap (h.row hr he) (h.fuel hr he) hacc

/-- A table of empty cells. -/
theorem table_empty (hw : 0 < w) (h : ∀ c < w * n, t c = none) : Table w n (fun _ => []) t where
  pos := hw
  cells r hr i hi := by
    have : w * (r + 1) ≤ w * n := Nat.mul_le_mul_left w hr
    rw [Nat.mul_succ] at this
    exact h _ (by omega)
  length_le _ _ := Nat.zero_le w

end

end NullRows
