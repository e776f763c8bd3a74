/-
# `RealBoy.Lib.Drain` — queues read up to the first match

A reader visits some queues one after the other, takes their entries one by one,
and stops behind the first that matches: the way a loop reads that leaves through
a `return` in its body.  It passes on the first match of all the queues
(`visit_fst`), so it has passed on every match, and left none behind, where there
is at most one (`drained_iff`).
-/
import Mathlib.Data.List.Nodup
import Mathlib.Logic.Function.Basic

namespace Drain

variable {ι α : Type} (p : α → Bool)

/-- What stands behind the first match. -/
def rest : List α → List α
  | [] => []
  | a :: l => if p a then l else rest l

variable {p}

theorem rest_cons_of_pos {a : α} (h : p a = true) (l : List α) : rest p (a :: l) = l := if_pos h

theorem rest_cons_of_neg {a : α} (h : p a = false) (l : List α) :
    rest p (a :: l) = rest p l := by
  rw [rest, h]
  rfl

theorem filter_rest (l : List α) : (rest p l).filter p = (l.filter p).tail := by
  induction l with
  | nil => rfl
  | cons a l ih =>
      cases h : p a with
      | true => simp [rest_cons_of_pos h, h]
      | false => simp [rest_cons_of_neg h, h, ih]

/-- Without a match nothing is left. -/
theorem rest_of_find?_none {l : List α} : l.find? p = none → rest p l = [] := by
  induction l with
  | nil => exact fun _ => rfl
  | cons a l ih =>
      intro h
      cases ha : p a with
      | true => simp [ha] at h
      | false =>
          rw [List.find?_cons_of_neg (by simp [ha])] at h
          rw [rest_cons_of_neg ha]
          exact ih h

theorem find?_toList (l : List α) : (l.find? p).toList = (l.filter p).take 1 := by
  rw [← List.head?_filter]
  cases l.filter p <;> rfl

variable [DecidableEq ι] (p)

/-- The visit of some queues: the entry at which it stopped, and the queues then. -/
def visit : List ι → (ι → List α) → Option α × (ι → List α)
  | [], q => (none, q)
  | i :: is, q =>
    match (q i).find? p with
    | some a => (some a, Function.update q i (rest p (q i)))
    | none => visit is (Function.update q i [])

variable {p}

theorem visit_cons_some {i : ι} {is : List ι} {q : ι → List α} {a : α}
    (h : (q i).find? p = some a) :
    visit p (i :: is) q = (some a, Function.update q i (rest p (q i))) := by
  rw [visit, h]

theorem visit_cons_none {i : ι} {is : List ι} {q : ι → List α} (h : (q i).find? p = none) :
    visit p (i :: is) q = visit p is (Function.update q i []) := by
  rw [visit, h]

theorem flatMap_update {i : ι} {is : List ι} (hi : i ∉ is) (q : ι → List α) (l : List α) :
    is.flatMap (Function.update q i l) = is.flatMap q := by
  refine List.flatMap_congr fun j hj => Function.update_of_ne ?_ ..
  rintro rfl
  exact hi hj

/-- **The visit stops at the first match of all queues.** -/
theorem visit_fst {is : List ι} :
    ∀ {q : ι → List α}, is.Nodup → (visit p is q).1 = (is.flatMap q).find? p := by
  induction is with
  | nil => exact fun _ => rfl
  | cons i is ih =>
      intro q hnodup
      obtain ⟨hi, his⟩ := List.nodup_cons.mp hnodup
      rw [List.flatMap_cons, List.find?_append]
      cases h : (q i).find? p with
      | some a => rw [visit_cons_some h, Option.some_or]
      | none => rw [visit_cons_none h, ih his, flatMap_update hi, Option.none_or]

/-- A queue outside the visit stays as it is. -/
theorem visit_of_notMem {j : ι} {is : List ι} :
    ∀ {q : ι → List α}, j ∉ is → (visit p is q).2 j = q j := by
  induction is with
  | nil => exact fun _ => rfl
  | cons i is ih =>
      intro q hj
      obtain ⟨hne, his⟩ : j ≠ i ∧ j ∉ is := by simpa using hj
      cases h : (q i).find? p with
      | some a =>
          rw [visit_cons_some h]
          exact Function.update_of_ne hne ..
      | none =>
          rw [visit_cons_none h, ih his]
          exact Function.update_of_ne hne ..

/-- Where there is one match at most, none is left. -/
theorem visit_left {is : List ι} :
    ∀ {q : ι → List α}, is.Nodup → ((is.flatMap q).filter p).length ≤ 1 →
      ∀ j ∈ is, ((visit p is q).2 j).filter p = [] := by
  induction is with
  | nil => simp
  | cons i is ih =>
      intro q hnodup hone j hj
      obtain ⟨hi, his⟩ := List.nodup_cons.mp hnodup
      rw [List.flatMap_cons, List.filter_append, List.length_append] at hone
      cases h : (q i).find? p with
      | some a =>
          have hpos : 0 < ((q i).filter p).length :=
            List.length_filter_pos_iff.mpr ⟨a, List.mem_of_find?_eq_some h, List.find?_some h⟩
          rw [visit_cons_some h]
          rcases eq_or_ne j i with rfl | hne
          · have htail : ((q j).filter p).tail = [] := by
              rw [← List.length_eq_zero_iff, List.length_tail]
              omega
            simpa [filter_rest] using htail
          · have hmem : j ∈ is := (List.mem_cons.mp hj).resolve_left hne
            have hnone : (is.flatMap q).filter p = [] := List.length_eq_zero_iff.mp (by omega)
            have hj : ∀ b ∈ q j, ¬ p b = true := fun b hb =>
              List.filter_eq_nil_iff.mp hnone b (List.mem_flatMap.mpr ⟨j, hmem, hb⟩)
            simpa [Function.update_of_ne hne] using hj
      | none =>
          rw [visit_cons_none h]
          rcases eq_or_ne j i with rfl | hne
          · simp [visit_of_notMem hi]
          · refine ih his ?_ j ((List.mem_cons.mp hj).resolve_left hne)
            rw [flatMap_update hi]
            omega

/-- **Everything is passed on, and nothing left, where there is one match at
most.** -/
theorem drained_iff {is : List ι} {q : ι → List α} (hnodup : is.Nodup) :
    ((visit p is q).1.toList = (is.flatMap q).filter p ∧
        ∀ j ∈ is, ((visit p is q).2 j).filter p = []) ↔
      ((is.flatMap q).filter p).length ≤ 1 := by
  rw [visit_fst hnodup, find?_toList]
  constructor
  · rintro ⟨hpassed, -⟩
    rw [← hpassed, List.length_take]
    exact Nat.min_le_left ..
  · intro hone
    exact ⟨List.take_of_length_le hone, visit_left hnodup hone⟩

end Drain
