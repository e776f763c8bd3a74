/-
# `RealBoy.Lib.Ripple` — long numbers, one digit at a time

A number of `n` digits in radix `m` is worked through digit by digit, and a carry
runs from each pass to the next.  `Linked c ps c'` is such a run: `c` goes into
its first pass and `c'` comes out of its last.  What one pass does (`Adds`,
`Subs`, `Halves`) is an equation between digits; by induction over the run it is
the same equation between the numbers (`add_total`, `sub_total`, `halve_total`).
-/
import Mathlib.Data.Nat.Digits.Lemmas
import Mathlib.Tactic.Ring

namespace Ripple

/-- What a pass takes, a digit of each number and a carry, and what it leaves. -/
structure Pass where
  x : Nat
  y : Nat
  z : Nat
  cin : Bool
  cout : Bool

/-- Passes through which a carry runs. -/
inductive Linked : Bool → List Pass → Bool → Prop where
  | nil (c : Bool) : Linked c [] c
  | cons (p : Pass) {ps : List Pass} {c' : Bool} : Linked p.cout ps c' → Linked p.cin (p :: ps) c'

/-- The number in one place of the passes, the least significant digit first. -/
def number (m : Nat) (f : Pass → Nat) (ps : List Pass) : Nat := Nat.ofDigits m (ps.map f)

/-- The number, the most significant digit first. -/
def numberDown (m : Nat) (f : Pass → Nat) (ps : List Pass) : Nat :=
  Nat.ofDigits m (ps.map f).reverse

/-- A pass of an addition. -/
def Pass.Adds (m : Nat) (p : Pass) : Prop := p.z + m * p.cout.toNat = p.x + p.y + p.cin.toNat

/-- A pass of a subtraction. -/
def Pass.Subs (m : Nat) (p : Pass) : Prop := p.z + p.y + p.cin.toNat = p.x + m * p.cout.toNat

/-- A pass of a division by two, from the top. -/
def Pass.Halves (m : Nat) (p : Pass) : Prop := 2 * p.z + p.cout.toNat = p.x + m * p.cin.toNat

section

variable {m : Nat} {f : Pass → Nat} {p : Pass} {ps : List Pass} {c c' : Bool}

theorem number_cons : number m f (p :: ps) = f p + m * number m f ps := Nat.ofDigits_cons

theorem numberDown_cons :
    numberDown m f (p :: ps) = numberDown m f ps + m ^ ps.length * f p := by
  rw [numberDown, List.map_cons, Nat.ofDigits_reverse_cons, List.length_map]
  rfl

theorem number_lt (hm : 1 < m) (hf : ∀ p ∈ ps, f p < m) : number m f ps < m ^ ps.length := by
  have hlt := Nat.ofDigits_lt_base_pow_length hm (l := ps.map f) fun d hd => by
    obtain ⟨p, hp, rfl⟩ := List.mem_map.mp hd
    exact hf p hp
  rwa [List.length_map] at hlt

/-! ## Runs -/

/-- **An addition**, whatever its length. -/
theorem add_total (h : Linked c ps c') (hp : ∀ p ∈ ps, p.Adds m) :
    number m Pass.z ps + m ^ ps.length * c'.toNat =
      number m Pass.x ps + number m Pass.y ps + c.toNat := by
  induction h with
  | nil c => simp [number]
  | @cons p ps c' _ ih =>
      have hrest := ih fun q hq => hp q (List.mem_cons_of_mem p hq)
      have hhead : p.z + m * p.cout.toNat = p.x + p.y + p.cin.toNat := hp p List.mem_cons_self
      rw [number_cons, number_cons, number_cons, List.length_cons, pow_succ]
      calc p.z + m * number m Pass.z ps + m ^ ps.length * m * c'.toNat
          = p.z + m * (number m Pass.z ps + m ^ ps.length * c'.toNat) := by ring
        _ = (p.z + m * p.cout.toNat) + m * (number m Pass.x ps + number m Pass.y ps) := by
            rw [hrest]
            ring
        _ = _ := by
            rw [hhead]
            ring

/-- **A subtraction**, whatever its length. -/
theorem sub_total (h : Linked c ps c') (hp : ∀ p ∈ ps, p.Subs m) :
    number m Pass.z ps + number m Pass.y ps + c.toNat =
      number m Pass.x ps + m ^ ps.length * c'.toNat := by
  induction h with
  | nil c => simp [number]
  | @cons p ps c' _ ih =>
      have hrest := ih fun q hq => hp q (List.mem_cons_of_mem p hq)
      have hhead : p.z + p.y + p.cin.toNat = p.x + m * p.cout.toNat := hp p List.mem_cons_self
      rw [number_cons, number_cons, number_cons, List.length_cons, pow_succ]
      calc p.z + m * number m Pass.z ps + (p.y + m * number m Pass.y ps) + p.cin.toNat
          = (p.z + p.y + p.cin.toNat) + m * (number m Pass.z ps + number m Pass.y ps) := by ring
        _ = p.x + m * (number m Pass.z ps + number m Pass.y ps + p.cout.toNat) := by
            rw [hhead]
            ring
        _ = _ := by
            rw [hrest]
            ring

/-- **A division by two**, whatever the length. -/
theorem halve_total (h : Linked c ps c') (hp : ∀ p ∈ ps, p.Halves m) :
    2 * numberDown m Pass.z ps + c'.toNat =
      numberDown m Pass.x ps + m ^ ps.length * c.toNat := by
  induction h with
  | nil c => simp [numberDown]
  | @cons p ps c' _ ih =>
      have hrest := ih fun q hq => hp q (List.mem_cons_of_mem p hq)
      have hhead : 2 * p.z + p.cout.toNat = p.x + m * p.cin.toNat := hp p List.mem_cons_self
      rw [numberDown_cons, numberDown_cons, List.length_cons, pow_succ]
      calc 2 * (numberDown m Pass.z ps + m ^ ps.length * p.z) + c'.toNat
          = (2 * numberDown m Pass.z ps + c'.toNat) + m ^ ps.length * (2 * p.z) := by ring
        _ = numberDown m Pass.x ps + m ^ ps.length * (2 * p.z + p.cout.toNat) := by
            rw [hrest]
            ring
        _ = _ := by
            rw [hhead]
            ring

/-! ## Remainders and carries -/

variable (hm : 1 < m) (hz : ∀ p ∈ ps, p.z < m)

include hm hz

theorem add_mod (h : Linked c ps c') (hp : ∀ p ∈ ps, p.Adds m) :
    number m Pass.z ps = (number m Pass.x ps + number m Pass.y ps + c.toNat) % m ^ ps.length ∧
      (c' = true ↔ m ^ ps.length ≤ number m Pass.x ps + number m Pass.y ps + c.toNat) := by
  have htotal := add_total h hp
  have hlt := number_lt hm hz
  cases c' with
  | false =>
      rw [Bool.toNat_false, mul_zero, add_zero] at htotal
      rw [← htotal]
      exact ⟨(Nat.mod_eq_of_lt hlt).symm, nofun, fun hle => absurd hle (Nat.not_le.mpr hlt)⟩
  | true =>
      rw [Bool.toNat_true, mul_one] at htotal
      rw [← htotal, Nat.add_mod_right]
      exact ⟨(Nat.mod_eq_of_lt hlt).symm, fun _ => Nat.le_add_left _ _, fun _ => rfl⟩

theorem sub_mod (h : Linked c ps c') (hp : ∀ p ∈ ps, p.Subs m) :
    (number m Pass.z ps : Int) =
        ((number m Pass.x ps : Int) - number m Pass.y ps - c.toNat) % ((m ^ ps.length : Nat) : Int) ∧
      (c' = true ↔ (number m Pass.x ps : Int) - number m Pass.y ps - c.toNat < 0) := by
  have htotal := sub_total h hp
  have hlt := number_lt hm hz
  generalize number m Pass.z ps = z at htotal hlt ⊢
  generalize number m Pass.x ps = x at htotal ⊢
  generalize number m Pass.y ps = y at htotal ⊢
  generalize m ^ ps.length = t at htotal hlt ⊢
  have hself : (z : Int) % (t : Int) = z := Int.emod_eq_of_lt (by omega) (by omega)
  cases c' with
  | false =>
      rw [Bool.toNat_false, mul_zero, add_zero] at htotal
      have hdiff : (x : Int) - y - c.toNat = z := by omega
      rw [hdiff]
      exact ⟨hself.symm, nofun, fun hneg => absurd hneg (by omega)⟩
  | true =>
      rw [Bool.toNat_true, mul_one] at htotal
      have hdiff : (x : Int) - y - c.toNat = z - t := by omega
      rw [hdiff, Int.sub_emod_right]
      exact ⟨hself.symm, fun _ => by omega, fun _ => rfl⟩

end

/-! ## The digits of a number -/

/-- The `n` low digits of a number. -/
def digitsOf (m : Nat) : Nat → Nat → List Nat
  | 0, _ => []
  | n + 1, k => k % m :: digitsOf m n (k / m)

theorem length_digitsOf (m n k : Nat) : (digitsOf m n k).length = n := by
  induction n generalizing k with
  | zero => rfl
  | succ n ih => rw [digitsOf, List.length_cons, ih]

theorem ofDigits_digitsOf (m n k : Nat) : Nat.ofDigits m (digitsOf m n k) = k % m ^ n := by
  induction n generalizing k with
  | zero => simp [digitsOf, Nat.mod_one]
  | succ n ih =>
      rw [digitsOf, Nat.ofDigits_cons, ih, pow_succ, Nat.mul_comm (m ^ n), Nat.mod_mul]

theorem lt_of_mem_digitsOf {m n k d : Nat} (hm : 0 < m) (h : d ∈ digitsOf m n k) : d < m := by
  induction n generalizing k with
  | zero => exact absurd h List.not_mem_nil
  | succ n ih =>
      rcases List.mem_cons.mp h with rfl | h
      · exact Nat.mod_lt k hm
      · exact ih h

/-- The digits are determined by the number. -/
theorem eq_digitsOf {m k : Nat} {ds : List Nat} (hm : 1 < m) (hd : ∀ d ∈ ds, d < m)
    (h : Nat.ofDigits m ds = k % m ^ ds.length) : ds = digitsOf m ds.length k :=
  Nat.ofDigits_inj_of_len_eq hm (length_digitsOf m _ k).symm hd
    (fun _ hmem => lt_of_mem_digitsOf (Nat.lt_of_succ_lt hm) hmem)
    (h.trans (ofDigits_digitsOf m _ k).symm)

/-! ## Differences from their borrows -/

/-- The digit a pass of a subtraction is to leave, from its borrows. -/
def Pass.diff (m : Nat) (p : Pass) : Nat := p.x + m * p.cout.toNat - p.y - p.cin.toNat

/-- The borrow of a pass is that of its digits. -/
def Pass.Borrows (p : Pass) : Prop := p.cout = decide (p.x < p.y + p.cin.toNat)

/-- The carries do not look at what is left. -/
theorem Linked.map_z {c c' : Bool} {ps : List Pass} (h : Linked c ps c') (g : Pass → Nat) :
    Linked c (ps.map fun p => { p with z := g p }) c' := by
  induction h with
  | nil c => exact .nil c
  | @cons p ps c' _ ih => exact .cons { p with z := g p } ih

theorem Pass.Borrows.diff_subs {m : Nat} {p : Pass} (h : p.Borrows) (hx : p.x < m) (hy : p.y < m) :
    p.diff m < m ∧ ({ p with z := p.diff m } : Pass).Subs m := by
  have hc := p.cin.toNat_le
  unfold Pass.Borrows at h
  show p.diff m < m ∧ p.diff m + p.y + p.cin.toNat = p.x + m * p.cout.toNat
  unfold Pass.diff
  by_cases hlt : p.x < p.y + p.cin.toNat
  · rw [h, decide_eq_true hlt, Bool.toNat_true, mul_one]
    omega
  · rw [h, decide_eq_false hlt, Bool.toNat_false, mul_zero]
    omega

/-- No pass of a subtraction borrows just when no digit is less than the one
taken from it. -/
theorem no_borrow_iff {ps : List Pass} {c c' : Bool} (h : Linked c ps c') (hc : c = false)
    (hp : ∀ p ∈ ps, p.Borrows) :
    (∀ p ∈ ps, p.cout = false) ↔ ∀ p ∈ ps, p.y ≤ p.x := by
  induction h with
  | nil => exact ⟨fun _ _ hmem => absurd hmem List.not_mem_nil,
      fun _ _ hmem => absurd hmem List.not_mem_nil⟩
  | @cons p ps c' _ ih =>
      have hhead : p.cout = decide (p.x < p.y + p.cin.toNat) := hp p List.mem_cons_self
      rw [hc, Bool.toNat_false, Nat.add_zero] at hhead
      have hrest (hno : p.cout = false) := ih hno fun q hq => hp q (List.mem_cons_of_mem p hq)
      rw [List.forall_mem_cons, List.forall_mem_cons]
      constructor
      · rintro ⟨hno, hall⟩
        refine ⟨?_, (hrest hno).mp hall⟩
        exact Nat.le_of_not_lt (of_decide_eq_false (hhead.symm.trans hno))
      · rintro ⟨hle, hall⟩
        have hno : p.cout = false := hhead.trans (decide_eq_false (Nat.not_lt.mpr hle))
        exact ⟨hno, (hrest hno).mpr hall⟩

/-- **The borrows determine the difference**: where every pass borrows as its
digits do, the digits to be left are those of the difference, and the last borrow
is its sign. -/
theorem diff_of_borrows {m : Nat} {c c' : Bool} {ps : List Pass} (hm : 1 < m) (h : Linked c ps c')
    (hx : ∀ p ∈ ps, p.x < m ∧ p.y < m) (hb : ∀ p ∈ ps, p.Borrows) :
    ps.map (Pass.diff m) = digitsOf m ps.length
        (((number m Pass.x ps : Int) - number m Pass.y ps - c.toNat) %
          ((m ^ ps.length : Nat) : Int)).toNat ∧
      (c' = true ↔ (number m Pass.x ps : Int) - number m Pass.y ps - c.toNat < 0) := by
  have hsubs (p : Pass) (hp : p ∈ ps) := (hb p hp).diff_subs (hx p hp).1 (hx p hp).2
  have hlt : ∀ q ∈ ps.map fun p => { p with z := p.diff m }, q.z < m := by
    rw [List.forall_mem_map]
    exact fun p hp => (hsubs p hp).1
  obtain ⟨hnumber, hsign⟩ := sub_mod hm hlt (h.map_z (Pass.diff m)) (by
    rw [List.forall_mem_map]
    exact fun p hp => (hsubs p hp).2)
  have same (f : Pass → Nat) (hf : ∀ p : Pass, f { p with z := p.diff m } = f p) :
      number m f (ps.map fun p => { p with z := p.diff m }) = number m f ps := by
    rw [number, List.map_map, number]
    exact congrArg (Nat.ofDigits m) (List.map_congr_left fun p _ => hf p)
  have hz : number m Pass.z (ps.map fun p => { p with z := p.diff m }) =
      Nat.ofDigits m (ps.map (Pass.diff m)) := by
    rw [number, List.map_map]
    rfl
  rw [hz, same Pass.x fun _ => rfl, same Pass.y fun _ => rfl, List.length_map] at hnumber
  rw [same Pass.x fun _ => rfl, same Pass.y fun _ => rfl] at hsign
  refine ⟨?_, hsign⟩
  have hlow : ∀ d ∈ ps.map (Pass.diff m), d < m :=
    List.forall_mem_map.mpr fun p hp => (hsubs p hp).1
  have hself : Nat.ofDigits m (ps.map (Pass.diff m)) =
      Nat.ofDigits m (ps.map (Pass.diff m)) % m ^ (ps.map (Pass.diff m)).length :=
    (Nat.mod_eq_of_lt (Nat.ofDigits_lt_base_pow_length hm hlow)).symm
  have hdigits := eq_digitsOf hm hlow hself
  rw [List.length_map] at hdigits
  rw [hdigits, ← hnumber, Int.toNat_natCast, ← hdigits]

end Ripple
