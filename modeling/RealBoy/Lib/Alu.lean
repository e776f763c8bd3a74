/-
# `RealBoy.Lib.Alu` — exact arithmetic, and how emulators compute its flags

`Sm83.Alu.value` and `Sm83.Alu.flags` say what the eight operations of the
SM83 compute, in terms of natural numbers: a half carry is `16 ≤ x % 16 + y % 16`,
a borrow is `x < y`.

An emulator gets the same bits out of wider words: a carry into bit `i` is what
`x ^ y ^ (x + y)` has there (`xor_add_bit`, `xor_sub_bit`), and a sum that left
the byte has something in the byte above it (`and_ff00`).
-/
import Mathlib.Tactic.Common
import RealBoy.Lib.Sm83

namespace Sm83

/-! ## The operations -/

/-- The flags an operation leaves. -/
structure Flags where
  z : Bool
  n : Bool
  h : Bool
  c : Bool
deriving DecidableEq

/-- A sum with a carry in. -/
def addValue (x y : BitVec 8) (c : Bool) : BitVec 8 :=
  BitVec.ofNat 8 (x.toNat + y.toNat + c.toNat)

def addFlags (x y : BitVec 8) (c : Bool) : Flags where
  z := (x.toNat + y.toNat + c.toNat) % 256 = 0
  n := false
  h := 16 ≤ x.toNat % 16 + y.toNat % 16 + c.toNat
  c := 256 ≤ x.toNat + y.toNat + c.toNat

/-- A difference with a borrow in. -/
def subValue (x y : BitVec 8) (c : Bool) : BitVec 8 :=
  BitVec.ofInt 8 ((x.toNat : Int) - y.toNat - c.toNat)

def subFlags (x y : BitVec 8) (c : Bool) : Flags where
  z := ((x.toNat : Int) - y.toNat - c.toNat) % 256 = 0
  n := true
  h := x.toNat % 16 < y.toNat % 16 + c.toNat
  c := x.toNat < y.toNat + c.toNat

namespace Alu

/-- What an operation leaves in A, from A, the operand and the carry flag. -/
def value (k : Alu) (a v : BitVec 8) (c : Bool) : BitVec 8 :=
  match k with
  | .add => addValue a v false
  | .adc => addValue a v c
  | .sub => subValue a v false
  | .sbc => subValue a v c
  | .and => a &&& v
  | .xor => a ^^^ v
  | .or => a ||| v
  | .cp => a

/-- The flags it leaves. -/
def flags (k : Alu) (a v : BitVec 8) (c : Bool) : Flags :=
  match k with
  | .add => addFlags a v false
  | .adc => addFlags a v c
  | .sub | .cp => subFlags a v false
  | .sbc => subFlags a v c
  | .and => ⟨a &&& v = 0, false, true, false⟩
  | .xor => ⟨a ^^^ v = 0, false, false, false⟩
  | .or => ⟨a ||| v = 0, false, false, false⟩

end Alu

/-- The flags of an increment; the carry is not its own. -/
def incFlags (v : BitVec 8) (c : Bool) : Flags := { addFlags v 1 false with c := c }

/-- The flags of a decrement. -/
def decFlags (v : BitVec 8) (c : Bool) : Flags := { subFlags v 1 false with c := c }

/-! ## Carries as bits -/

section

variable {w : Nat}

/-- A test against one bit. -/
theorem and_twoPow_ne_zero (x : BitVec w) (i : Nat) (hi : i < w) :
    (x &&& BitVec.twoPow w i != 0#w) = x.getLsbD i := by
  rw [BitVec.and_twoPow]
  cases x.getLsbD i with
  | false => simp
  | true =>
      have hne : BitVec.twoPow w i ≠ 0#w := by
        intro h
        have := congrArg (BitVec.getLsbD · i) h
        simp [hi] at this
      simp [hne]

/-- **A carry into bit `i`** of a sum. -/
theorem xor_add_bit (x y : BitVec w) (c : Bool) {i : Nat} (hi : i < w) :
    (x ^^^ y ^^^ (x + y + BitVec.setWidth w (BitVec.ofBool c))).getLsbD i =
      decide (2 ^ i ≤ x.toNat % 2 ^ i + y.toNat % 2 ^ i + c.toNat) := by
  rw [BitVec.getLsbD_xor, BitVec.getLsbD_xor, BitVec.getLsbD_add_add_bool hi, BitVec.carry]
  cases x.getLsbD i <;> cases y.getLsbD i <;> simp

/-- The sum that undoes a difference has a carry where the difference has a
borrow. -/
theorem carry_iff_borrow {m d x y c : Nat} (hm : 0 < m) (hc : c ≤ 1)
    (h : (d + y + c) % m = x % m) : m ≤ d % m + y % m + c ↔ x % m < y % m + c := by
  have hx := Nat.mod_lt x hm
  have hd := Nat.mod_lt d hm
  have hy := Nat.mod_lt y hm
  have h : (d % m + y % m + c) % m = x % m := by
    rw [← h, Nat.add_mod (d + y), Nat.add_mod d, Nat.add_mod_mod, Nat.mod_add_mod]
  by_cases hle : m ≤ d % m + y % m + c
  · have hwrap : x % m = d % m + y % m + c - m :=
      (h.symm.trans (Nat.mod_eq_sub_mod hle)).trans (Nat.mod_eq_of_lt (by omega))
    omega
  · have hsum : x % m = d % m + y % m + c := h.symm.trans (Nat.mod_eq_of_lt (by omega))
    omega

/-- **A borrow from bit `i`** of a difference. -/
theorem xor_sub_bit (x y : BitVec w) (c : Bool) {i : Nat} (hi : i < w) :
    (x ^^^ y ^^^ (x - (y + BitVec.setWidth w (BitVec.ofBool c)))).getLsbD i =
      decide (x.toNat % 2 ^ i < y.toNat % 2 ^ i + c.toNat) := by
  generalize hd : x - (y + BitVec.setWidth w (BitVec.ofBool c)) = d
  have hx : d + y + BitVec.setWidth w (BitVec.ofBool c) = x := by
    rw [← hd, BitVec.add_assoc, BitVec.sub_add_cancel]
  have hbit := xor_add_bit d y c hi
  rw [hx] at hbit
  have hcomm : x ^^^ y ^^^ d = d ^^^ y ^^^ x := by ac_rfl
  rw [hcomm, hbit]
  refine decide_eq_decide.mpr (carry_iff_borrow (Nat.two_pow_pos i) c.toNat_le ?_)
  have hnat := congrArg BitVec.toNat hx
  have hsmall : (BitVec.setWidth w (BitVec.ofBool c)).toNat = c.toNat := by
    rw [BitVec.toNat_setWidth, BitVec.toNat_ofBool]
    refine Nat.mod_eq_of_lt (Nat.lt_of_le_of_lt c.toNat_le ?_)
    exact Nat.one_lt_two_pow (by omega)
  rw [BitVec.toNat_add, BitVec.toNat_add, hsmall, Nat.mod_add_mod] at hnat
  rw [← hnat, Nat.mod_mod_of_dvd _ (Nat.pow_dvd_pow 2 (Nat.le_of_lt hi))]

end

/-- What is left of a number in the byte above its low one. -/
theorem and_ff00 (n : Nat) : n &&& 0xff00 = n / 2 ^ 8 % 2 ^ 8 * 2 ^ 8 := by
  refine Nat.eq_of_testBit_eq fun i => ?_
  have hmask : (0xff00 : Nat) = (2 ^ 8 - 1) * 2 ^ 8 := rfl
  rw [hmask, Nat.testBit_and, Nat.testBit_mul_two_pow, Nat.testBit_mul_two_pow,
    Nat.testBit_mod_two_pow, Nat.testBit_div_two_pow, Nat.testBit_two_pow_sub_one]
  by_cases hi : 8 ≤ i
  · rw [Nat.sub_add_cancel hi]
    simp [hi, Bool.and_comm]
  · simp [hi]

end Sm83
