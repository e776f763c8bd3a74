/-
# `RealBoy.Cpu.Alu` — the arithmetic of the handlers is exact

The eight operations exist in the source as macros over `int`, over an `int8_t`
temporary, and written out; each of them is `Sm83.Alu.value` with
`Sm83.Alu.flags` (`doAdd_eq` .. `doCp_eq`).  An operand enters as the `int` the
promotion makes of it; only its low byte matters (`IsByte`).
-/
import RealBoy.Cpu.Decode
import RealBoy.Cpu.Exec
import RealBoy.Emu.Cells
import RealBoy.Lib.Alu

namespace RealBoy

open Sm83 (addValue addFlags subValue subFlags)

/-- F with new flags; the low nibble stays. -/
def packF (f : U8) (fl : Sm83.Flags) : U8 :=
  (f &&& 0x0f) ||| boolToFlag flagZero fl.z ||| boolToFlag flagSub fl.n |||
    boolToFlag flagHcarry fl.h ||| boolToFlag flagCarry fl.c

theorem unsetFlagsAll_eq (f : U8) : unsetFlagsAll f = f &&& 0x0f := rfl

theorem boolToFlag_false (flag : U8) : boolToFlag flag false = 0 := rfl

theorem boolToFlag_true (flag : U8) : boolToFlag flag true = flag := rfl

/-- The carry flag, tested and set again. -/
theorem boolToFlag_carry (f : U8) : boolToFlag flagCarry (bit f flagCarry) = f &&& flagCarry := by
  have hbit : bit f flagCarry = f.getLsbD 4 := Sm83.and_twoPow_ne_zero f 4 (by decide)
  rw [hbit, boolToFlag]
  exact (BitVec.and_twoPow f 4).symm

theorem boolToFlag_getLsbD (i j : Nat) (hi : i < 8) (b : Bool) :
    (boolToFlag (BitVec.twoPow 8 i) b).getLsbD j = (b && decide (i = j)) := by
  cases b with
  | false => simp [boolToFlag]
  | true => simp [boolToFlag, BitVec.getLsbD_twoPow, hi]

/-- The flags that were packed. -/
theorem bit_packF (f : U8) (fl : Sm83.Flags) :
    bit (packF f fl) flagZero = fl.z ∧ bit (packF f fl) flagSub = fl.n ∧
      bit (packF f fl) flagHcarry = fl.h ∧ bit (packF f fl) flagCarry = fl.c := by
  have flag (i : Nat) (hi : i < 8) : bit (packF f fl) (BitVec.twoPow 8 i) =
      (f.getLsbD i && (0x0f : U8).getLsbD i || (fl.z && decide (7 = i)) || (fl.n && decide (6 = i)) ||
        (fl.h && decide (5 = i)) || (fl.c && decide (4 = i))) := by
    have hbit : bit (packF f fl) (BitVec.twoPow 8 i) = (packF f fl).getLsbD i :=
      Sm83.and_twoPow_ne_zero (packF f fl) i hi
    rw [hbit, packF]
    simp only [BitVec.getLsbD_or, BitVec.getLsbD_and]
    rw [show flagZero = BitVec.twoPow 8 7 from rfl, show flagSub = BitVec.twoPow 8 6 from rfl,
      show flagHcarry = BitVec.twoPow 8 5 from rfl, show flagCarry = BitVec.twoPow 8 4 from rfl]
    simp only [boolToFlag_getLsbD 7 i (by decide), boolToFlag_getLsbD 6 i (by decide),
      boolToFlag_getLsbD 5 i (by decide), boolToFlag_getLsbD 4 i (by decide)]
  refine ⟨(flag 7 (by decide)).trans ?_, (flag 6 (by decide)).trans ?_,
    (flag 5 (by decide)).trans ?_, (flag 4 (by decide)).trans ?_⟩
  all_goals simp
/-! ## Promoted operands -/

/-- The `int` has this low byte: a promoted `uint8_t`, or a promoted `int8_t`. -/
def IsByte (op : CInt) (v : U8) : Prop := op.toNat % 256 = v.toNat

theorem isByte_u8 (v : U8) : IsByte (u8 v) v := by
  rw [IsByte, u8]
  bv_omega

theorem isByte_s8 (v : U8) : IsByte (s8 v) v := by
  rw [IsByte, s8, BitVec.toNat_signExtend]
  have hv : (v.setWidth 32).toNat = v.toNat := by bv_omega
  rw [hv]
  split
  · omega
  · omega

theorem u8_toNat (x : U8) : (u8 x).toNat = x.toNat := by
  rw [u8]
  bv_omega

theorem b1_eq (c : Bool) : b1 c = BitVec.setWidth 32 (BitVec.ofBool c) := by
  cases c <;> rfl

theorem b1_toNat (c : Bool) : (b1 c).toNat = c.toNat := by
  cases c <;> rfl

section

variable {a v : U8} {op : CInt}

/-! ## Sums and differences -/

theorem add_value (h : IsByte op v) (c : Bool) :
    (u8 a + (op + b1 c)).setWidth 8 = addValue a v c := by
  refine BitVec.eq_of_toNat_eq ?_
  rw [addValue, BitVec.toNat_setWidth, BitVec.toNat_ofNat, BitVec.toNat_add, BitVec.toNat_add,
    b1_toNat, u8_toNat]
  unfold IsByte at h
  omega

theorem sub_value (h : IsByte op v) (c : Bool) :
    (u8 a - (op + b1 c)).setWidth 8 = subValue a v c := by
  refine BitVec.eq_of_toNat_eq ?_
  rw [subValue, BitVec.toNat_setWidth, BitVec.toNat_ofInt, BitVec.toNat_sub, BitVec.toNat_add,
    b1_toNat, u8_toNat]
  unfold IsByte at h
  omega

theorem addValue_toNat (c : Bool) : (addValue a v c).toNat = (a.toNat + v.toNat + c.toNat) % 256 :=
  BitVec.toNat_ofNat ..

theorem subValue_toNat (c : Bool) :
    ((subValue a v c).toNat : Int) = ((a.toNat : Int) - v.toNat - c.toNat) % 256 := by
  rw [subValue, BitVec.toNat_ofInt]
  omega

/-- `== 0` of a sum. -/
theorem add_zero_flag (c : Bool) : (addValue a v c == 0) = (addFlags a v c).z := by
  show decide (addValue a v c = 0) = decide _
  rw [decide_eq_decide, ← BitVec.toNat_inj, addValue_toNat]
  rfl

theorem sub_zero_flag (c : Bool) : (subValue a v c == 0) = (subFlags a v c).z := by
  show decide (subValue a v c = 0) = decide _
  rw [decide_eq_decide, ← BitVec.toNat_inj, ← subValue_toNat]
  exact Int.natCast_eq_zero.symm

/-- The half carry of a sum. -/
theorem add_half_flag (h : IsByte op v) (c : Bool) :
    ((u8 a ^^^ op ^^^ (u8 a + op + b1 c)) &&& 0x10 != 0) = (addFlags a v c).h := by
  have hbit := Sm83.xor_add_bit (u8 a) op c (i := 4) (by decide)
  rw [← b1_eq, ← Sm83.and_twoPow_ne_zero _ 4 (by decide)] at hbit
  refine hbit.trans (decide_eq_decide.mpr ?_)
  rw [u8_toNat]
  unfold IsByte at h
  omega

theorem sub_half_flag (h : IsByte op v) (c : Bool) :
    ((u8 a ^^^ op ^^^ (u8 a - (op + b1 c))) &&& 0x10 != 0) = (subFlags a v c).h := by
  have hbit := Sm83.xor_sub_bit (u8 a) op c (i := 4) (by decide)
  rw [← b1_eq, ← Sm83.and_twoPow_ne_zero _ 4 (by decide)] at hbit
  refine hbit.trans (decide_eq_decide.mpr ?_)
  rw [u8_toNat]
  unfold IsByte at h
  omega

/-- The carry of a sum, as a wrap of the byte. -/
theorem add_carry_flag : decide (addValue a v false < a) = (addFlags a v false).c := by
  refine decide_eq_decide.mpr ?_
  rw [BitVec.lt_def, addValue_toNat]
  have := a.isLt
  have := v.isLt
  simp only [Bool.toNat_false]
  omega

theorem sub_carry_flag : decide (a < subValue a v false) = (subFlags a v false).c := by
  refine decide_eq_decide.mpr ?_
  rw [BitVec.lt_def]
  have hval := subValue_toNat (a := a) (v := v) false
  have := a.isLt
  have := v.isLt
  simp only [Bool.toNat_false] at hval ⊢
  omega

/-- A number that fills more than a byte. -/
theorem high_byte {w : Nat} (hw : 16 ≤ w) (x : BitVec w) (hx : x.toNat < 65536) :
    (x &&& BitVec.ofNat w 0xff00 != 0#w) = decide (256 ≤ x.toNat) := by
  have hmask : (BitVec.ofNat w 0xff00).toNat = 0xff00 := by
    rw [BitVec.toNat_ofNat]
    refine Nat.mod_eq_of_lt ?_
    calc 0xff00 < 2 ^ 16 := by decide
      _ ≤ 2 ^ w := Nat.pow_le_pow_right (by decide) hw
  have hand : (x &&& BitVec.ofNat w 0xff00).toNat = x.toNat / 2 ^ 8 % 2 ^ 8 * 2 ^ 8 := by
    rw [BitVec.toNat_and, hmask, Sm83.and_ff00]
  show (!(x &&& BitVec.ofNat w 0xff00 == 0#w)) = _
  rw [Bool.eq_iff_iff, Bool.not_eq_true', beq_eq_false_iff_ne, decide_eq_true_iff,
    ← BitVec.toNat_ne_iff_ne, hand]
  show _ ≠ 0 ↔ _
  omega

/-- A sum that fills more than a byte. -/
theorem add_high_flag (c : Bool) :
    ((u8 a + u8 v + b1 c).toNat = a.toNat + v.toNat + c.toNat) ∧
      decide (256 ≤ a.toNat + v.toNat + c.toNat) = (addFlags a v c).c := by
  refine ⟨?_, rfl⟩
  rw [BitVec.toNat_add, BitVec.toNat_add, u8_toNat, u8_toNat, b1_toNat]
  have := a.isLt
  have := v.isLt
  have := c.toNat_le
  omega

/-- A difference, in 16 bits. -/
theorem sub_high_flag (c : Bool) :
    decide (256 ≤ ((u8 a - (u8 v + b1 c)).setWidth 16 : U16).toNat) = (subFlags a v c).c := by
  refine decide_eq_decide.mpr ?_
  rw [BitVec.toNat_setWidth, BitVec.toNat_sub, BitVec.toNat_add, u8_toNat, u8_toNat, b1_toNat]
  have := a.isLt
  have := v.isLt
  have := c.toNat_le
  omega

/-! ## The macros -/

/-- A register file with a new A and new flags. -/
def withAf (r : Registers) (x : U8) (fl : Sm83.Flags) : Registers :=
  { r with a := x, f := packF r.f fl }

/-- The carry flag. -/
def carryOf (r : Registers) : Bool := bit r.f flagCarry

variable (r : Registers)

theorem withAf_of {x f : U8} {fl : Sm83.Flags} (h : f = packF r.f fl) :
    { r with a := x, f := f } = withAf r x fl := by rw [h, withAf]

theorem add_b1_false (x : CInt) : x + b1 false = x := BitVec.add_zero x

theorem doAdd_eq (h : IsByte op v) :
    doAdd op r = withAf r (addValue r.a v false) (addFlags r.a v false) := by
  have hval : (u8 r.a + op).setWidth 8 = addValue r.a v false := by
    rw [← add_value h, add_b1_false]
  have hhalf : isAddHalfCarry (u8 r.a) op = (addFlags r.a v false).h := by
    rw [← add_half_flag h, add_b1_false, isAddHalfCarry]
  have hcarry : isAddCarry r.a op = (addFlags r.a v false).c := by
    rw [isAddCarry, hval, add_carry_flag]
  have hzero : isAddZero (u8 r.a) op = (addFlags r.a v false).z := by
    rw [isAddZero, hval, add_zero_flag]
  simp only [doAdd, hval, hhalf, hcarry, hzero]
  refine withAf_of r ?_
  rw [packF, show (addFlags r.a v false).n = false from rfl, boolToFlag_false, unsetFlagsAll_eq]
  simp only [setFlag]
  ac_rfl

theorem doAdc_eq : doAdc (u8 v) r =
    withAf r (addValue r.a v (carryOf r)) (addFlags r.a v (carryOf r)) := by
  unfold doAdc
  rw [← carryOf]
  generalize carryOf r = c
  have hval := add_value (a := r.a) (isByte_u8 v) c
  have hhalf := add_half_flag (a := r.a) (isByte_u8 v) c
  rw [BitVec.xor_comm (u8 r.a)] at hhalf
  have hzero : isAddZero (u8 r.a) (u8 v + b1 c) = (addFlags r.a v c).z := by
    rw [isAddZero, hval, add_zero_flag]
  have hcarry : ((u8 r.a + u8 v + b1 c) &&& 0xff00 != 0) = (addFlags r.a v c).c := by
    obtain ⟨hsum, hflag⟩ := add_high_flag (a := r.a) (v := v) c
    have := r.a.isLt
    have := v.isLt
    have := c.toNat_le
    refine (high_byte (by decide) _ (by omega)).trans ?_
    rw [hsum, hflag]
  simp only [hval, hhalf, hzero, hcarry]
  refine withAf_of r ?_
  rw [packF, show (addFlags r.a v c).n = false from rfl, boolToFlag_false, unsetFlagsAll_eq]
  simp only [setFlag]
  ac_rfl

theorem adcWord_eq : adcWord v r =
    withAf r (addValue r.a v (carryOf r)) (addFlags r.a v (carryOf r)) := by
  unfold adcWord
  rw [← carryOf]
  generalize carryOf r = c
  have hval := add_value (a := r.a) (isByte_u8 v) c
  have hzero := add_zero_flag (a := r.a) (v := v) c
  obtain ⟨hsum, hflag⟩ := add_high_flag (a := r.a) (v := v) c
  have := r.a.isLt
  have := v.isLt
  have := c.toNat_le
  have hsum16 : ((u8 r.a + u8 v + b1 c).setWidth 16 : U16).toNat =
      r.a.toNat + v.toNat + c.toNat := by
    rw [BitVec.toNat_setWidth, hsum]
    omega
  -- widened again the sum is what it was
  have hwide : u16 ((u8 r.a + u8 v + b1 c).setWidth 16) = u8 r.a + u8 v + b1 c := by
    refine BitVec.eq_of_toNat_eq ?_
    rw [u16, BitVec.toNat_setWidth, hsum16, hsum]
    omega
  have hhalf : ((u8 v ^^^ u16 ((u8 r.a + u8 v + b1 c).setWidth 16) ^^^ u8 r.a) &&& 0x10 != 0) =
      (addFlags r.a v c).h := by
    rw [hwide, ← add_half_flag (isByte_u8 v) c]
    congr 2
    ac_rfl
  have hcarry : ((u8 r.a + u8 v + b1 c).setWidth 16 &&& 0xff00 != (0 : U16)) =
      (addFlags r.a v c).c := by
    refine (high_byte (by decide) _ (by omega)).trans ?_
    rw [hsum16, hflag]
  simp only [hval, hhalf, hzero, hcarry]
  refine withAf_of r ?_
  rw [packF, show (addFlags r.a v c).n = false from rfl, boolToFlag_false, unsetFlagsAll_eq]
  simp only [setFlag]
  ac_rfl

theorem doSub_eq (h : IsByte op v) :
    doSub op r = withAf r (subValue r.a v false) (subFlags r.a v false) := by
  have hval : (u8 r.a - op).setWidth 8 = subValue r.a v false := by
    rw [← sub_value h, add_b1_false]
  have hhalf : isSubHalfCarry (u8 r.a) op = (subFlags r.a v false).h := by
    rw [← sub_half_flag h, add_b1_false, isSubHalfCarry]
  have hcarry : isSubCarry r.a op = (subFlags r.a v false).c := by
    rw [isSubCarry, hval, sub_carry_flag]
  have hzero : isSubZero (u8 r.a) op = (subFlags r.a v false).z := by
    rw [isSubZero, hval, sub_zero_flag]
  simp only [doSub, hval, hhalf, hcarry, hzero]
  refine withAf_of r ?_
  rw [packF, show (subFlags r.a v false).n = true from rfl, boolToFlag_true, unsetFlagsAll_eq]
  simp only [setFlag]
  ac_rfl

theorem doCp_eq : doCp v r = withAf r r.a (subFlags r.a v false) := by
  have hval : (u8 r.a - u8 v).setWidth 8 = subValue r.a v false := by
    rw [← sub_value (isByte_u8 v), add_b1_false]
  have hhalf : isSubHalfCarry (u8 r.a) (u8 v) = (subFlags r.a v false).h := by
    rw [← sub_half_flag (isByte_u8 v), add_b1_false, isSubHalfCarry]
  have hcarry : isSubCarry r.a (u8 v) = (subFlags r.a v false).c := by
    rw [isSubCarry, hval, sub_carry_flag]
  have hzero : isSubZero (u8 r.a) (u8 v) = (subFlags r.a v false).z := by
    rw [isSubZero, hval, sub_zero_flag]
  simp only [doCp, hhalf, hcarry, hzero]
  refine withAf_of r ?_
  rw [packF, show (subFlags r.a v false).n = true from rfl, boolToFlag_true, unsetFlagsAll_eq]
  simp only [setFlag]
  ac_rfl

/-- A test of bit 4 does not see what a conversion to 16 bits drops. -/
theorem and_10_setWidth (x y : CInt) :
    ((y ^^^ u16 (x.setWidth 16)) &&& 0x10 != 0) = ((y ^^^ x) &&& 0x10 != 0) := by
  have hbit (z : CInt) : (z &&& 0x10 != 0) = z.getLsbD 4 :=
    Sm83.and_twoPow_ne_zero z 4 (by decide)
  rw [hbit, hbit, BitVec.getLsbD_xor, BitVec.getLsbD_xor, u16, BitVec.getLsbD_setWidth,
    BitVec.getLsbD_setWidth]
  simp

theorem doSbc_eq : doSbc (u8 v) r =
    withAf r (subValue r.a v (carryOf r)) (subFlags r.a v (carryOf r)) := by
  unfold doSbc
  rw [← carryOf]
  generalize carryOf r = c
  have hval := sub_value (a := r.a) (isByte_u8 v) c
  have hzero := sub_zero_flag (a := r.a) (v := v) c
  have hhalf : ((u8 v ^^^ u8 r.a ^^^ u16 ((u8 r.a - (u8 v + b1 c)).setWidth 16)) &&& 0x10 != 0) =
      (subFlags r.a v c).h := by
    rw [and_10_setWidth, BitVec.xor_comm (u8 v), sub_half_flag (isByte_u8 v)]
  have hcarry : ((u8 r.a - (u8 v + b1 c)).setWidth 16 &&& 0xff00 != (0 : U16)) =
      (subFlags r.a v c).c := by
    refine (high_byte (by decide) _ ?_).trans (sub_high_flag c)
    exact BitVec.isLt _
  simp only [hval, hhalf, hzero, hcarry]
  refine withAf_of r ?_
  rw [packF, show (subFlags r.a v c).n = true from rfl, boolToFlag_true, unsetFlagsAll_eq]
  simp only [setFlag]
  ac_rfl

/-- The body for (HL) and immediates is the macro, its flags in another order. -/
theorem sbcWord_eq : sbcWord v r = doSbc (u8 v) r := by
  have hhalf (x : CInt) : ((u8 v ^^^ u16 (x.setWidth 16) ^^^ u8 r.a) &&& 0x10 != 0) =
      ((u8 v ^^^ u8 r.a ^^^ u16 (x.setWidth 16)) &&& 0x10 != 0) := by
    congr 2
    ac_rfl
  simp only [sbcWord, doSbc, hhalf]
  congr 1
  simp only [setFlag]
  ac_rfl

theorem doAnd_eq : doAnd v r = withAf r (Sm83.Alu.and.value r.a v (carryOf r))
    (Sm83.Alu.and.flags r.a v (carryOf r)) := by
  refine withAf_of r ?_
  rw [packF, unsetFlagsAll_eq]
  show setFlag (boolToFlag flagZero (r.a &&& v == 0)) (setFlag flagHcarry (r.f &&& 0x0f)) = _ |||
    boolToFlag flagZero (decide (r.a &&& v = 0)) ||| boolToFlag flagSub false |||
    boolToFlag flagHcarry true ||| boolToFlag flagCarry false
  simp only [setFlag, boolToFlag_false, boolToFlag_true]
  ac_rfl

theorem doXor_eq : doXor v r = withAf r (Sm83.Alu.xor.value r.a v (carryOf r))
    (Sm83.Alu.xor.flags r.a v (carryOf r)) := by
  refine withAf_of r ?_
  rw [packF, unsetFlagsAll_eq]
  show setFlag (boolToFlag flagZero (r.a ^^^ v == 0)) (r.f &&& 0x0f) = _ |||
    boolToFlag flagZero (decide (r.a ^^^ v = 0)) ||| boolToFlag flagSub false |||
    boolToFlag flagHcarry false ||| boolToFlag flagCarry false
  simp only [setFlag, boolToFlag_false]
  ac_rfl

theorem doOr_eq : doOr v r = withAf r (Sm83.Alu.or.value r.a v (carryOf r))
    (Sm83.Alu.or.flags r.a v (carryOf r)) := by
  refine withAf_of r ?_
  rw [packF, unsetFlagsAll_eq]
  show setFlag (boolToFlag flagZero (r.a ||| v == 0)) (r.f &&& 0x0f) = _ |||
    boolToFlag flagZero (decide (r.a ||| v = 0)) ||| boolToFlag flagSub false |||
    boolToFlag flagHcarry false ||| boolToFlag flagCarry false
  simp only [setFlag, boolToFlag_false]
  ac_rfl

/-- What an increment leaves in F. -/
theorem inc_flags (f : U8) :
    setFlag (boolToFlag flagHcarry (isAddHalfCarry (u8 v) 1))
      (setFlag (boolToFlag flagZero (isAddZero (u8 v) 1))
        (unsetFlag (flagSub ||| flagHcarry ||| flagZero) f)) =
      packF f (Sm83.incFlags v (bit f flagCarry)) := by
  have hone : IsByte 1 1 := rfl
  have hkeep : unsetFlag (flagSub ||| flagHcarry ||| flagZero) f =
      (f &&& 0x0f) ||| boolToFlag flagCarry (bit f flagCarry) := by
    rw [boolToFlag_carry, ← BitVec.and_or_distrib_left]
    rfl
  have hhalf : isAddHalfCarry (u8 v) 1 = (addFlags v 1 false).h := by
    rw [← add_half_flag hone, add_b1_false, isAddHalfCarry]
  have hzero : isAddZero (u8 v) 1 = (addFlags v 1 false).z := by
    rw [isAddZero, ← add_zero_flag, ← add_value hone, add_b1_false]
  rw [hhalf, hzero, hkeep]
  show _ = _ ||| boolToFlag flagZero (addFlags v 1 false).z ||| boolToFlag flagSub false |||
    boolToFlag flagHcarry (addFlags v 1 false).h ||| boolToFlag flagCarry (bit f flagCarry)
  simp only [setFlag, boolToFlag_false]
  ac_rfl

/-- What a decrement leaves in F. -/
theorem dec_flags (f : U8) :
    setFlag flagSub (setFlag (boolToFlag flagHcarry (isSubHalfCarry (u8 v) 1))
      (setFlag (boolToFlag flagZero (isSubZero (u8 v) 1))
        (unsetFlag (flagZero ||| flagHcarry) f))) =
      packF f (Sm83.decFlags v (bit f flagCarry)) := by
  have hone : IsByte 1 1 := rfl
  have hkeep : setFlag flagSub (unsetFlag (flagZero ||| flagHcarry) f) =
      (f &&& 0x0f) ||| flagSub ||| boolToFlag flagCarry (bit f flagCarry) := by
    have hmask : unsetFlag (flagZero ||| flagHcarry) f =
        (f &&& 0x0f) ||| (f &&& flagCarry) ||| (f &&& flagSub) := by
      rw [← BitVec.and_or_distrib_left, ← BitVec.and_or_distrib_left]
      rfl
    have hset : (f &&& flagSub) ||| flagSub = flagSub := by
      ext i hi
      simp
    rw [boolToFlag_carry, setFlag, hmask, BitVec.or_assoc, hset, BitVec.or_assoc, BitVec.or_assoc,
      BitVec.or_comm flagSub]
  have hhalf : isSubHalfCarry (u8 v) 1 = (subFlags v 1 false).h := by
    rw [← sub_half_flag hone, add_b1_false, isSubHalfCarry]
  have hzero : isSubZero (u8 v) 1 = (subFlags v 1 false).z := by
    rw [isSubZero, ← sub_zero_flag, ← sub_value hone, add_b1_false]
  rw [hhalf, hzero]
  simp only [setFlag] at hkeep ⊢
  show _ = _ ||| boolToFlag flagZero (subFlags v 1 false).z ||| boolToFlag flagSub true |||
    boolToFlag flagHcarry (subFlags v 1 false).h ||| boolToFlag flagCarry (bit f flagCarry)
  rw [boolToFlag_true]
  calc _ = (unsetFlag (flagZero ||| flagHcarry) f ||| flagSub) |||
        boolToFlag flagZero (subFlags v 1 false).z |||
        boolToFlag flagHcarry (subFlags v 1 false).h := by ac_rfl
    _ = _ := by
        rw [hkeep]
        ac_rfl

end

/-! ## The instructions -/

/-- The value an operand stands for. -/
def operandOf (s : Emu) (o : Sm83.Operand) : U8 :=
  match regOf o with
  | some reg => s.regs.get reg
  | none => monitorRdMem s s.regs.hl

/-- An operation on A, and on F. -/
def doAlu (k : Sm83.Alu) (v : U8) (r : Registers) : Registers :=
  withAf r (k.value r.a v (carryOf r)) (k.flags r.a v (carryOf r))

theorem updRegs_congr {s : Emu} {f g : Registers → Registers} (h : f s.regs = g s.regs) :
    s.updRegs f = s.updRegs g := by rw [Emu.updRegs, h, Emu.updRegs]

/-- **The block 0x80 .. 0xbf.** -/
theorem aluHandler_eq (k : Sm83.Alu) (o : Sm83.Operand) (s : Emu) :
    (aluHandler k o s).1 = s.updRegs (doAlu k (operandOf s o)) := by
  unfold aluHandler operandOf
  cases regOf o with
  | some reg =>
      cases k with
      | add =>
          exact updRegs_congr (f := fun r => doAdd (u8 (r.get reg)) r) (doAdd_eq _ (isByte_u8 _))
      | adc => exact updRegs_congr (f := fun r => doAdc (u8 (r.get reg)) r) (doAdc_eq _)
      | sub =>
          exact updRegs_congr (f := fun r => doSub (u8 (r.get reg)) r) (doSub_eq _ (isByte_u8 _))
      | sbc => exact updRegs_congr (f := fun r => doSbc (u8 (r.get reg)) r) (doSbc_eq _)
      | and => exact updRegs_congr (f := fun r => doAnd (r.get reg) r) (doAnd_eq _)
      | xor => exact updRegs_congr (f := fun r => doXor (r.get reg) r) (doXor_eq _)
      | or => exact updRegs_congr (f := fun r => doOr (r.get reg) r) (doOr_eq _)
      | cp => exact updRegs_congr (f := fun r => doCp (r.get reg) r) (doCp_eq _)
  | none =>
      cases k with
      | add =>
          exact updRegs_congr (f := doAdd (s8 (monitorRdMem s s.regs.hl)))
            (doAdd_eq _ (isByte_s8 _))
      | adc => exact updRegs_congr (f := adcWord (monitorRdMem s s.regs.hl)) (adcWord_eq _)
      | sub =>
          exact updRegs_congr (f := doSub (s8 (monitorRdMem s s.regs.hl)))
            (doSub_eq _ (isByte_s8 _))
      | sbc =>
          exact updRegs_congr (f := sbcWord (monitorRdMem s s.regs.hl))
            ((sbcWord_eq _).trans (doSbc_eq _))
      | and => exact updRegs_congr (f := doAnd (monitorRdMem s s.regs.hl)) (doAnd_eq _)
      | xor => exact updRegs_congr (f := doXor (monitorRdMem s s.regs.hl)) (doXor_eq _)
      | or => exact updRegs_congr (f := doOr (monitorRdMem s s.regs.hl)) (doOr_eq _)
      | cp => exact updRegs_congr (f := doCp (monitorRdMem s s.regs.hl)) (doCp_eq _)

/-- **The immediates.** -/
theorem aluImmHandler_eq (k : Sm83.Alu) (s : Emu) :
    (aluImmHandler k s).1 = advancePc 1 (s.updRegs (doAlu k (monitorRdMem s s.regs.pc))) := by
  have first (f : Registers → Registers) (h : f (advancePc 1 s).regs =
      doAlu k (monitorRdMem s s.regs.pc) (advancePc 1 s).regs) :
      (advancePc 1 s).updRegs f =
        advancePc 1 (s.updRegs (doAlu k (monitorRdMem s s.regs.pc))) := updRegs_congr h
  have last (f : Registers → Registers) (h : f s.regs =
      doAlu k (monitorRdMem s s.regs.pc) s.regs) : advancePc 1 (s.updRegs f) =
        advancePc 1 (s.updRegs (doAlu k (monitorRdMem s s.regs.pc))) :=
    congrArg (advancePc 1) (updRegs_congr h)
  cases k with
  | add => exact first _ (doAdd_eq _ (isByte_s8 _))
  | adc => exact last _ (adcWord_eq _)
  | sub => exact first _ (doSub_eq _ (isByte_s8 _))
  | sbc => exact last _ ((sbcWord_eq _).trans (doSbc_eq _))
  | and => exact first _ (doAnd_eq _)
  | xor => exact first _ (doXor_eq _)
  | or => exact first _ (doOr_eq _)
  | cp => exact first _ (doCp_eq _)

/-- A step of the operand `o`, from the state with PC behind the opcode: the new
value goes to the operand, the flags to F. -/
inductive Steps8 (o : Sm83.Operand) (w : U8) (fl : Sm83.Flags) (s : Emu) : Emu → Prop where
  | reg (reg : Reg8) : regOf o = some reg →
      Steps8 o w fl s (s.updRegs fun r => { r with f := packF r.f fl }.set w reg)
  | indHl (s' : Emu) : regOf o = none →
      s'.regs = { s.regs with f := packF s.regs.f fl } → s'.cpu = s.cpu →
      monitorRdMem s' s.regs.hl = w →
      (∀ b, b ≠ s.regs.hl → monitorRdMem s' b = monitorRdMem s b) → Steps8 o w fl s s'

/-- `fetch`, and `ops_table_dispatch`. -/
def fetchDispatch (s : Emu) : Emu :=
  let (op, opIsPrefix, s) := fetch s
  (opsTableDispatch op opIsPrefix s).1

theorem fetchDispatch_eq {s : Emu} (h : monitorRdMem s s.regs.pc ≠ 0xcb) :
    fetchDispatch s = (handler (Sm83.decode (monitorRdMem s s.regs.pc)) (advancePc 1 s)).1 := by
  unfold fetchDispatch fetch
  dsimp only
  rw [if_neg h]
  dsimp only
  rw [dispatch_base]

theorem add_one_eq (v : U8) : v + 1 = addValue v 1 false := by
  refine BitVec.eq_of_toNat_eq ?_
  rw [addValue_toNat, BitVec.toNat_add]
  rfl

theorem sub_one_eq (v : U8) : v - 1 = subValue v 1 false := by
  refine BitVec.eq_of_toNat_eq (Int.natCast_inj.mp ?_)
  rw [subValue_toNat]
  show _ = ((v.toNat : Int) - 1 - 0) % 256
  bv_omega

/-- A byte at HL is read, stored back changed, and flags are set on both sides
of the store. -/
theorem steps8_indHl {s : Emu} (hmem : IsMemory s.regs.hl) {w : U8} {fl : Sm83.Flags}
    (before after : U8 → U8) (hf : after (before s.regs.f) = packF s.regs.f fl) :
    Steps8 .indHl w fl s ((monitorWrMem s.regs.hl w
      (s.updRegs fun r => { r with f := before r.f })).updRegs
        fun r => { r with f := after r.f }) := by
  obtain ⟨hregs, hcpu⟩ :=
    monitorWrMem_regs hmem w (s.updRegs fun r => { r with f := before r.f })
  have hread (b : U16) := monitorRdMem_monitorWrMem hmem w
    (s.updRegs fun r => { r with f := before r.f }) b
  refine .indHl _ rfl ?_ hcpu ?_ fun b hb => ?_
  · rw [← hf]
    exact congrArg (fun r : Registers => { r with f := after r.f }) hregs
  · exact (hread s.regs.hl).trans (if_pos rfl)
  · exact (hread b).trans (if_neg hb)

/-- INC of a register. -/
theorem opIncReg_steps8 {o : Sm83.Operand} {reg : Reg8} (ho : regOf o = some reg) (s : Emu) :
    Steps8 o (addValue (s.regs.get reg) 1 false)
      (Sm83.incFlags (s.regs.get reg) (carryOf s.regs)) s (opIncReg reg s).1 := by
  have he : (opIncReg reg s).1 = s.updRegs fun r =>
      { r with f := packF r.f (Sm83.incFlags (s.regs.get reg) (carryOf s.regs)) }.set
        (addValue (s.regs.get reg) 1 false) reg := by
    unfold opIncReg
    dsimp only
    refine updRegs_congr ?_
    rw [carryOf, ← inc_flags, ← add_one_eq]
  rw [he]
  exact .reg reg ho

/-- DEC of a register. -/
theorem opDecReg_steps8 {o : Sm83.Operand} {reg : Reg8} (ho : regOf o = some reg) (s : Emu) :
    Steps8 o (subValue (s.regs.get reg) 1 false)
      (Sm83.decFlags (s.regs.get reg) (carryOf s.regs)) s (opDecReg reg s).1 := by
  have he : (opDecReg reg s).1 = s.updRegs fun r =>
      { r with f := packF r.f (Sm83.decFlags (s.regs.get reg) (carryOf s.regs)) }.set
        (subValue (s.regs.get reg) 1 false) reg := by
    unfold opDecReg
    dsimp only
    refine updRegs_congr ?_
    rw [carryOf, ← dec_flags, ← sub_one_eq]
  rw [he]
  exact .reg reg ho

/-- **INC.** -/
theorem inc_steps8 (o : Sm83.Operand) (s : Emu) (hmem : o = .indHl → IsMemory s.regs.hl) :
    Steps8 o (addValue (operandOf s o) 1 false)
      (Sm83.incFlags (operandOf s o) (carryOf s.regs)) s (handler (.inc o) s).1 := by
  cases o with
  | indHl =>
      show Steps8 .indHl (addValue (monitorRdMem s s.regs.hl) 1 false) _ s (opIncIndHl s).1
      rw [← add_one_eq]
      refine steps8_indHl (hmem rfl)
        (fun f => setFlag (boolToFlag flagHcarry
          (isAddHalfCarry (u8 (monitorRdMem s s.regs.hl)) 1))
            (unsetFlag (flagZero ||| flagHcarry ||| flagSub) f))
        (fun f => setFlag (boolToFlag flagZero (monitorRdMem s s.regs.hl + 1 == 0)) f) ?_
      have hzero : (monitorRdMem s s.regs.hl + 1 == 0) =
          isAddZero (u8 (monitorRdMem s s.regs.hl)) 1 := by
        rw [isAddZero, add_one_eq, ← add_value (isByte_u8 1), add_b1_false]
        rfl
      rw [carryOf, ← inc_flags, hzero]
      simp only [setFlag, unsetFlag]
      ac_rfl
  | b | c | d | e | h | l | a => exact opIncReg_steps8 rfl s

/-- **DEC.** -/
theorem dec_steps8 (o : Sm83.Operand) (s : Emu) (hmem : o = .indHl → IsMemory s.regs.hl) :
    Steps8 o (subValue (operandOf s o) 1 false)
      (Sm83.decFlags (operandOf s o) (carryOf s.regs)) s (handler (.dec o) s).1 := by
  cases o with
  | indHl =>
      show Steps8 .indHl (subValue (monitorRdMem s s.regs.hl) 1 false) _ s (opDecIndHl s).1
      rw [← sub_one_eq]
      refine steps8_indHl (hmem rfl)
        (fun f => setFlag flagSub (setFlag (boolToFlag flagHcarry
          (isSubHalfCarry (u8 (monitorRdMem s s.regs.hl)) 1))
            (unsetFlag (flagZero ||| flagHcarry) f)))
        (fun f => setFlag (boolToFlag flagZero (monitorRdMem s s.regs.hl - 1 == 0)) f) ?_
      have hzero : (monitorRdMem s s.regs.hl - 1 == 0) =
          isSubZero (u8 (monitorRdMem s s.regs.hl)) 1 := by
        rw [isSubZero, sub_one_eq, ← sub_value (isByte_u8 1), add_b1_false]
        rfl
      rw [carryOf, ← dec_flags, hzero]
      simp only [setFlag]
      ac_rfl
  | b | c | d | e | h | l | a => exact opDecReg_steps8 rfl s

/-! ## The opcodes -/

/-- The opcodes of the immediates, of INC and of DEC. -/
def immediateOpcodes : List U8 := [0xc6, 0xce, 0xd6, 0xde, 0xe6, 0xee, 0xf6, 0xfe]
def incOpcodes : List U8 := [0x04, 0x0c, 0x14, 0x1c, 0x24, 0x2c, 0x34, 0x3c]
def decOpcodes : List U8 := [0x05, 0x0d, 0x15, 0x1d, 0x25, 0x2d, 0x35, 0x3d]

/-- The fields of the opcodes of a list. -/
theorem fields_of_mem {l : List U8} {x z : Nat}
    (hl : l.Forall fun n => n.toNat / 64 = x ∧ n.toNat % 8 = z ∧ n ≠ 0xcb) {op : U8} (h : op ∈ l) :
    op.toNat / 64 = x ∧ op.toNat % 8 = z ∧ op ≠ 0xcb :=
  List.forall_iff_forall_mem.mp hl op h

/-- What an operation with operand `v` does, `len` bytes long. -/
def aluStep (k : Sm83.Alu) (v : U8) (len : U16) (s : Emu) : Emu :=
  { s with regs := { s.regs with
      a := k.value s.regs.a v (carryOf s.regs)
      f := packF s.regs.f (k.flags s.regs.a v (carryOf s.regs))
      pc := s.regs.pc + len } }

@[simp] theorem operandOf_advancePc (n : U16) (s : Emu) (o : Sm83.Operand) :
    operandOf (advancePc n s) o = operandOf s o := by
  cases o <;> rfl

section

variable {s : Emu} {op : U8}

/-- The block of the operations between registers. -/
theorem fetchDispatch_alu (hop : monitorRdMem s s.regs.pc = op) (h : 0x80 ≤ op ∧ op ≤ 0xbf) :
    fetchDispatch s = aluStep (.ofField (op.toNat / 8 % 8))
      (operandOf s (.ofField (op.toNat % 8))) 1 s := by
  subst hop
  obtain ⟨hlo, hhi⟩ := h
  have hx : (monitorRdMem s s.regs.pc).toNat / 64 = 2 := by bv_omega
  rw [fetchDispatch_eq (show monitorRdMem s s.regs.pc ≠ 0xcb by bv_omega), Sm83.decode, hx]
  show (aluHandler _ _ (advancePc 1 s)).1 = _
  rw [aluHandler_eq, operandOf_advancePc]
  rfl

/-- The operations with an immediate. -/
theorem fetchDispatch_aluImm (hop : monitorRdMem s s.regs.pc = op) (h : op ∈ immediateOpcodes) :
    fetchDispatch s = aluStep (.ofField (op.toNat / 8 % 8))
      (monitorRdMem s (s.regs.pc + 1)) 2 s := by
  subst hop
  obtain ⟨hx, hz, hcb⟩ := fields_of_mem (x := 3) (z := 6) (by decide) h
  have hpc : s.regs.pc + 1 + 1 = s.regs.pc + 2 := BitVec.add_assoc ..
  rw [fetchDispatch_eq hcb, Sm83.decode, hx, hz]
  show (aluImmHandler _ (advancePc 1 s)).1 = _
  rw [aluImmHandler_eq, aluStep, ← hpc]
  rfl

theorem decode_inc (h : op ∈ incOpcodes) :
    Sm83.decode op = .inc (.ofField (op.toNat / 8 % 8)) ∧ op ≠ 0xcb := by
  obtain ⟨hx, hz, hcb⟩ := fields_of_mem (x := 0) (z := 4) (by decide) h
  refine ⟨?_, hcb⟩
  rw [Sm83.decode, hx, hz]
  rfl

theorem decode_dec (h : op ∈ decOpcodes) :
    Sm83.decode op = .dec (.ofField (op.toNat / 8 % 8)) ∧ op ≠ 0xcb := by
  obtain ⟨hx, hz, hcb⟩ := fields_of_mem (x := 0) (z := 5) (by decide) h
  refine ⟨?_, hcb⟩
  rw [Sm83.decode, hx, hz]
  rfl

end

/-- **The ALU instructions are exact**, by their opcodes: bits 3 to 5 select the
operation, the low three bits the operand. -/
theorem alu_exact (s : Emu) :
    let op := monitorRdMem s s.regs.pc
    let y := op.toNat / 8 % 8
    let o := Sm83.Operand.ofField y
    (0x80 ≤ op ∧ op ≤ 0xbf → fetchDispatch s =
      aluStep (.ofField y) (operandOf s (.ofField (op.toNat % 8))) 1 s) ∧
    (op ∈ immediateOpcodes → fetchDispatch s =
      aluStep (.ofField y) (monitorRdMem s (s.regs.pc + 1)) 2 s) ∧
    (op ∈ incOpcodes → (o = .indHl → IsMemory s.regs.hl) →
      Steps8 o (addValue (operandOf s o) 1 false)
        (Sm83.incFlags (operandOf s o) (carryOf s.regs)) (advancePc 1 s) (fetchDispatch s)) ∧
    (op ∈ decOpcodes → (o = .indHl → IsMemory s.regs.hl) →
      Steps8 o (subValue (operandOf s o) 1 false)
        (Sm83.decFlags (operandOf s o) (carryOf s.regs)) (advancePc 1 s) (fetchDispatch s)) := by
  intro op y o
  refine ⟨fetchDispatch_alu rfl, fetchDispatch_aluImm rfl, fun hop hmem => ?_, fun hop hmem => ?_⟩
  · obtain ⟨hdecode, hcb⟩ := decode_inc hop
    rw [fetchDispatch_eq hcb, hdecode, ← operandOf_advancePc 1]
    exact inc_steps8 o (advancePc 1 s) hmem
  · obtain ⟨hdecode, hcb⟩ := decode_dec hop
    rw [fetchDispatch_eq hcb, hdecode, ← operandOf_advancePc 1]
    exact dec_steps8 o (advancePc 1 s) hmem

/-- ADD A,5 at power-on. -/
theorem alu_exact_add :
    fetchDispatch (powerOn #[0xc6, 5] #[]) = aluStep .add 5 2 (powerOn #[0xc6, 5] #[]) := by
  have hop : monitorRdMem (powerOn #[0xc6, 5] #[]) 0 = 0xc6 := by decide +kernel
  have hv : monitorRdMem (powerOn #[0xc6, 5] #[]) 1 = 5 := by decide +kernel
  have h := (alu_exact (powerOn #[0xc6, 5] #[])).2.1
  have hpc : (powerOn #[0xc6, 5] #[]).regs.pc = 0 := rfl
  rw [hpc, hop] at h
  refine (h (by decide)).trans ?_
  rw [show (0 : U16) + 1 = 1 from rfl, hv]
  rfl

end RealBoy
