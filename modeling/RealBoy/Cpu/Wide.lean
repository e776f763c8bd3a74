/-
# `RealBoy.Cpu.Wide` — the 16-bit additions

ADD HL,rr gets its carries out of words: the carry as a wrap of HL, the half
carry out of bit 12.  ADD SP,e8 and LD HL,SP+e8 add a signed byte, and find the
carry of the low bytes afterwards, by comparing the sum with the operand, first
as numbers and then by their low bytes.  All of them are exact (`wide_additions`).
-/
import RealBoy.Cpu.Regular

namespace RealBoy

open Emu

/-! ## A word and a signed byte -/

/-- The flags of a word and an offset: the carries of the low byte. -/
def offsetFlags (x : U16) (e : U8) : Sm83.Flags where
  z := false
  n := false
  h := 16 ≤ x.toNat % 16 + e.toNat % 16
  c := 256 ≤ x.toNat % 256 + e.toNat

theorem signExtend_toNat {w : Nat} (hw : 8 ≤ w) (e : U8) :
    (e.signExtend w).toNat = e.toNat + if e.toNat < 128 then 0 else 2 ^ w - 256 := by
  have hfits : e.toNat < 2 ^ w := Nat.lt_of_lt_of_le e.isLt (Nat.pow_le_pow_right (by decide) hw)
  rw [BitVec.toNat_signExtend, BitVec.toNat_setWidth, Nat.mod_eq_of_lt hfits, BitVec.msb_eq_decide]
  by_cases hlow : e.toNat < 128
  · rw [if_pos hlow, decide_eq_false (Nat.not_le.mpr hlow)]
    rfl
  · rw [if_neg hlow, decide_eq_true (Nat.not_lt.mp hlow)]
    rfl

/-- The sum of the promoted operands, in 16 bits. -/
theorem offset_sum (x : U16) (e : U8) :
    (u16 x + s8 e).setWidth 16 = x + e.signExtend 16 := by
  refine BitVec.eq_of_toNat_eq ?_
  rw [BitVec.toNat_setWidth, BitVec.toNat_add, BitVec.toNat_add, u16, s8, BitVec.toNat_setWidth,
    signExtend_toNat (by decide), signExtend_toNat (by decide)]
  split <;> omega

theorem offset_half (x : U16) (e : U8) :
    isAddHalfCarry (u16 x) (s8 e) = (offsetFlags x e).h := by
  have hbit := Sm83.xor_add_bit (u16 x) (s8 e) false (i := 4) (by decide)
  rw [← b1_eq, ← Sm83.and_twoPow_ne_zero _ 4 (by decide), add_b1_false] at hbit
  have hx : (u16 x).toNat = x.toNat := BitVec.toNat_setWidth_of_le (by decide)
  have he : (s8 e).toNat % 256 = e.toNat := isByte_s8 e
  refine hbit.trans (decide_eq_decide.mpr ?_)
  rw [hx, Bool.toNat_false]
  omega

/-- The low byte of the sum is below the operand just when it wrapped, and the
sum itself is only then. -/
theorem offset_carry (x : U16) (e : U8) :
    spCarry (x + e.signExtend 16) e = (offsetFlags x e).c := by
  have hx := x.isLt
  have he := e.isLt
  have hsum : (x + e.signExtend 16).toNat =
      (x.toNat + (e.toNat + if e.toNat < 128 then 0 else 2 ^ 16 - 256)) % 2 ^ 16 := by
    rw [BitVec.toNat_add, signExtend_toNat (by decide)]
  have hlow : ((x + e.signExtend 16).extractLsb' 0 8).toNat =
      (x.toNat % 256 + e.toNat) % 256 := by
    rw [BitVec.extractLsb'_toNat, hsum, Nat.shiftRight_zero]
    split <;> omega
  have hint : e.toInt = if e.toNat < 128 then (e.toNat : Int) else e.toNat - 256 := by
    rw [BitVec.toInt_eq_toNat_cond]
    split <;> split <;> omega
  rw [spCarry, ← Bool.decide_or]
  refine decide_eq_decide.mpr ?_
  rw [BitVec.lt_def, hlow, hsum, hint]
  split <;> omega

theorem offset_flags (f : U8) (x : U16) (e : U8) :
    setFlag (boolToFlag flagCarry (spCarry (x + e.signExtend 16) e))
        (setFlag (boolToFlag flagHcarry (isAddHalfCarry (u16 x) (s8 e))) (unsetFlagsAll f)) =
      packF f (offsetFlags x e) := by
  rw [offset_half, offset_carry, packF, unsetFlagsAll_eq]
  have hzero : (f &&& 0x0f) ||| boolToFlag flagZero false ||| boolToFlag flagSub false =
      f &&& 0x0f := BitVec.or_zero.trans BitVec.or_zero
  show setFlag _ (setFlag _ _) = _ ||| boolToFlag flagZero false ||| boolToFlag flagSub false ||| _ ||| _
  rw [hzero]
  rfl

/-! ## Words -/

/-- The flags of a sum of words; the zero flag is not its own. -/
def wordFlags (x y : U16) (z : Bool) : Sm83.Flags where
  z := z
  n := false
  h := 4096 ≤ x.toNat % 4096 + y.toNat % 4096
  c := 65536 ≤ x.toNat + y.toNat

theorem word_half (x y : U16) : isAdd16HalfCarry (u16 x) (u16 y) = (wordFlags x y false).h := by
  have hbit := Sm83.xor_add_bit (u16 x) (u16 y) false (i := 12) (by decide)
  rw [← b1_eq, ← Sm83.and_twoPow_ne_zero _ 12 (by decide), add_b1_false] at hbit
  have hwide (x : U16) : (u16 x).toNat = x.toNat := BitVec.toNat_setWidth_of_le (by decide)
  refine hbit.trans (decide_eq_decide.mpr ?_)
  rw [hwide, hwide, Bool.toNat_false]
  exact Iff.rfl

theorem word_carry (x y : U16) : isAdd16Carry x (u16 y) = (wordFlags x y false).c := by
  have hx := x.isLt
  have hy := y.isLt
  refine decide_eq_decide.mpr ?_
  rw [BitVec.lt_def, BitVec.toNat_setWidth, BitVec.toNat_add, u16, u16, BitVec.toNat_setWidth,
    BitVec.toNat_setWidth]
  omega

theorem word_flags (f : U8) (x y : U16) :
    setFlag (boolToFlag flagHcarry (isAdd16HalfCarry (u16 x) (u16 y)))
        (setFlag (boolToFlag flagCarry (isAdd16Carry x (u16 y)))
          (unsetFlag (flagCarry ||| flagHcarry ||| flagSub) f)) =
      packF f (wordFlags x y (bit f flagZero)) := by
  have hkeep : unsetFlag (flagCarry ||| flagHcarry ||| flagSub) f =
      (f &&& 0x0f) ||| boolToFlag flagZero (bit f flagZero) ||| boolToFlag flagSub false := by
    revert f
    decide +kernel
  rw [word_half, word_carry, hkeep, packF]
  show setFlag (boolToFlag flagHcarry (wordFlags x y false).h) _ = _ ||| boolToFlag flagZero _ |||
    boolToFlag flagSub false ||| boolToFlag flagHcarry (wordFlags x y false).h |||
      boolToFlag flagCarry (wordFlags x y false).c
  simp only [setFlag]
  ac_rfl

/-! ## The handlers -/

theorem opAddSpE8_eq (s : Emu) :
    let e := monitorRdMem s s.regs.pc
    (opAddSpE8 s).1 = (advancePc 1 s).updRegs fun r =>
      { r with
        sp := s.regs.sp + e.signExtend 16
        f := packF s.regs.f (offsetFlags s.regs.sp e) } := by
  intro e
  unfold opAddSpE8
  dsimp only
  rw [offset_sum, offset_flags]
  rfl

theorem opLdHlSpE8_eq (s : Emu) :
    let e := monitorRdMem s s.regs.pc
    (opLdHlSpE8 s).1 = (advancePc 1 s).updRegs fun r =>
      { r with f := packF s.regs.f (offsetFlags s.regs.sp e) }.set16
        (s.regs.sp + e.signExtend 16) .hl := by
  intro e
  unfold opLdHlSpE8
  dsimp only
  rw [offset_sum, offset_flags]
  rfl

/-- Also with HL itself as the operand: both tests come before the sum. -/
theorem opAddReg16_eq (reg : Reg16) (s : Emu) :
    let v := s.regs.get16 reg
    (opAddReg16 reg s).1 = s.updRegs fun r =>
      { r with f := packF s.regs.f (wordFlags s.regs.hl v (bit s.regs.f flagZero)) }.set16
        (s.regs.hl + v) .hl := by
  intro v
  unfold opAddReg16
  dsimp only
  rw [← word_flags]
  rfl

/-! ## The instructions -/

/-- ADD HL,BC .. ADD HL,SP. -/
def addHlOpcode : Sm83.Pair → U8
  | .bc => 0x09
  | .de => 0x19
  | .hl => 0x29
  | .sp => 0x39

theorem decode_addHl (rr : Sm83.Pair) :
    Sm83.decode (addHlOpcode rr) = .addHl rr ∧ addHlOpcode rr ≠ 0xcb := by
  cases rr <;> decide

/-- **The 16-bit additions are exact.** -/
theorem wide_additions (s : Emu) :
    let op := monitorRdMem s s.regs.pc
    let e := monitorRdMem s (s.regs.pc + 1)
    let offset := s.regs.sp + e.signExtend 16
    (op = 0xe8 → fetchDispatch s = (advancePc 2 s).updRegs fun r =>
      { r with sp := offset, f := packF s.regs.f (offsetFlags s.regs.sp e) }) ∧
    (op = 0xf8 → fetchDispatch s = (advancePc 2 s).updRegs fun r =>
      { r with f := packF s.regs.f (offsetFlags s.regs.sp e) }.set16 offset .hl) ∧
    (∀ rr, op = addHlOpcode rr →
      let v := s.regs.get16 (pairOf rr)
      fetchDispatch s = (advancePc 1 s).updRegs fun r =>
        { r with f := packF s.regs.f (wordFlags s.regs.hl v (bit s.regs.f flagZero)) }.set16
          (s.regs.hl + v) .hl) := by
  intro op e offset
  refine ⟨fun hop => ?_, fun hop => ?_, fun rr hop => ?_⟩
  · have hdecode : Sm83.decode op = .addSpE8 := hop ▸ rfl
    rw [fetchDispatch_eq (show op ≠ 0xcb from hop ▸ by decide), hdecode, advancePc_two]
    exact opAddSpE8_eq (advancePc 1 s)
  · have hdecode : Sm83.decode op = .ldHlSpE8 := hop ▸ rfl
    rw [fetchDispatch_eq (show op ≠ 0xcb from hop ▸ by decide), hdecode, advancePc_two]
    exact opLdHlSpE8_eq (advancePc 1 s)
  · obtain ⟨hdecode, hcb⟩ := decode_addHl rr
    rw [← hop] at hdecode hcb
    rw [fetchDispatch_eq hcb, hdecode]
    have hpair : (advancePc 1 s).regs.get16 (pairOf rr) = s.regs.get16 (pairOf rr) := by
      cases rr <;> rfl
    have hexec := opAddReg16_eq (pairOf rr) (advancePc 1 s)
    rw [hpair] at hexec
    exact hexec

/-- ADD SP,-1 with SP = 1. -/
def addSpProgram : Emu :=
  { ramProgram [0xe8, 0xff] 0 0 0 with regs := { Registers.zero with pc := 0xc000, sp := 1 } }

/-- It leaves 0, with both carries set. -/
theorem wide_additions_sp :
    fetchDispatch addSpProgram = (advancePc 2 addSpProgram).updRegs fun r =>
      { r with sp := 0, f := flagHcarry ||| flagCarry } := by
  have hop : monitorRdMem addSpProgram addSpProgram.regs.pc = 0xe8 := by decide +kernel
  have he : monitorRdMem addSpProgram (addSpProgram.regs.pc + 1) = 0xff := by decide +kernel
  have h := (wide_additions addSpProgram).1 hop
  rw [he] at h
  exact h

end RealBoy
