/-
# `RealBoy.Cpu.FlagBits` — the low half of F

F has four flags, in its upper half.  The macros set a flag by an OR with its
bit, or with a byte shifted to its place, and unset one by an AND; so the lower
half stays clear.  The one handler that stores a byte into F as it stands is POP
AF, which masks it.  The low half is clear after every instruction
(`FlagsLow.handler`), and in every run (`Reachable.flagsLow`).
-/
import RealBoy.Cpu.Peek
import RealBoy.Lib.Clear

namespace RealBoy

open Emu
open Sm83 (Instr Operand)

/-- The low four bits of a byte are clear. -/
def LowClear (v : U8) : Prop := Clear 0x0f v

/-! ## The macros -/

@[simp] theorem lowClear_flagZero : LowClear flagZero := rfl
@[simp] theorem lowClear_flagSub : LowClear flagSub := rfl
@[simp] theorem lowClear_flagHcarry : LowClear flagHcarry := rfl
@[simp] theorem lowClear_flagCarry : LowClear flagCarry := rfl

@[simp] theorem lowClear_or {v v' : U8} : LowClear (v ||| v') ↔ LowClear v ∧ LowClear v' :=
  Clear.or_iff

@[simp] theorem lowClear_setFlag {flag f : U8} :
    LowClear (setFlag flag f) ↔ LowClear f ∧ LowClear flag := Clear.or_iff

@[simp] theorem lowClear_unsetFlag {f : U8} (h : LowClear f) (flag : U8) :
    LowClear (unsetFlag flag f) := h.and_right _

@[simp] theorem lowClear_unsetFlagsAll {f : U8} (h : LowClear f) : LowClear (unsetFlagsAll f) :=
  h.and_right _

@[simp] theorem lowClear_boolToFlag {flag : U8} (h : LowClear flag) (x : Bool) :
    LowClear (boolToFlag flag x) := h.ite (.zero _)

theorem lowClear_ite {c : Prop} [Decidable c] {v v' : U8} (h : LowClear v) (h' : LowClear v') :
    LowClear (if c then v else v') := Clear.ite h h'

/-- A flag set by a condition. -/
theorem LowClear.set {f flag : U8} (h : LowClear f) (hflag : LowClear flag) (x : Bool) :
    LowClear (setFlag (boolToFlag flag x) f) :=
  lowClear_setFlag.mpr ⟨h, lowClear_boolToFlag hflag x⟩

/-- The mask of POP AF. -/
theorem lowClear_and_high (v : U8) : LowClear (v &&& 0xf0) :=
  Clear.and_left (by decide) v

/-- A byte shifted to the upper half. -/
@[simp] theorem lowClear_shiftLeft (v : U8) : LowClear (v <<< 4) :=
  Clear.shiftLeft (by decide) v

/-! ## The operations on A and F -/

section

variable {r : Registers} (h : LowClear r.f)

include h

theorem lowClear_doAdd (op : CInt) : LowClear (doAdd op r).f := by simp [doAdd, h]
theorem lowClear_doAdc (op : CInt) : LowClear (doAdc op r).f := by simp [doAdc, h]
theorem lowClear_adcWord (word : U8) : LowClear (adcWord word r).f := by simp [adcWord, h]
theorem lowClear_doSub (op : CInt) : LowClear (doSub op r).f := by simp [doSub, h]
theorem lowClear_doSbc (op : CInt) : LowClear (doSbc op r).f := by simp [doSbc, h]
theorem lowClear_sbcWord (word : U8) : LowClear (sbcWord word r).f := by simp [sbcWord, h]
theorem lowClear_doAnd (value : U8) : LowClear (doAnd value r).f := by simp [doAnd, h]
theorem lowClear_doXor (value : U8) : LowClear (doXor value r).f := by simp [doXor, h]
theorem lowClear_doOr (value : U8) : LowClear (doOr value r).f := by simp [doOr, h]
theorem lowClear_doCp (value : U8) : LowClear (doCp value r).f := by simp [doCp, h]

/-- DAA changes the zero and the carry flag by the result, and unsets the half
carry. -/
theorem lowClear_daa : LowClear (daa r).f := by
  have hunset : LowClear (unsetFlag flagHcarry r.f) := by simp [h]
  have hset : LowClear (setFlag flagCarry (unsetFlag flagHcarry r.f)) := by simp [h]
  unfold daa
  dsimp only
  refine lowClear_ite ?_ ?_
  · exact lowClear_setFlag.mpr ⟨lowClear_ite hset hunset, lowClear_flagZero⟩
  · exact lowClear_unsetFlag (lowClear_ite hset hunset) flagZero

end

/-- The eight shifts and rotates. -/
theorem lowClear_doShift (k : Sm83.Shift) (value : U8) {f : U8} (h : LowClear f) :
    LowClear (doShift k value f).2 := by
  cases k with
  | rlc => simp [doShift, doRlc, h]
  | rrc => simp [doShift, doRrc, h]
  | rl => simp [doShift, doRl, h]
  | rr => simp [doShift, doRr, h]
  | sla => simp [doShift, doSla, h]
  | sra => simp [doShift, doSra, h]
  | swap => simp [doShift, doSwp, h]
  | srl => simp [doShift, doSrl, h]

theorem lowClear_doBit (bitMask value : U8) {f : U8} (h : LowClear f) :
    LowClear (doBit bitMask value f).2 := by
  simp [doBit, h]

/-! ## The handlers -/

/-- F has no bit but the four flags. -/
def FlagsLow (s : Emu) : Prop := LowClear s.regs.f

theorem updRegs_f (g : Registers → Registers) (s : Emu) : (s.updRegs g).regs.f = (g s.regs).f := rfl

theorem advancePc_f (x : U16) (s : Emu) : (advancePc x s).regs.f = s.regs.f := by
  rw [advancePc, updRegs_f]

theorem setPc_f (addr : U16) (s : Emu) : (setPc addr s).regs.f = s.regs.f := by
  rw [setPc, updRegs_f]

theorem addReg16_f (rr : Sm83.Pair) (x : U16) (s : Emu) :
    (addReg16 (pairOf rr) x s).regs.f = s.regs.f := by
  rw [addReg16, updRegs_f]
  cases rr <;> rfl

namespace FlagsLow

variable {s : Emu} (h : FlagsLow s)

include h

/-- What leaves F alone. -/
theorem of_f {s' : Emu} (hf : s'.regs.f = s.regs.f) : FlagsLow s' := by
  rw [FlagsLow, hf]
  exact h

theorem write (addr : U16) (value : U8) : FlagsLow (monitorWrMem addr value s) :=
  h.of_f (congrArg Registers.f (monitorWrMem_keeps_regs addr value s))

theorem updCpu (f : CpuState → CpuState) : FlagsLow (s.updCpu f) := h

theorem wrWord (addr value : Emu → U16) : FlagsLow (wrWord addr value s) := by
  unfold RealBoy.wrWord
  exact (h.write _ _).write _ _

theorem push (value : Emu → U16) : FlagsLow (push value s) := by
  have hsp : FlagsLow (addReg16 .sp (-2) s) := h.of_f (addReg16_f .sp _ s)
  unfold RealBoy.push
  exact hsp.wrWord _ _

theorem opPushReg (reg : Reg16) : FlagsLow (opPushReg reg s).1 := by
  unfold RealBoy.opPushReg
  dsimp only
  exact h.push _

theorem opCallA16 : FlagsLow (opCallA16 s).1 := by
  have hpc : FlagsLow (advancePc 2 s) := h.of_f (advancePc_f 2 s)
  exact (hpc.push _).of_f (setPc_f _ _)

theorem opCallCond (cond : Cond) : FlagsLow (opCallCond cond s).1 := by
  unfold RealBoy.opCallCond
  split
  · exact h.opCallA16
  · exact h

theorem doRet : FlagsLow (doRet s) := h.of_f ((addReg16_f .sp _ _).trans (setPc_f _ s))

theorem opRetCond (cond : Cond) : FlagsLow (opRetCond cond s).1 := by
  unfold RealBoy.opRetCond
  split
  · exact h.doRet
  · exact h

theorem opJmpCond (cond : Cond) : FlagsLow (opJmpCond cond s).1 := by
  unfold RealBoy.opJmpCond
  split <;> exact h

theorem opJrCond (cond : Cond) : FlagsLow (opJrCond cond s).1 := by
  unfold RealBoy.opJrCond
  split <;> exact h

theorem ldHandler (dst src : Operand) : FlagsLow (ldHandler dst src s).1 := by
  cases dst with
  | indHl =>
      cases src with
      | indHl => exact h
      | _ => exact h.write _ _
  | _ => cases src <;> exact h

theorem aluHandler (k : Sm83.Alu) (o : Operand) : FlagsLow (aluHandler k o s).1 := by
  cases k with
  | add => cases o <;> exact lowClear_doAdd h _
  | adc =>
      cases o with
      | indHl => exact lowClear_adcWord h _
      | _ => exact lowClear_doAdc h _
  | sub => cases o <;> exact lowClear_doSub h _
  | sbc =>
      cases o with
      | indHl => exact lowClear_sbcWord h _
      | _ => exact lowClear_doSbc h _
  | and => cases o <;> exact lowClear_doAnd h _
  | xor => cases o <;> exact lowClear_doXor h _
  | or => cases o <;> exact lowClear_doOr h _
  | cp => cases o <;> exact lowClear_doCp h _

theorem aluImmHandler (k : Sm83.Alu) : FlagsLow (aluImmHandler k s).1 := by
  cases k with
  | add => exact lowClear_doAdd (r := (advancePc 1 s).regs) h _
  | adc => exact lowClear_adcWord h _
  | sub => exact lowClear_doSub (r := (advancePc 1 s).regs) h _
  | sbc => exact lowClear_sbcWord h _
  | and => exact lowClear_doAnd (r := (advancePc 1 s).regs) h _
  | xor => exact lowClear_doXor (r := (advancePc 1 s).regs) h _
  | or => exact lowClear_doOr (r := (advancePc 1 s).regs) h _
  | cp => exact lowClear_doCp (r := (advancePc 1 s).regs) h _

/-- A handler of the 0xcb page, by its macro. -/
theorem writeBackHandler {doOp : U8 → U8 → U8 × U8}
    (hop : ∀ value f, LowClear f → LowClear (doOp value f).2) (o : Operand) :
    FlagsLow (writeBackHandler doOp o s).1 := by
  cases o with
  | indHl =>
      refine FlagsLow.write ?_ _ _
      exact hop _ _ h
  | _ => exact hop _ _ h

/-- **An instruction**, by the instruction set. -/
theorem handler (i : Instr) : FlagsLow (handler i s).1 := by
  cases i with
  | nop | prefixByte | undefined | stop | halt | di | ei => exact h
  | daa => exact lowClear_daa h
  | cpl =>
      exact lowClear_setFlag.mpr ⟨h, lowClear_or.mpr ⟨lowClear_flagSub, lowClear_flagHcarry⟩⟩
  | scf => exact lowClear_unsetFlag (lowClear_setFlag.mpr ⟨h, lowClear_flagCarry⟩) _
  | ccf => exact lowClear_unsetFlag ((lowClear_unsetFlag h _).set lowClear_flagCarry _) _
  | ld dst src => exact h.ldHandler dst src
  | ldImm o =>
      cases o with
      | indHl => exact (h.write _ _).of_f (advancePc_f _ _)
      | _ => exact h
  | ldPairImm rr => cases rr <;> exact h
  | storeA p =>
      cases p with
      | bc | de => exact h.write _ _
      | hlInc | hlDec => exact (h.write _ _).of_f (addReg16_f .hl _ _)
  | loadA p => cases p <;> exact h
  | ldA16Sp => exact (h.wrWord _ _).of_f (advancePc_f _ _)
  | ldA16A | ldhA8A => exact (h.write _ _).of_f (advancePc_f _ _)
  | ldhCA => exact h.write _ _
  | ldAA16 | ldhAA8 | ldhAC | ldSpHl => exact h
  | ldHlSpE8 | addSpE8 =>
      exact ((lowClear_unsetFlagsAll h).set lowClear_flagHcarry _).set lowClear_flagCarry _
  | inc o =>
      cases o with
      | indHl =>
          have hset : FlagsLow (s.updRegs fun r =>
              let f := unsetFlag (flagZero ||| flagHcarry ||| flagSub) r.f
              { r with f := setFlag (boolToFlag flagHcarry
                (isAddHalfCarry (u8 (monitorRdMem s s.regs.hl)) 1)) f }) :=
            (lowClear_unsetFlag h _).set lowClear_flagHcarry _
          exact LowClear.set (hset.write _ _) lowClear_flagZero _
      | _ => exact ((lowClear_unsetFlag h _).set lowClear_flagZero _).set lowClear_flagHcarry _
  | dec o =>
      cases o with
      | indHl =>
          have hset : FlagsLow (s.updRegs fun r =>
              let f := unsetFlag (flagZero ||| flagHcarry) r.f
              let f := setFlag (boolToFlag flagHcarry
                (isSubHalfCarry (u8 (monitorRdMem s s.regs.hl)) 1)) f
              { r with f := setFlag flagSub f }) :=
            lowClear_setFlag.mpr
              ⟨(lowClear_unsetFlag h _).set lowClear_flagHcarry _, lowClear_flagSub⟩
          exact LowClear.set (hset.write _ _) lowClear_flagZero _
      | _ =>
          refine lowClear_setFlag.mpr ⟨?_, lowClear_flagSub⟩
          exact ((lowClear_unsetFlag h _).set lowClear_flagZero _).set lowClear_flagHcarry _
  | incPair rr | decPair rr => exact h.of_f (addReg16_f rr _ s)
  | addHl rr =>
      exact ((lowClear_unsetFlag h _).set lowClear_flagCarry _).set lowClear_flagHcarry _
  | alu k o => exact h.aluHandler k o
  | aluImm k => exact h.aluImmHandler k
  | rotA k => exact lowClear_unsetFlag (lowClear_doShift k _ h) _
  | jp cc =>
      cases cc with
      | none => exact h
      | some cc => exact h.opJmpCond _
  | jpHl => exact h
  | jr cc =>
      cases cc with
      | none => exact h
      | some cc => exact h.opJrCond _
  | call cc =>
      cases cc with
      | none => exact h.opCallA16
      | some cc => exact h.opCallCond _
  | ret cc =>
      cases cc with
      | none => exact h.doRet
      | some cc => exact h.opRetCond _
  | reti => exact h.doRet
  | rst n => exact (h.push _).of_f (setPc_f _ _)
  | push rr => exact h.opPushReg (stackPairOf rr)
  | pop rr =>
      cases rr with
      | af => exact lowClear_and_high _
      | _ =>
          refine h.of_f ((addReg16_f .sp _ _).trans ?_)
          rw [updRegs_f]
          rfl
  | shift k o => exact h.writeBackHandler (fun value f hf => lowClear_doShift k value hf) o
  | bit n o => cases o <;> exact lowClear_doBit _ _ h
  | res n o => exact h.writeBackHandler (fun value f hf => hf) o
  | set n o => exact h.writeBackHandler (fun value f hf => hf) o

theorem fetch : FlagsLow (fetch s).2.2 := h.of_f (fetch_f s)

theorem execInstr : FlagsLow (execInstr s).1 := by
  unfold RealBoy.execInstr
  split
  · exact h
  · have hop : FlagsLow (opsTableDispatch (RealBoy.fetch s).1 (RealBoy.fetch s).2.1
        (RealBoy.fetch s).2.2).1 := by
      rw [dispatch_eq]
      exact h.fetch.handler _
    exact hop.updCpu _

/-- The interrupt scan pushes PC and leaves F alone. -/
theorem intrStep (intrMask : U8) : FlagsLow (intrStep s intrMask) := by
  unfold RealBoy.intrStep
  split
  · dsimp only
    split
    · exact (((h.updCpu _).updCpu _).push _).of_f (setPc_f _ _)
    · exact h.updCpu _
  · exact h

theorem handleIntrs : FlagsLow (handleIntrs s) := by
  unfold RealBoy.handleIntrs
  split
  · exact List.foldlRecOn _ _ h fun s hs i _ => hs.intrStep _
  · exact h

/-- **A step.** -/
theorem cpuExecNext : FlagsLow (cpuExecNext s).1 := by
  have hbefore : FlagsLow (beforeIntrs s) :=
    FlagsLow.of_f (h.execInstr.updCpu _) (congrArg Registers.f (advanceTima_regs _ _))
  exact hbefore.handleIntrs

end FlagsLow

theorem flagsLow_refreshClosed : RefreshClosed FlagsLow where
  ppu _ _ h := h
  request _ _ _ h := h
  call _ _ _ h := h

/-- **F in every run.** -/
theorem Reachable.flagsLow {s : Emu} (h : Reachable s) : FlagsLow s := by
  induction h with
  | powerOn rom boot => exact Clear.zero _
  | act a _ ih =>
      cases a with
      | exec => exact ih.cpuExecNext
      | refresh ticks => exact flagsLow_refreshClosed.ppuRefresh ih ticks
      | write addr value => exact ih.write addr value
  | keys k _ ih => exact ih

/-- **The low half of F** is clear in every reachable state, after a step from
it, and after each of the 512 table entries. -/
theorem reachable_f_low {s : Emu} (h : Reachable s) :
    s.regs.f &&& 0x0f = 0 ∧ (cpuExecNext s).1.regs.f &&& 0x0f = 0 ∧
      ∀ op opIsPrefix, (opsTableDispatch op opIsPrefix s).1.regs.f &&& 0x0f = 0 := by
  refine ⟨h.flagsLow, h.flagsLow.cpuExecNext, ?_⟩
  intro op opIsPrefix
  rw [dispatch_eq]
  exact h.flagsLow.handler _

/-- POP AF of its own opcode and 0xff, the first two bytes of the boot ROM. -/
theorem reachable_f_low_popAf :
    (cpuExecNext (powerOn #[] #[0xf1, 0xff])).1.regs.a = 0xff ∧
      (cpuExecNext (powerOn #[] #[0xf1, 0xff])).1.regs.f &&& 0x0f = 0 :=
  ⟨by decide +kernel, (reachable_f_low (.powerOn #[] #[0xf1, 0xff])).2.1⟩

end RealBoy
