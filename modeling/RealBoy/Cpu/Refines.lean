/-
# `RealBoy.Cpu.Refines` — the handlers are the SM83's instructions

A state is a register file and everything else: `view` splits it so, with F as
its four flags, and `cpuBus` is the rest of the emulator as a bus.  Every handler
then is `exec` of its instruction, on the nose, bus events included.

Two of them are not, and the states where they are not are known: DAA after a
subtraction that borrowed, and LD (a16),SP where the first of its two writes
changes its operand.  `fetchDispatch_refines_iff` says that there is nothing else
among the opcodes that have a meaning; STOP and the undefined ones have none here.
-/
import RealBoy.Cpu.Decimal
import RealBoy.Cpu.FlagBits
import RealBoy.Cpu.Shifts
import RealBoy.Cpu.StoreSp
import RealBoy.Cpu.Wide
import RealBoy.Lib.Machine

namespace RealBoy

open Emu
open Sm83 (Instr Operand State Cpu)

/-! ## The two halves of a state -/

/-- The emulator without its register file. -/
def bare (s : Emu) : Emu := { s with regs := .zero }

/-- The register file. -/
def cpuOf (r : Registers) : Cpu where
  a := r.a
  b := r.b
  c := r.c
  d := r.d
  e := r.e
  h := r.h
  l := r.l
  flags := .of r.f
  sp := r.sp
  pc := r.pc

/-- A state as the SM83 and what is outside it. -/
def view (s : Emu) : State Emu := ⟨cpuOf s.regs, bare s⟩

/-- The emulator as a bus. -/
def cpuBus : Sm83.Bus Emu where
  rd := monitorRdMem
  wr := monitorWrMem
  ime e := e.cpu.imeEnabled
  setIme := setIme
  halted e := e.cpu.isHalted
  setHalted b e := e.updCpu fun c => { c with isHalted := b }
  pending := pending
  ack b e := e.updCpu fun c => { c with ifReg := c.ifReg &&& ~~~((1 : U8) <<< b) }

/-! ## The bus does not see the register file -/

/-- A test that does not look at the registers. -/
theorem bare_ite {c : Prop} [Decidable c] {s t s' t' : Emu} (hs : s = bare s') (ht : t = bare t') :
    (if c then s else t) = bare (if c then s' else t') := by
  split
  · exact hs
  · exact ht

theorem bare_cpuWr (addr : U16) (value : U8) (s : Emu) :
    cpuWr addr value (bare s) = bare (cpuWr addr value s) := by
  unfold cpuWr
  iterate 9 refine bare_ite rfl ?_
  rfl

theorem bare_wrLcdc (value : U8) (s : Emu) : wrLcdc value (bare s) = bare (wrLcdc value s) := by
  have hoff : ∀ s : Emu, (if value &&& 0x80 = 0 then (bare s).updPpuRegs fun r =>
      { r with stat := r.stat &&& ~~~3 } else bare s) = bare (if value &&& 0x80 = 0 then
        s.updPpuRegs fun r => { r with stat := r.stat &&& ~~~3 } else s) :=
    fun s => bare_ite rfl rfl
  have hreset : (if s.ppu.regs.lcdc &&& 0x80 ≠ value &&& 0x80 then
      (if value &&& 0x80 = 0 then (bare (ppuReset s)).updPpuRegs fun r =>
        { r with stat := r.stat &&& ~~~3 } else bare (ppuReset s)) else bare s) =
      bare (if s.ppu.regs.lcdc &&& 0x80 ≠ value &&& 0x80 then
        (if value &&& 0x80 = 0 then (ppuReset s).updPpuRegs fun r =>
          { r with stat := r.stat &&& ~~~3 } else ppuReset s) else s) :=
    bare_ite (hoff (ppuReset s)) rfl
  exact congrArg (Emu.updPpuRegs · fun r => { r with lcdc := value }) hreset

section

variable {busWr : U16 → U8 → Emu → Emu}
  (h : ∀ addr value s, busWr addr value (bare s) = bare (busWr addr value s))

include h

theorem bare_dmaLoop (page : U16) (s : Emu) :
    dmaLoop busWr page (bare s) = bare (dmaLoop busWr page s) := by
  unfold dmaLoop
  refine List.foldl_hom bare fun s i => ?_
  exact h _ _ s

theorem bare_wrRegWith (addr : U16) (value : U8) (s : Emu) :
    wrRegWith busWr addr value (bare s) = bare (wrRegWith busWr addr value s) := by
  unfold wrRegWith
  refine bare_ite (bare_wrLcdc value s) ?_
  iterate 5 refine bare_ite rfl ?_
  refine bare_ite (bare_dmaLoop h _ s) ?_
  iterate 5 refine bare_ite rfl ?_
  rfl

theorem bare_ppuWrWith (addr : U16) (value : U8) (s : Emu) :
    ppuWrWith busWr addr value (bare s) = bare (ppuWrWith busWr addr value s) := by
  unfold ppuWrWith
  refine bare_ite (bare_wrRegWith h addr value s) ?_
  iterate 4 refine bare_ite rfl ?_
  rfl

theorem bare_monitorWrMemWith (addr : U16) (value : U8) (s : Emu) :
    monitorWrMemWith busWr addr value (bare s) = bare (monitorWrMemWith busWr addr value s) := by
  have hcpu := bare_cpuWr addr value (s.log (.monitorWrMem addr value))
  unfold monitorWrMemWith
  dsimp only
  iterate 6 refine bare_ite hcpu ?_
  refine bare_ite (congrArg (Emu.updMbc1 · (mbc1WrMem addr value)) hcpu) ?_
  refine bare_ite (bare_ppuWrWith h addr value (s.log (.monitorWrMem addr value))) ?_
  iterate 2 refine bare_ite hcpu ?_
  refine bare_ite rfl ?_
  exact bare_ite rfl rfl

end

theorem bare_monitorWrMem (addr : U16) (value : U8) (s : Emu) :
    monitorWrMem addr value (bare s) = bare (monitorWrMem addr value s) := by
  refine bare_monitorWrMemWith (fun addr value s => ?_) addr value s
  exact @bare_monitorWrMemWith (fun _ _ s => s) (fun _ _ _ => rfl) addr value s

-- a write stays a write below, it is not to be computed
attribute [local irreducible] monitorWrMem

/-! ## The halves of what a handler does -/

theorem bare_updRegs (g : Registers → Registers) (s : Emu) : bare (s.updRegs g) = bare s := rfl

theorem view_updRegs (g : Registers → Registers) (s : Emu) :
    view (s.updRegs g) = ⟨cpuOf (g s.regs), bare s⟩ := rfl

theorem view_write (addr : U16) (value : U8) (s : Emu) :
    view (monitorWrMem addr value s) = (view s).onEnv (monitorWrMem addr value) := by
  have hregs := monitorWrMem_keeps_regs addr value s
  have hbare := bare_monitorWrMem addr value s
  show State.mk (cpuOf (monitorWrMem addr value s).regs) (bare (monitorWrMem addr value s)) = _
  rw [hregs, ← hbare]
  rfl

theorem view_advancePc (n : U16) (s : Emu) :
    view (advancePc n s) = (view s).onCpu (Cpu.skip n) := rfl

theorem view_setPc (addr : U16) (s : Emu) : view (setPc addr s) = (view s).jump addr := rfl

/-- A word is written. -/
theorem view_wrWord {addr value : Emu → U16} {s : Emu} {a w : U16} (ha : addr s = a)
    (hw : value s = w)
    (hsame : let s' := monitorWrMem a (w.extractLsb' 0 8) s; addr s' = a ∧ value s' = w) :
    view (wrWord addr value s) = (view s).onEnv (cpuBus.wrWord a w) := by
  obtain ⟨haddr, hvalue⟩ := hsame
  unfold wrWord
  dsimp only
  rw [ha, hw, haddr, hvalue, view_write, view_write]
  rfl

/-- A push of something in the registers. -/
theorem view_push {f : Emu → U16} {s : Emu} {w : U16}
    (hw : ∀ s', s'.regs = { s.regs with sp := s.regs.sp - 2 } → f s' = w) :
    view (push f s) = cpuBus.push w (view s) := by
  have hregs : (addReg16 .sp (-2) s).regs = { s.regs with sp := s.regs.sp - 2 } := by
    rw [BitVec.sub_eq_add_neg]
    rfl
  have hsp : (addReg16 .sp (-2) s).regs.sp = s.regs.sp - 2 := congrArg Registers.sp hregs
  unfold push
  rw [view_wrWord (a := s.regs.sp - 2) (w := w) hsp (hw _ hregs)]
  · have hview : view (addReg16 .sp (-2) s) =
        (view s).onCpu fun r => { r with sp := r.sp - 2 } :=
      State.ext (congrArg cpuOf hregs) (bare_updRegs _ s)
    rw [hview]
    rfl
  · have hkept := monitorWrMem_keeps_regs (s.regs.sp - 2) (w.extractLsb' 0 8) (addReg16 .sp (-2) s)
    exact ⟨(congrArg Registers.sp hkept).trans hsp, hw _ (hkept.trans hregs)⟩

theorem view_doRet (s : Emu) : view (doRet s) = cpuBus.ret (view s) := rfl

/-! ## Flags -/

theorem flagsOf_bits (f : U8) : Sm83.Flags.of f =
    ⟨bit f flagZero, bit f flagSub, bit f flagHcarry, bit f flagCarry⟩ := by
  have hbit (i : Nat) (hi : i < 8) : bit f (BitVec.twoPow 8 i) = f.getLsbD i :=
    Sm83.and_twoPow_ne_zero f i hi
  show _ = Sm83.Flags.mk (bit f (BitVec.twoPow 8 7)) (bit f (BitVec.twoPow 8 6))
    (bit f (BitVec.twoPow 8 5)) (bit f (BitVec.twoPow 8 4))
  rw [hbit 7 (by simp), hbit 6 (by simp), hbit 5 (by simp), hbit 4 (by simp), Sm83.Flags.of]

theorem flagsOf_packF (f : U8) (fl : Sm83.Flags) : Sm83.Flags.of (packF f fl) = fl := by
  obtain ⟨hz, hn, hh, hc⟩ := bit_packF f fl
  rw [flagsOf_bits, hz, hn, hh, hc]

theorem flagsOf_carry (f : U8) : (Sm83.Flags.of f).c = bit f flagCarry := by rw [flagsOf_bits]
theorem flagsOf_zero (f : U8) : (Sm83.Flags.of f).z = bit f flagZero := by rw [flagsOf_bits]

/-- F is its flags, where its low half is clear. -/
theorem flagsOf_byte {f : U8} (h : LowClear f) : (Sm83.Flags.of f).byte = f := by
  have hall : ∀ f : U8, f &&& 0x0f = 0 → (Sm83.Flags.of f).byte = f := by decide
  exact hall f h

/-- The mask of POP AF takes no flag. -/
theorem flagsOf_and_high (f : U8) : Sm83.Flags.of (f &&& 0xf0) = .of f := by
  simp [Sm83.Flags.of]

/-- The carries of SP and a signed byte are those of two bytes. -/
theorem offsetFlags_eq (x : U16) (e : U8) :
    offsetFlags x e = { Sm83.addFlags (Sm83.lo x) e false with z := false } := by
  have hlow : (Sm83.lo x).toNat = x.toNat % 256 := by
    rw [BitVec.extractLsb'_toNat, Nat.shiftRight_zero]
  simp only [offsetFlags, Sm83.addFlags, hlow, Bool.toNat_false, Nat.add_zero]
  congr 3
  omega

theorem cpuOf_withAf (r : Registers) (x : U8) (fl : Sm83.Flags) :
    cpuOf (withAf r x fl) = { cpuOf r with a := x, flags := fl } := by
  show ({ cpuOf r with a := x, flags := .of (packF r.f fl) } : Cpu) = _
  rw [flagsOf_packF]

/-- A branch is taken or not by the same flag. -/
theorem taken_cpuOf (r : Registers) (cc : Option Sm83.Cond) :
    (cpuOf r).taken cc = Sm83.condTaken r.f cc := by
  cases cc with
  | none => rfl
  | some cc => cases cc <;> rfl

theorem taken_view (s : Emu) (cc : Sm83.Cond) :
    condOf cc s.regs.f = (view s).cpu.taken (some cc) := by
  rw [condOf_eq]
  exact (taken_cpuOf s.regs (some cc)).symm

/-! ## Operands -/

theorem get_view (s : Emu) (o : Operand) : cpuBus.get (view s) o = operandOf s o := by
  cases o <;> rfl

theorem put_view {o : Operand} {reg : Reg8} (ho : regOf o = some reg) (v : U8) (s : Emu) :
    view (s.updRegs fun r => r.set v reg) = cpuBus.put v (view s) o := by
  cases o <;> cases ho <;> rfl

/-- New flags. -/
theorem view_flags (fl : Sm83.Flags) (s : Emu) :
    view (s.updRegs fun r => { r with f := packF r.f fl }) =
      (view s).onCpu fun r => { r with flags := fl } := by
  show State.mk ({ cpuOf s.regs with flags := .of (packF s.regs.f fl) } : Cpu) (bare s) = _
  rw [flagsOf_packF]
  rfl

/-- New flags, and a new value for a register. -/
theorem update_view_reg {o : Operand} {reg : Reg8} (ho : regOf o = some reg) (v : U8)
    (fl : Sm83.Flags) (s : Emu) :
    view (s.updRegs fun r => { r with f := packF r.f fl }.set v reg) =
      cpuBus.update o v fl (view s) := by
  have hput := put_view ho v (s.updRegs fun r => { r with f := packF r.f fl })
  rw [view_flags] at hput
  exact hput

/-- New flags, set on both sides of a write to HL. -/
theorem update_view_indHl (v : U8) {fl : Sm83.Flags} (before after : U8 → U8) {s : Emu}
    (hf : after (before s.regs.f) = packF s.regs.f fl) :
    view ((monitorWrMem s.regs.hl v (s.updRegs fun r => { r with f := before r.f })).updRegs
      fun r => { r with f := after r.f }) = cpuBus.update .indHl v fl (view s) := by
  have hregs := monitorWrMem_keeps_regs s.regs.hl v (s.updRegs fun r => { r with f := before r.f })
  have hbare := bare_monitorWrMem s.regs.hl v (s.updRegs fun r => { r with f := before r.f })
  rw [bare_updRegs] at hbare
  rw [view_updRegs, hregs, ← hbare]
  show State.mk ({ cpuOf s.regs with flags := .of (after (before s.regs.f)) } : Cpu)
    (monitorWrMem s.regs.hl v (bare s)) = _
  rw [hf, flagsOf_packF]
  rfl

/-! ## The instructions, one constructor each -/

theorem ld_refines (dst src : Operand) (h : (Instr.ld dst src).defined = true) (s : Emu) :
    view (ldHandler dst src s).1 = cpuBus.exec (view s) (.ld dst src) := by
  show _ = cpuBus.put (cpuBus.get (view s) src) (view s) dst
  rw [get_view]
  cases hdst : regOf dst with
  | some reg =>
      rw [← put_view hdst]
      cases src with
      | indHl => cases dst <;> cases hdst <;> rfl
      | _ => cases dst <;> cases hdst <;> rfl
  | none =>
      cases eq_indHl hdst
      cases src with
      | indHl => cases h
      | _ => exact view_write s.regs.hl _ s

theorem alu_refines (k : Sm83.Alu) (o : Operand) (s : Emu) :
    view (aluHandler k o s).1 = cpuBus.exec (view s) (.alu k o) := by
  rw [aluHandler_eq, view_updRegs, doAlu, cpuOf_withAf]
  show _ = (view s).onCpu (Cpu.alu k (cpuBus.get (view s) o))
  rw [get_view, carryOf, ← flagsOf_carry]
  rfl

theorem aluImm_refines (k : Sm83.Alu) (s : Emu) :
    view (aluImmHandler k s).1 = cpuBus.exec (view s) (.aluImm k) := by
  rw [aluImmHandler_eq, view_advancePc, view_updRegs, doAlu, cpuOf_withAf, carryOf,
    ← flagsOf_carry]
  rfl

theorem inc_refines (o : Operand) (s : Emu) :
    view (handler (.inc o) s).1 = cpuBus.exec (view s) (.inc o) := by
  show _ = cpuBus.update o (Sm83.addValue (cpuBus.get (view s) o) 1 false)
    (Sm83.incFlags (cpuBus.get (view s) o) (Sm83.Flags.of s.regs.f).c) (view s)
  rw [get_view, flagsOf_carry, ← add_one_eq]
  have inReg {o : Operand} {reg : Reg8} (ho : regOf o = some reg) :
      view (opIncReg reg s).1 = cpuBus.update o (s.regs.get reg + 1)
        (Sm83.incFlags (s.regs.get reg) (bit s.regs.f flagCarry)) (view s) := by
    rw [← update_view_reg ho]
    unfold opIncReg
    dsimp only
    refine congrArg view (updRegs_congr ?_)
    rw [← inc_flags]
  cases o with
  | indHl =>
      show view (opIncIndHl s).1 = cpuBus.update .indHl (monitorRdMem s s.regs.hl + 1)
        (Sm83.incFlags (monitorRdMem s s.regs.hl) (bit s.regs.f flagCarry)) (view s)
      refine update_view_indHl (s := s) (monitorRdMem s s.regs.hl + 1)
        (fun f => setFlag (boolToFlag flagHcarry
          (isAddHalfCarry (u8 (monitorRdMem s s.regs.hl)) 1))
            (unsetFlag (flagZero ||| flagHcarry ||| flagSub) f))
        (fun f => setFlag (boolToFlag flagZero (monitorRdMem s s.regs.hl + 1 == 0)) f) ?_
      have hzero : (monitorRdMem s s.regs.hl + 1 == 0) =
          isAddZero (u8 (monitorRdMem s s.regs.hl)) 1 := by
        rw [isAddZero, add_one_eq, ← add_value (isByte_u8 1), add_b1_false]
        rfl
      show _ = packF s.regs.f (Sm83.incFlags (monitorRdMem s s.regs.hl) _)
      rw [← inc_flags, hzero]
      simp only [setFlag, unsetFlag]
      ac_rfl
  | b | c | d | e | h | l | a => exact inReg rfl

theorem dec_refines (o : Operand) (s : Emu) :
    view (handler (.dec o) s).1 = cpuBus.exec (view s) (.dec o) := by
  show _ = cpuBus.update o (Sm83.subValue (cpuBus.get (view s) o) 1 false)
    (Sm83.decFlags (cpuBus.get (view s) o) (Sm83.Flags.of s.regs.f).c) (view s)
  rw [get_view, flagsOf_carry, ← sub_one_eq]
  have inReg {o : Operand} {reg : Reg8} (ho : regOf o = some reg) :
      view (opDecReg reg s).1 = cpuBus.update o (s.regs.get reg - 1)
        (Sm83.decFlags (s.regs.get reg) (bit s.regs.f flagCarry)) (view s) := by
    rw [← update_view_reg ho]
    unfold opDecReg
    dsimp only
    refine congrArg view (updRegs_congr ?_)
    rw [← dec_flags]
  cases o with
  | indHl =>
      show view (opDecIndHl s).1 = cpuBus.update .indHl (monitorRdMem s s.regs.hl - 1)
        (Sm83.decFlags (monitorRdMem s s.regs.hl) (bit s.regs.f flagCarry)) (view s)
      refine update_view_indHl (s := s) (monitorRdMem s s.regs.hl - 1)
        (fun f => setFlag flagSub (setFlag (boolToFlag flagHcarry
          (isSubHalfCarry (u8 (monitorRdMem s s.regs.hl)) 1))
            (unsetFlag (flagZero ||| flagHcarry) f)))
        (fun f => setFlag (boolToFlag flagZero (monitorRdMem s s.regs.hl - 1 == 0)) f) ?_
      have hzero : (monitorRdMem s s.regs.hl - 1 == 0) =
          isSubZero (u8 (monitorRdMem s s.regs.hl)) 1 := by
        rw [isSubZero, sub_one_eq, ← sub_value (isByte_u8 1), add_b1_false]
        rfl
      show _ = packF s.regs.f (Sm83.decFlags (monitorRdMem s s.regs.hl) _)
      rw [← dec_flags, hzero]
      simp only [setFlag]
      ac_rfl
  | b | c | d | e | h | l | a => exact inReg rfl

/-- A macro of the 0xcb page that computes these flags. -/
theorem update_refines {doOp : U8 → U8 → U8 × U8} (o : Operand) (s : Emu) {v : U8}
    {fl : Sm83.Flags} (hop : doOp (operandOf s o) s.regs.f = (v, packF s.regs.f fl)) :
    view (writeBackHandler doOp o s).1 = cpuBus.update o v fl (view s) := by
  cases ho : regOf o with
  | some reg =>
      have hval : operandOf s o = s.regs.get reg := operandOf_reg s ho
      rw [hval] at hop
      rw [← update_view_reg ho, writeBackHandler, ho]
      show view (s.updRegs fun r => { r with f := (doOp (r.get reg) r.f).2 }.set
        (doOp (r.get reg) r.f).1 reg) = _
      rw [view_updRegs, hop]
      rfl
  | none =>
      cases eq_indHl ho
      have hw : (writeBackHandler doOp .indHl s).1 =
          monitorWrMem s.regs.hl (doOp (operandOf s .indHl) s.regs.f).1
            (s.updRegs fun r => { r with f := (doOp (operandOf s .indHl) s.regs.f).2 }) := rfl
      rw [hw, hop]
      exact update_view_indHl v (fun _ => packF s.regs.f fl) id rfl

/-- A macro of the 0xcb page that leaves F alone. -/
theorem put_refines {doOp : U8 → U8 → U8 × U8} {g : U8 → U8} (hop : ∀ v f, doOp v f = (g v, f))
    (o : Operand) (s : Emu) :
    view (writeBackHandler doOp o s).1 = cpuBus.put (g (operandOf s o)) (view s) o := by
  cases ho : regOf o with
  | some reg =>
      rw [operandOf_reg s ho, ← put_view ho, writeBackHandler, ho]
      show view (s.updRegs fun r => { r with f := (doOp (r.get reg) r.f).2 }.set
        (doOp (r.get reg) r.f).1 reg) = _
      rw [view_updRegs, hop]
      rfl
  | none =>
      cases eq_indHl ho
      have hw : (writeBackHandler doOp .indHl s).1 =
          monitorWrMem s.regs.hl (doOp (operandOf s .indHl) s.regs.f).1
            (s.updRegs fun r => { r with f := (doOp (operandOf s .indHl) s.regs.f).2 }) := rfl
      rw [hw, hop]
      exact view_write s.regs.hl _ s

theorem wide_refines (s : Emu) :
    view (opLdHlSpE8 s).1 = cpuBus.exec (view s) .ldHlSpE8 ∧
      view (opAddSpE8 s).1 = cpuBus.exec (view s) .addSpE8 := by
  have hpack (f : U8) (x : U16) (e : U8) : Sm83.Flags.of (packF f (offsetFlags x e)) =
      { Sm83.addFlags (Sm83.lo x) e false with z := false } := by
    rw [flagsOf_packF, offsetFlags_eq]
  constructor
  · rw [opLdHlSpE8_eq, view_updRegs]
    show State.mk ({ cpuOf ((advancePc 1 s).updRegs fun r =>
      r.set16 (s.regs.sp + (monitorRdMem s s.regs.pc).signExtend 16) .hl).regs with
        flags := .of (packF s.regs.f _) } : Cpu) (bare s) = _
    rw [hpack]
    rfl
  · rw [opAddSpE8_eq, view_updRegs]
    show State.mk ({ cpuOf ((advancePc 1 s).updRegs fun r =>
      { r with sp := s.regs.sp + (monitorRdMem s s.regs.pc).signExtend 16 }).regs with
        flags := .of (packF s.regs.f _) } : Cpu) (bare s) = _
    rw [hpack]
    rfl

theorem addHl_refines (rr : Sm83.Pair) (s : Emu) :
    view (opAddReg16 (pairOf rr) s).1 = cpuBus.exec (view s) (.addHl rr) := by
  have hpair : (cpuOf s.regs).pair rr = s.regs.get16 (pairOf rr) := by cases rr <;> rfl
  rw [opAddReg16_eq, view_updRegs]
  show State.mk ({ cpuOf (s.updRegs fun r =>
    r.set16 (s.regs.hl + s.regs.get16 (pairOf rr)) .hl).regs with
      flags := .of (packF s.regs.f _) } : Cpu) (bare s) =
    (view s).onCpu fun _ => (cpuOf s.regs).addHl ((cpuOf s.regs).pair rr)
  rw [flagsOf_packF, wordFlags, ← flagsOf_zero, hpair]
  rfl

/-- A CALL that is taken. -/
theorem call_refines (s : Emu) :
    view (opCallA16 s).1 =
      cpuBus.call (cpuBus.imm16 (view s)) ((view s).onCpu (Cpu.skip 2)) := by
  have hpush := view_push (f := fun s => s.regs.pc) (s := advancePc 2 s) (w := s.regs.pc + 2)
    fun s' hs' => by rw [hs']; rfl
  show view (setPc (rdWord s s.regs.pc) (push (fun s => s.regs.pc) (advancePc 2 s))) = _
  rw [view_setPc, hpush]
  rfl

theorem rst_refines (n : Nat) (s : Emu) :
    view (opRestart (BitVec.ofNat 16 (8 * n)) s).1 = cpuBus.exec (view s) (.rst n) := by
  have hpush := view_push (f := fun s => s.regs.pc) (s := s) (w := s.regs.pc)
    fun s' hs' => by rw [hs']
  show view (setPc _ (push (fun s => s.regs.pc) s)) = _
  rw [view_setPc, hpush]
  rfl

theorem push_refines {s : Emu} (h : FlagsLow s) (rr : Sm83.StackPair) :
    view (opPushReg (stackPairOf rr) s).1 = cpuBus.exec (view s) (.push rr) := by
  have hpair : (view s).cpu.stackPair rr = s.regs.get16 (stackPairOf rr) := by
    cases rr with
    | af =>
        show s.regs.a ++ (Sm83.Flags.of s.regs.f).byte = s.regs.a ++ s.regs.f
        rw [flagsOf_byte h]
    | _ => rfl
  show view (push (fun s => s.regs.get16 (stackPairOf rr)) s) = cpuBus.push _ (view s)
  rw [hpair]
  refine view_push fun s' hs' => ?_
  rw [hs']
  cases rr <;> rfl

theorem pop_refines (rr : Sm83.StackPair) (s : Emu) :
    view (handler (.pop rr) s).1 = cpuBus.exec (view s) (.pop rr) := by
  cases rr with
  | af =>
      show State.mk ({ cpuOf _ with flags := .of ((rdWord s s.regs.sp).extractLsb' 0 8 &&& 0xf0) } : Cpu)
        (bare s) = _
      rw [flagsOf_and_high]
      rfl
  | _ => rfl

/-- A jump, call or return with a condition. -/
theorem cond_refines {cc : Sm83.Cond} {s taken untaken : Emu} {t u : State Emu}
    (ht : view taken = t) (hu : view untaken = u) :
    view (if condOf cc s.regs.f then taken else untaken) =
      if (view s).cpu.taken (some cc) then t else u := by
  rw [taken_view, ← ht, ← hu, apply_ite view]

theorem jr_refines (s : Emu) : view (opJrE8 s).1 =
    (view s).onCpu (Cpu.skip (1 + (cpuBus.imm8 (view s)).signExtend 16)) := by
  show State.mk ({ cpuOf s.regs with
    pc := s.regs.pc + 1 + (monitorRdMem s s.regs.pc).signExtend 16 } : Cpu) (bare s) = _
  rw [BitVec.add_assoc]
  rfl

/-! ## DAA -/

/-- What `op_daa` computes, but for a subtraction that borrowed. -/
theorem daaAcc_exact (a : U8) (z n h c : Bool) (hok : (n && c) = false) :
    (daaAcc a n h c &&& 0xff).setWidth 8 = Sm83.daaValue a ⟨z, n, h, c⟩ ∧
      (c || decide (daaAcc a n h c &&& 0x100 = 0x100)) = Sm83.daaCarry a ⟨z, n, h, c⟩ := by
  cases z <;> cases n <;> cases h <;> cases c <;> cases hok <;> revert a <;> decide

/-- There it takes 60 where 0x60 is to be taken. -/
theorem daaAcc_borrow (a : U8) (z h : Bool) :
    (daaAcc a true h true &&& 0xff).setWidth 8 ≠ Sm83.daaValue a ⟨z, true, h, true⟩ := by
  cases z <;> cases h <;> revert a <;> decide

/-- The flags of `op_daa`. -/
theorem flagsOf_daa (r : Registers) : Sm83.Flags.of (daa r).f =
    ⟨(daa r).a == 0, bit r.f flagSub, false, carryOf (daa r)⟩ := by
  have hflags (f : U8) (w z : Bool) :
      Sm83.Flags.of (let f := unsetFlag flagHcarry f
        let f := if w then setFlag flagCarry f else f
        if z then setFlag flagZero f else unsetFlag flagZero f) =
      ⟨z, bit f flagSub, false, bit f flagCarry || w⟩ := by
    have hn : f.getLsbD 6 = bit f flagSub := congrArg Sm83.Flags.n (flagsOf_bits f)
    have hc : f.getLsbD 4 = bit f flagCarry := congrArg Sm83.Flags.c (flagsOf_bits f)
    rw [← hn, ← hc]
    cases w <;> cases z <;>
      simp [Sm83.Flags.of, setFlag, unsetFlag, flagHcarry, flagCarry, flagZero]
  have h := hflags r.f (decide (daaAcc r.a (bit r.f flagSub) (bit r.f flagHcarry) (carryOf r) &&&
    0x100 = 0x100)) ((daa r).a == 0)
  have hcarry : carryOf r = bit r.f flagCarry := rfl
  rw [carryOf_daa, hcarry]
  rw [hcarry] at h
  rw [← h, daa_f]
  simp only [decide_eq_true_eq, beq_iff_eq, daa_a, hcarry]

theorem daa_refines_iff (s : Emu) : view (opDaa s).1 = cpuBus.exec (view s) .daa ↔
    ¬ (bit s.regs.f flagSub = true ∧ bit s.regs.f flagCarry = true) := by
  have hflags := flagsOf_bits s.regs.f
  have hcarry : carryOf s.regs = bit s.regs.f flagCarry := rfl
  constructor
  · rintro h ⟨hn, hc⟩
    have ha : (daa s.regs).a = Sm83.daaValue s.regs.a (.of s.regs.f) :=
      congrArg (fun t : State Emu => t.cpu.a) h
    rw [daa_a, hcarry, hflags, hn, hc] at ha
    exact daaAcc_borrow _ _ _ ha
  · intro h
    have hok : (bit s.regs.f flagSub && bit s.regs.f flagCarry) = false := by
      rw [← Bool.not_eq_true, Bool.and_eq_true]
      exact h
    obtain ⟨ha, hc⟩ := daaAcc_exact s.regs.a (bit s.regs.f flagZero) _ (bit s.regs.f flagHcarry) _ hok
    rw [← hflags] at ha hc
    have hdaa : (daa s.regs).a = Sm83.daaValue s.regs.a (.of s.regs.f) := by
      rw [daa_a, hcarry, ha]
    have hout : Sm83.Flags.of (daa s.regs).f = ((cpuOf s.regs).daa).flags := by
      rw [flagsOf_daa, carryOf_daa, hcarry, hc, hdaa, Cpu.daa]
      congr 1
      exact (congrArg Sm83.Flags.n hflags).symm
    show State.mk ({ cpuOf s.regs with
      a := (daa s.regs).a, flags := .of (daa s.regs).f } : Cpu) (bare s) = _
    rw [hdaa, hout]
    rfl

/-! ## LD (a16),SP -/

/-- The operand, once the low byte of SP is written to it. -/
def operandAfter (s : Emu) : U16 :=
  rdWord (monitorWrMem (rdWord s s.regs.pc) (s.regs.sp.extractLsb' 0 8) s) s.regs.pc

theorem ldA16Sp_refines_iff (s : Emu) : view (opLdIndA16Sp s).1 = cpuBus.exec (view s) .ldA16Sp ↔
    operandAfter s = rdWord s s.regs.pc := by
  have hkept := monitorWrMem_keeps_regs (rdWord s s.regs.pc) (s.regs.sp.extractLsb' 0 8) s
  have hview : view (opLdIndA16Sp s).1 =
      (((view s).onEnv (monitorWrMem (rdWord s s.regs.pc) (s.regs.sp.extractLsb' 0 8))).onEnv
        (monitorWrMem (operandAfter s + 1) (s.regs.sp.extractLsb' 8 8))).onCpu (Cpu.skip 2) := by
    unfold opLdIndA16Sp wrWord
    dsimp only
    rw [view_advancePc, view_write, view_write, hkept]
    rfl
  rw [hview]
  constructor
  · intro h
    -- the bus events tell the two addresses apart
    have hlog := congrArg (fun t : State Emu => t.env.events) h
    exact (BitVec.add_left_inj 1).mp (monitorWrMem_addr_inj hlog)
  · intro h
    rw [h]
    rfl

/-! ## All of them -/

/-- Where a handler is not its instruction; PC is behind the opcode. -/
def Deviates (s : Emu) (i : Instr) : Prop :=
  (i = .daa ∧ bit s.regs.f flagSub = true ∧ bit s.regs.f flagCarry = true) ∨
    (i = .ldA16Sp ∧ operandAfter s ≠ rdWord s s.regs.pc)

instance (s : Emu) (i : Instr) : Decidable (Deviates s i) :=
  inferInstanceAs (Decidable (_ ∧ _ ∧ _ ∨ _ ∧ _))

/-- The page of LDH, by an OR and by a sum. -/
theorem ioAddr_eq (x : U8) : x.setWidth 16 ||| 0xff00 = Sm83.ioAddr x ∧
    0xff00 + x.setWidth 16 = Sm83.ioAddr x := by
  revert x
  decide

/-- BIT, also of a bit that a byte does not have. -/
theorem doBit_flags (n : Nat) (v f : U8) :
    (doBit (bits n) v f).2 = packF f (Sm83.bitFlags n v (bit f flagCarry)) := by
  by_cases hn : n < 8
  · rw [doBit_eq n hn]
  · have hbits : bits n = 0 := by
      show (1 : U8) <<< n = 0#8
      exact BitVec.shiftLeft_eq_zero (Nat.not_lt.mp hn)
    have hclear : v.getLsbD n = (0 : U8).getLsbD 0 := BitVec.getLsbD_of_ge v n (Nat.not_lt.mp hn)
    have hflags : Sm83.bitFlags n v (bit f flagCarry) = Sm83.bitFlags 0 0 (bit f flagCarry) := by
      rw [Sm83.bitFlags, hclear, Sm83.bitFlags]
    have hmask : bit v 0 = bit 0 (bits 0) := by simp [bit]
    have hzero := congrArg Prod.snd (doBit_eq 0 (by decide) 0 f)
    rw [hflags]
    refine Eq.trans ?_ hzero
    rw [hbits, doBit, doBit, hmask]

/-! ## The flag instructions -/

theorem cpl_refines (s : Emu) : view (handler .cpl s).1 = cpuBus.exec (view s) .cpl := by
  have hflags (f : U8) : Sm83.Flags.of (setFlag (flagSub ||| flagHcarry) f) =
      { Sm83.Flags.of f with n := true, h := true } := by
    simp [Sm83.Flags.of, setFlag, flagSub, flagHcarry]
  exact congrArg (fun fl => State.mk ({ cpuOf s.regs with
    a := ~~~s.regs.a, flags := fl } : Cpu) (bare s)) (hflags s.regs.f)

theorem scf_refines (s : Emu) : view (handler .scf s).1 = cpuBus.exec (view s) .scf := by
  have hflags (f : U8) : Sm83.Flags.of (unsetFlag (flagSub ||| flagHcarry)
      (setFlag flagCarry f)) = ⟨(Sm83.Flags.of f).z, false, false, true⟩ := by
    simp [Sm83.Flags.of, setFlag, unsetFlag, flagSub, flagHcarry, flagCarry]
  exact congrArg (fun fl => State.mk ({ cpuOf s.regs with flags := fl } : Cpu) (bare s))
    (hflags s.regs.f)

theorem ccf_refines (s : Emu) : view (handler .ccf s).1 = cpuBus.exec (view s) .ccf := by
  have hflags (f : U8) : Sm83.Flags.of (unsetFlag (flagSub ||| flagHcarry)
      (setFlag (boolToFlag flagCarry (!bit f flagCarry)) (unsetFlag flagCarry f))) =
      ⟨(Sm83.Flags.of f).z, false, false, !(Sm83.Flags.of f).c⟩ := by
    rw [← flagsOf_carry]
    cases (Sm83.Flags.of f).c <;>
      simp [Sm83.Flags.of, setFlag, unsetFlag, boolToFlag, flagSub, flagHcarry, flagCarry]
  exact congrArg (fun fl => State.mk ({ cpuOf s.regs with flags := fl } : Cpu) (bare s))
    (hflags s.regs.f)

/-- The rotations of A clear Z. -/
theorem flagsOf_unsetZero (f : U8) : Sm83.Flags.of (unsetFlag flagZero f) =
    { Sm83.Flags.of f with z := false } := by
  simp [Sm83.Flags.of, unsetFlag, flagZero]

theorem rotA_refines (k : Sm83.Shift) (s : Emu) :
    view (handler (.rotA k) s).1 = cpuBus.exec (view s) (.rotA k) := by
  have hflags (f : U8) (fl : Sm83.Flags) :
      Sm83.Flags.of (unsetFlag flagZero (packF f fl)) = { fl with z := false } := by
    rw [flagsOf_unsetZero, flagsOf_packF]
  show State.mk ({ cpuOf s.regs with
    a := (doShift k s.regs.a s.regs.f).1
    flags := .of (unsetFlag flagZero (doShift k s.regs.a s.regs.f).2) } : Cpu) (bare s) = _
  rw [doShift_eq, hflags, ← flagsOf_carry]
  rfl

/-! ## Loads and stores by an address -/

theorem ldImm_refines (o : Operand) (s : Emu) :
    view (handler (.ldImm o) s).1 = cpuBus.exec (view s) (.ldImm o) := by
  cases o with
  | indHl =>
      show view (advancePc 1 (monitorWrMem s.regs.hl (monitorRdMem s s.regs.pc) s)) = _
      rw [view_advancePc, view_write]
      rfl
  | _ => rfl

theorem storeA_refines (p : Sm83.Pointer) (s : Emu) :
    view (handler (.storeA p) s).1 = cpuBus.exec (view s) (.storeA p) := by
  cases p with
  | bc =>
      show view (monitorWrMem s.regs.bc s.regs.a s) = _
      rw [view_write]
      rfl
  | de =>
      show view (monitorWrMem s.regs.de s.regs.a s) = _
      rw [view_write]
      rfl
  | hlInc =>
      show view (addReg16 .hl 1 (monitorWrMem s.regs.hl s.regs.a s)) = _
      rw [addReg16, view_updRegs, monitorWrMem_keeps_regs, ← bare_monitorWrMem]
      rfl
  | hlDec =>
      show view (addReg16 .hl (-1) (monitorWrMem s.regs.hl s.regs.a s)) = _
      rw [addReg16, view_updRegs, monitorWrMem_keeps_regs, ← bare_monitorWrMem,
        ← BitVec.sub_eq_add_neg]
      rfl

theorem loadA_refines (p : Sm83.Pointer) (s : Emu) :
    view (handler (.loadA p) s).1 = cpuBus.exec (view s) (.loadA p) := by
  cases p with
  | hlDec =>
      show State.mk (cpuOf ({ s.regs with a := monitorRdMem s s.regs.hl }.set16
        (s.regs.hl + -1) .hl)) (bare s) = _
      rw [← BitVec.sub_eq_add_neg]
      rfl
  | bc | de | hlInc => rfl

theorem ldA16A_refines (s : Emu) : view (handler .ldA16A s).1 = cpuBus.exec (view s) .ldA16A := by
  show view (advancePc 2 (monitorWrMem (rdWord s s.regs.pc) s.regs.a s)) = _
  rw [view_advancePc, view_write]
  rfl

theorem ldhA8A_refines (s : Emu) : view (handler .ldhA8A s).1 = cpuBus.exec (view s) .ldhA8A := by
  show view (advancePc 1 (monitorWrMem ((monitorRdMem s s.regs.pc).setWidth 16 ||| 0xff00)
    s.regs.a s)) = _
  rw [view_advancePc, view_write, (ioAddr_eq _).1]
  rfl

theorem ldhCA_refines (s : Emu) : view (handler .ldhCA s).1 = cpuBus.exec (view s) .ldhCA := by
  show view (monitorWrMem (0xff00 + s.regs.c.setWidth 16) s.regs.a s) = _
  rw [view_write, (ioAddr_eq _).2]
  rfl

theorem ldhAA8_refines (s : Emu) : view (handler .ldhAA8 s).1 = cpuBus.exec (view s) .ldhAA8 := by
  show State.mk ({ cpuOf s.regs with
    a := monitorRdMem s (0xff00 + (monitorRdMem s s.regs.pc).setWidth 16)
    pc := s.regs.pc + 1 } : Cpu) (bare s) = _
  rw [(ioAddr_eq _).2]
  rfl

theorem ldhAC_refines (s : Emu) : view (handler .ldhAC s).1 = cpuBus.exec (view s) .ldhAC := by
  show State.mk ({ cpuOf s.regs with
    a := monitorRdMem s (0xff00 + s.regs.c.setWidth 16) } : Cpu) (bare s) = _
  rw [(ioAddr_eq _).2]
  rfl

theorem decPair_refines (rr : Sm83.Pair) (s : Emu) :
    view (handler (.decPair rr) s).1 = cpuBus.exec (view s) (.decPair rr) := by
  show State.mk (cpuOf (s.regs.set16 (s.regs.get16 (pairOf rr) + -1) (pairOf rr))) (bare s) = _
  rw [← BitVec.sub_eq_add_neg]
  cases rr <;> rfl

/-! ## Jumps, calls and returns, with a condition or without -/

theorem jp_refines (cc : Option Sm83.Cond) (s : Emu) :
    view (handler (.jp cc) s).1 = cpuBus.exec (view s) (.jp cc) := by
  cases cc with
  | none => rfl
  | some cc =>
      show view (opJmpCond (condOf cc) s).1 = _
      rw [opJmpCond, apply_ite Prod.fst]
      exact cond_refines (view_setPc _ s) (view_advancePc 2 s)

theorem jrCond_refines (cc : Option Sm83.Cond) (s : Emu) :
    view (handler (.jr cc) s).1 = cpuBus.exec (view s) (.jr cc) := by
  cases cc with
  | none => exact jr_refines s
  | some cc =>
      show view (opJrCond (condOf cc) s).1 = _
      rw [opJrCond, apply_ite Prod.fst]
      exact cond_refines (jr_refines s) (view_advancePc 1 s)

theorem callCond_refines (cc : Option Sm83.Cond) (s : Emu) :
    view (handler (.call cc) s).1 = cpuBus.exec (view s) (.call cc) := by
  cases cc with
  | none => exact call_refines s
  | some cc =>
      show view (opCallCond (condOf cc) s).1 = _
      rw [opCallCond, apply_ite Prod.fst]
      exact cond_refines (call_refines s) (view_advancePc 2 s)

theorem ret_refines (cc : Option Sm83.Cond) (s : Emu) :
    view (handler (.ret cc) s).1 = cpuBus.exec (view s) (.ret cc) := by
  cases cc with
  | none => rfl
  | some cc =>
      show view (opRetCond (condOf cc) s).1 = _
      rw [opRetCond, apply_ite Prod.fst]
      exact cond_refines (view_doRet s) rfl

/-! ## Shifts and single bits -/

theorem shift_refines (k : Sm83.Shift) (o : Operand) (s : Emu) :
    view (handler (.shift k o) s).1 = cpuBus.exec (view s) (.shift k o) := by
  show view (writeBackHandler (doShift k) o s).1 = cpuBus.update o
    (k.value (cpuBus.get (view s) o) (Sm83.Flags.of s.regs.f).c)
    (k.flags (cpuBus.get (view s) o) (Sm83.Flags.of s.regs.f).c) (view s)
  rw [get_view, flagsOf_carry]
  exact update_refines o s (doShift_eq k _ _)

theorem bit_refines (n : Nat) (o : Operand) (s : Emu) :
    view (handler (.bit n o) s).1 = cpuBus.exec (view s) (.bit n o) := by
  rw [bitHandler_eq, doBit_flags]
  show view (s.updRegs fun r => { r with f := packF s.regs.f _ }) =
    (view s).onCpu fun r => { r with flags := Sm83.bitFlags n (cpuBus.get (view s) o) r.flags.c }
  rw [get_view, ← flagsOf_carry]
  exact view_flags (Sm83.bitFlags n (operandOf s o) (Sm83.Flags.of s.regs.f).c) s

theorem res_refines (n : Nat) (o : Operand) (s : Emu) :
    view (handler (.res n o) s).1 = cpuBus.exec (view s) (.res n o) := by
  show view (writeBackHandler (doRst (bits n)) o s).1 =
    cpuBus.put (Sm83.resBit n (cpuBus.get (view s) o)) (view s) o
  rw [get_view]
  exact put_refines (doRst_eq n) o s

theorem set_refines (n : Nat) (o : Operand) (s : Emu) :
    view (handler (.set n o) s).1 = cpuBus.exec (view s) (.set n o) := by
  show view (writeBackHandler (doSet (bits n)) o s).1 =
    cpuBus.put (Sm83.setBit n (cpuBus.get (view s) o)) (view s) o
  rw [get_view]
  exact put_refines (doSet_eq n) o s

/-! ## Every instruction -/

/-- **A handler is its instruction**, but for the two deviations. -/
theorem handler_refines {s : Emu} (hf : FlagsLow s) {i : Instr} (hi : i.defined = true)
    (h : ¬ Deviates s i) : view (handler i s).1 = cpuBus.exec (view s) i := by
  cases i with
  | nop | halt | di | ei | ldAA16 | ldSpHl | jpHl | reti => rfl
  | stop | prefixByte | undefined => cases hi
  | daa => exact (daa_refines_iff s).mpr fun hdev => h (.inl ⟨rfl, hdev⟩)
  | ldA16Sp =>
      refine (ldA16Sp_refines_iff s).mpr (by_contra fun hdev => ?_)
      exact h (.inr ⟨rfl, hdev⟩)
  | cpl => exact cpl_refines s
  | scf => exact scf_refines s
  | ccf => exact ccf_refines s
  | rotA k => exact rotA_refines k s
  | ld dst src => exact ld_refines dst src hi s
  | ldImm o => exact ldImm_refines o s
  | ldPairImm rr => cases rr <;> rfl
  | storeA p => exact storeA_refines p s
  | loadA p => exact loadA_refines p s
  | ldA16A => exact ldA16A_refines s
  | ldhA8A => exact ldhA8A_refines s
  | ldhCA => exact ldhCA_refines s
  | ldhAA8 => exact ldhAA8_refines s
  | ldhAC => exact ldhAC_refines s
  | ldHlSpE8 => exact (wide_refines s).1
  | addSpE8 => exact (wide_refines s).2
  | inc o => exact inc_refines o s
  | dec o => exact dec_refines o s
  | incPair rr => cases rr <;> rfl
  | decPair rr => exact decPair_refines rr s
  | addHl rr => exact addHl_refines rr s
  | alu k o => exact alu_refines k o s
  | aluImm k => exact aluImm_refines k s
  | jp cc => exact jp_refines cc s
  | jr cc => exact jrCond_refines cc s
  | call cc => exact callCond_refines cc s
  | ret cc => exact ret_refines cc s
  | rst n => exact rst_refines n s
  | push rr => exact push_refines hf rr
  | pop rr => exact pop_refines rr s
  | shift k o => exact shift_refines k o s
  | bit n o => exact bit_refines n o s
  | res n o => exact res_refines n o s
  | set n o => exact set_refines n o s

/-! ## Fetch and execute -/

/-- The state with PC behind the opcode. -/
def fetched (s : Emu) : Emu := advancePc (BitVec.ofNat 16 (instrAt s).opcodeBytes) s

theorem fetchDispatch_fetched (s : Emu) :
    fetchDispatch s = (handler (instrAt s) (fetched s)).1 := by
  by_cases h : monitorRdMem s s.regs.pc = 0xcb
  · have hat : instrAt s = Sm83.decodePrefix (monitorRdMem s (s.regs.pc + 1)) := if_pos h
    rw [fetchDispatch_cb h, fetched, hat, (Sm83.decodePrefix_opcodeBytes _).1]
    rfl
  · have hat : instrAt s = Sm83.decode (monitorRdMem s s.regs.pc) := if_neg h
    rw [fetchDispatch_eq h, fetched, hat, Sm83.decode_opcodeBytes]
    rfl

/-- The instruction at PC is one of the two, where it deviates. -/
def DeviatesAt (s : Emu) : Prop := Deviates (fetched s) (instrAt s)

instance (s : Emu) : Decidable (DeviatesAt s) := inferInstanceAs (Decidable (Deviates _ _))

/-- **The interpreter is the SM83**: at every defined opcode a fetch and a dispatch are
one step of the instruction set, in every state but those of the two deviations.  STOP
and the undefined opcodes, which have no meaning there, are left out. -/
theorem fetchDispatch_refines_iff {s : Emu} (h : Reachable s) (hdef : (instrAt s).defined = true) :
    view (fetchDispatch s) = cpuBus.step (view s) ↔ ¬ DeviatesAt s := by
  have hstep : cpuBus.step (view s) = cpuBus.exec (view (fetched s)) (instrAt s) := rfl
  have hf : FlagsLow (fetched s) := h.flagsLow
  rw [fetchDispatch_fetched, hstep, DeviatesAt]
  generalize instrAt s = i at hdef ⊢
  constructor
  · rintro hview (⟨rfl, hdev⟩ | ⟨rfl, hdev⟩)
    · exact (daa_refines_iff (fetched s)).mp hview hdev
    · exact hdev ((ldA16Sp_refines_iff (fetched s)).mp hview)
  · exact handler_refines hf hdef

/-- ADD HL,SP at power-on. -/
theorem fetchDispatch_refines_iff_addHl :
    view (fetchDispatch (powerOn #[0x39] #[])) = cpuBus.step (view (powerOn #[0x39] #[])) :=
  (fetchDispatch_refines_iff (.powerOn #[0x39] #[]) (by decide)).mpr (by decide)

end RealBoy
