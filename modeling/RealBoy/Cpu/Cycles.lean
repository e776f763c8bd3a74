/-
# `RealBoy.Cpu.Cycles` — the cycles a handler returns

Every handler hard-codes the number it returns.  `handler_cycles` compares the
number with the instruction's machine cycles: it is never too large, and too
small by exactly one for the thirteen opcodes of `shortOps`.  The causes differ
(a `return 1` inside `DO_SUB` that comes before the handler's own `return 2`,
loads through HL that return a register load's cycles), the effect is the same.
-/
import RealBoy.Cpu.Decode
import RealBoy.Emu.Run

namespace RealBoy

open Sm83 (Instr Operand)

/-- The cycles missing from what the handler of an instruction returns. -/
def shortfall : Instr → Nat
  | .ld .c .indHl | .ld .d .indHl | .ld .e .indHl | .ld .h .indHl | .ld .l .indHl => 1
  | .alu .sub .indHl | .aluImm .sub => 1
  | .ldhA8A | .ldSpHl | .push _ => 1
  | _ => 0

/-- The opcodes that return too few cycles: LD C/D/E/H/L,(HL); SUB A,(HL);
SUB A,n8; LDH (a8),A; LD SP,HL; PUSH BC/DE/HL/AF. -/
def shortOps : List U8 :=
  [0x4e, 0x56, 0x5e, 0x66, 0x6e, 0x96, 0xd6, 0xe0, 0xf9, 0xc5, 0xd5, 0xe5, 0xf5]

theorem condOf_eq (cc : Sm83.Cond) (f : U8) : condOf cc f = cc.holds f := by
  revert f
  cases cc <;> decide +kernel

/-! ## The instructions, one constructor each -/

theorem ldHandler_cycles (dst src : Operand) (s : Emu) (h : (Instr.ld dst src).timed) :
    (ldHandler dst src s).2 + shortfall (.ld dst src) = (Instr.ld dst src).cycles s.regs.f := by
  cases src with
  | indHl => cases dst <;> first | rfl | cases h
  | _ => cases dst <;> rfl

theorem aluHandler_cycles (k : Sm83.Alu) (o : Operand) (s : Emu) :
    (aluHandler k o s).2 + shortfall (.alu k o) = (Instr.alu k o).cycles s.regs.f := by
  cases k <;> cases o <;> rfl

theorem writeBackHandler_cycles (doOp : U8 → U8 → U8 × U8) (o : Operand) (s : Emu) :
    (writeBackHandler doOp o s).2 = 2 + 2 * o.data := by
  cases o <;> rfl

theorem opJmpCond_cycles (cc : Sm83.Cond) (s : Emu) :
    (opJmpCond (condOf cc) s).2 = if cc.holds s.regs.f then 4 else 3 := by
  rw [opJmpCond, condOf_eq, apply_ite Prod.snd]
  rfl

theorem opJrCond_cycles (cc : Sm83.Cond) (s : Emu) :
    (opJrCond (condOf cc) s).2 = if cc.holds s.regs.f then 3 else 2 := by
  rw [opJrCond, condOf_eq, apply_ite Prod.snd]
  rfl

theorem opCallCond_cycles (cc : Sm83.Cond) (s : Emu) :
    (opCallCond (condOf cc) s).2 = if cc.holds s.regs.f then 6 else 3 := by
  rw [opCallCond, condOf_eq, apply_ite Prod.snd]
  rfl

theorem opRetCond_cycles (cc : Sm83.Cond) (s : Emu) :
    (opRetCond (condOf cc) s).2 = if cc.holds s.regs.f then 5 else 2 := by
  rw [opRetCond, condOf_eq, apply_ite Prod.snd]

/-- **What a handler returns**, against the instruction's machine cycles. -/
theorem handler_cycles (i : Instr) (s : Emu) (h : i.timed) :
    (handler i s).2 + shortfall i = i.cycles s.regs.f := by
  cases i with
  | ld dst src => exact ldHandler_cycles dst src s h
  | alu k o => exact aluHandler_cycles k o s
  | ldImm o => cases o <;> rfl
  | storeA p => cases p <;> rfl
  | loadA p => cases p <;> rfl
  | inc o => cases o <;> rfl
  | dec o => cases o <;> rfl
  | aluImm k => cases k <;> rfl
  | jp cc =>
      cases cc with
      | none => rfl
      | some cc =>
          show (opJmpCond (condOf cc) s).2 = 3 + 0 + if cc.holds s.regs.f then 1 else 0
          rw [opJmpCond_cycles]
          split <;> rfl
  | jr cc =>
      cases cc with
      | none => rfl
      | some cc =>
          show (opJrCond (condOf cc) s).2 = 2 + 0 + if cc.holds s.regs.f then 1 else 0
          rw [opJrCond_cycles]
          split <;> rfl
  | call cc =>
      cases cc with
      | none => rfl
      | some cc =>
          show (opCallCond (condOf cc) s).2 =
            3 + (if cc.holds s.regs.f then 2 else 0) + if cc.holds s.regs.f then 1 else 0
          rw [opCallCond_cycles]
          split <;> rfl
  | ret cc =>
      cases cc with
      | none => rfl
      | some cc =>
          show (opRetCond (condOf cc) s).2 =
            1 + (if cc.holds s.regs.f then 2 else 0) + if cc.holds s.regs.f then 2 else 1
          rw [opRetCond_cycles]
          split <;> rfl
  | pop rr => cases rr <;> rfl
  | shift k o =>
      show (writeBackHandler (doShift k) o s).2 = 2 + 2 * o.data + 0
      exact writeBackHandler_cycles _ o s
  | bit n o => cases o <;> rfl
  | res n o =>
      show (writeBackHandler (doRst (bits n)) o s).2 = 2 + 2 * o.data + 0
      exact writeBackHandler_cycles _ o s
  | set n o =>
      show (writeBackHandler (doSet (bits n)) o s).2 = 2 + 2 * o.data + 0
      exact writeBackHandler_cycles _ o s
  | stop | halt | prefixByte | undefined => cases h
  | _ => rfl

/-! ## The opcodes -/

/-- An instruction is fetched in at least one cycle, and its internal cycles
never make up for a missing data cycle. -/
theorem bytes_le_cycles (i : Instr) (f : U8) : i.bytes + i.data f ≤ i.cycles f :=
  Nat.le_add_right _ _

theorem shortfall_decode (op : U8) : shortfall (Sm83.decode op) = 0 ↔ op ∉ shortOps := by
  revert op
  decide +kernel

theorem shortfall_decodePrefix (op : U8) : shortfall (Sm83.decodePrefix op) = 0 := by
  revert op
  decide +kernel

theorem shortfall_instrOf (op : U8) (isPrefix : Bool) :
    shortfall (instrOf op isPrefix) = 0 ↔ ¬ (isPrefix = false ∧ op ∈ shortOps) := by
  cases isPrefix with
  | false => simpa [instrOf] using shortfall_decode op
  | true => simpa [instrOf] using shortfall_decodePrefix op

/-- A dispatch returns the machine cycles of its instruction, which cover the
bytes fetched and the bytes moved. -/
def CyclesExact (op : U8) (isPrefix : Bool) (s : Emu) : Prop :=
  let i := instrOf op isPrefix
  let cycles := (opsTableDispatch op isPrefix s).2
  cycles = i.cycles s.regs.f ∧ i.bytes + i.data s.regs.f ≤ cycles

instance (op : U8) (isPrefix : Bool) (s : Emu) : Decidable (CyclesExact op isPrefix s) :=
  inferInstanceAs (Decidable (_ ∧ _))

/-- **Cycle counts.**  `ops_table_dispatch` returns the machine cycles for
exactly the opcodes outside `shortOps`. -/
theorem cyclesExact_iff (op : U8) (isPrefix : Bool) (s : Emu)
    (h : (instrOf op isPrefix).timed) :
    CyclesExact op isPrefix s ↔ ¬ (isPrefix = false ∧ op ∈ shortOps) := by
  rw [← shortfall_instrOf, CyclesExact, dispatch_eq]
  have hc := handler_cycles (instrOf op isPrefix) s h
  have hb := bytes_le_cycles (instrOf op isPrefix) s.regs.f
  constructor
  · rintro ⟨he, -⟩
    omega
  · intro h0
    constructor <;> omega

/-- LD B,(HL), which returns its 2 cycles. -/
theorem cyclesExact_ldBIndHl : CyclesExact 0x46 false (powerOn #[] #[]) :=
  (cyclesExact_iff 0x46 false (powerOn #[] #[]) (by decide)).mpr (by decide)

/-- SUB A,(HL) reads a byte and returns 1. -/
theorem not_cyclesExact_subIndHl :
    ¬ ∀ (op : U8) (isPrefix : Bool) (s : Emu), s.cpu.isHalted = false →
      (instrOf op isPrefix).timed → CyclesExact op isPrefix s := by
  intro h
  exact absurd (h 0x96 false (powerOn #[] #[]) rfl (by decide)) (by decide +kernel)

end RealBoy
