/-
# `RealBoy.Cpu.Decode` — the table follows the instruction set

`handler` names, for every instruction of the SM83, the handler the source
wrote for it; `dispatch_base` and `dispatch_cb` say that `table_ops` holds
that handler at every opcode that decodes to the instruction.  So a property of
all 512 table entries is a case analysis over the instructions.
-/
import Mathlib.Data.List.GetD
import RealBoy.Cpu.Table
import RealBoy.Lib.Sm83

namespace RealBoy

open Sm83 (Instr Operand)

/-- The register of an operand that is one. -/
def regOf : Operand → Option Reg8
  | .b => some .b
  | .c => some .c
  | .d => some .d
  | .e => some .e
  | .h => some .h
  | .l => some .l
  | .indHl => none
  | .a => some .a

def pairOf : Sm83.Pair → Reg16
  | .bc => .bc
  | .de => .de
  | .hl => .hl
  | .sp => .sp

def stackPairOf : Sm83.StackPair → Reg16
  | .bc => .bc
  | .de => .de
  | .hl => .hl
  | .af => .af

def condOf : Sm83.Cond → Cond
  | .nz => condNz
  | .z => condZ
  | .nc => condNc
  | .c => condC

/-- `op_ld_b_ind_hl` .. `op_ld_a_ind_hl`. -/
def ldIndHlHandler : Reg8 → Op
  | .b => opLdBIndHl
  | .a => opLdAIndHl
  | r => ldRegIndHl r 1

/-- The handlers of 0x40 .. 0x7f. -/
def ldHandler (dst src : Operand) : Op :=
  match regOf dst, regOf src with
  | some r, some q => opLdRegReg r q
  | some r, none => ldIndHlHandler r
  | none, some q => opLdMemReg .hl q
  | none, none => opHalt

/-- The handlers of 0x80 .. 0xbf. -/
def aluHandler (k : Sm83.Alu) (o : Operand) : Op :=
  match k, regOf o with
  | .add, some r => opAddReg r
  | .add, none => opAddAIndHl
  | .adc, some r => opAdcReg r
  | .adc, none => opAdcAIndHl
  | .sub, some r => opSubReg r
  | .sub, none => opSubAIndHl
  | .sbc, some r => opSbcReg r
  | .sbc, none => opSbcAIndHl
  | .and, some r => opLogicReg doAnd r
  | .and, none => opAndAIndHl
  | .xor, some r => opLogicReg doXor r
  | .xor, none => opXorAIndHl
  | .or, some r => opLogicReg doOr r
  | .or, none => opOrAIndHl
  | .cp, some r => opLogicReg doCp r
  | .cp, none => opCpAIndHl

def aluImmHandler : Sm83.Alu → Op
  | .add => opAddAN8
  | .adc => opAdcAN8
  | .sub => opSubAN8
  | .sbc => opSbcAN8
  | .and => opAndAN8
  | .xor => opXorAN8
  | .or => opOrAN8
  | .cp => opCpAN8

/-- The macro of a shift. -/
def doShift : Sm83.Shift → U8 → U8 → U8 × U8
  | .rlc => doRlc
  | .rrc => doRrc
  | .rl => doRl
  | .rr => doRr
  | .sla => doSla
  | .sra => doSra
  | .swap => doSwp
  | .srl => doSrl

/-- A CB-page handler that writes its operand back. -/
def writeBackHandler (doOp : U8 → U8 → U8 × U8) (o : Operand) : Op :=
  match regOf o with
  | some r => onReg doOp r
  | none => onIndHl doOp

/-- The handler of an instruction. -/
def handler : Instr → Op
  | .nop => opNop
  | .stop => opStopN8
  | .halt => opHalt
  | .di => opDisInts
  | .ei => opEnaInts
  | .daa => opDaa
  | .cpl => opCpl
  | .scf => opScf
  | .ccf => opCcf
  | .ld dst src => ldHandler dst src
  | .ldImm dst => match regOf dst with
    | some r => opLdRegMem r
    | none => opLdIndHlN8
  | .ldPairImm rr => opLdReg16Mem (pairOf rr)
  | .storeA .bc => opLdIndBcA
  | .storeA .de => opLdIndDeA
  | .storeA .hlInc => opLdiIndHlA
  | .storeA .hlDec => opLddIndHlA
  | .loadA .bc => opLdAIndBc
  | .loadA .de => opLdAIndDe
  | .loadA .hlInc => opLdiAIndHl
  | .loadA .hlDec => opLddAIndHl
  | .ldA16Sp => opLdIndA16Sp
  | .ldA16A => opLdIndA16A
  | .ldAA16 => opLdAIndA16
  | .ldhA8A => opLdhIndA8A
  | .ldhAA8 => opLdhAIndA8
  | .ldhCA => opLdhIndCA
  | .ldhAC => opLdhAIndC
  | .ldSpHl => opLdSpHl
  | .ldHlSpE8 => opLdHlSpE8
  | .addSpE8 => opAddSpE8
  | .inc o => match regOf o with
    | some r => opIncReg r
    | none => opIncIndHl
  | .dec o => match regOf o with
    | some r => opDecReg r
    | none => opDecIndHl
  | .incPair rr => incReg16 (pairOf rr) 1
  | .decPair rr => incReg16 (pairOf rr) (-1)
  | .addHl rr => opAddReg16 (pairOf rr)
  | .alu k o => aluHandler k o
  | .aluImm k => aluImmHandler k
  | .rotA k => rotateA (doShift k)
  | .jp none => opJmpA16
  | .jp (some cc) => opJmpCond (condOf cc)
  | .jpHl => opJmpHl
  | .jr none => opJrE8
  | .jr (some cc) => opJrCond (condOf cc)
  | .call none => opCallA16
  | .call (some cc) => opCallCond (condOf cc)
  | .ret none => opRet
  | .ret (some cc) => opRetCond (condOf cc)
  | .reti => opReti
  | .rst n => opRestart (BitVec.ofNat 16 (8 * n))
  | .push rr => opPushReg (stackPairOf rr)
  | .pop .af => opPopAf
  | .pop rr => opPopReg (stackPairOf rr)
  | .shift k o => writeBackHandler (doShift k) o
  | .bit n o => match regOf o with
    | some r => opBitReg (bits n) r
    | none => bitIndHl (bits n)
  | .res n o => writeBackHandler (doRst (bits n)) o
  | .set n o => writeBackHandler (doSet (bits n)) o
  | .prefixByte => opPrefix
  | .undefined => opInval

/-- The instruction a dispatch executes. -/
def instrOf (op : U8) (isPrefix : Bool) : Instr :=
  if isPrefix then Sm83.decodePrefix op else Sm83.decode op

/-- A table of all opcodes, looked up. -/
theorem getD_map_range {α : Type} (f : U8 → α) (d : α) (op : U8) :
    ((List.range 256).map fun n => f (BitVec.ofNat 8 n)).getD op.toNat d = f op := by
  have hlt : op.toNat < ((List.range 256).map fun n => f (BitVec.ofNat 8 n)).length := by
    rw [List.length_map, List.length_range]
    exact op.isLt
  rw [List.getD_eq_getElem _ d hlt, List.getElem_map, List.getElem_range, BitVec.ofNat_toNat,
    BitVec.setWidth_eq]

set_option maxRecDepth 4000 in
theorem tableOpsBase_eq :
    tableOpsBase = (List.range 256).map fun n => handler (Sm83.decode (BitVec.ofNat 8 n)) := by
  rfl

set_option maxRecDepth 4000 in
theorem tableOpsPrefix_eq :
    tableOpsPrefix =
      (List.range 256).map fun n => handler (Sm83.decodePrefix (BitVec.ofNat 8 n)) := by
  rfl

theorem length_tableOpsBase : tableOpsBase.length = 256 := by
  rw [tableOpsBase_eq, List.length_map, List.length_range]

/-- **The table follows the instruction set**, outside the 0xcb page. -/
theorem dispatch_base (op : U8) : opsTableDispatch op false = handler (Sm83.decode op) := by
  have hlt : op.toNat < tableOpsBase.length := length_tableOpsBase ▸ op.isLt
  rw [opsTableDispatch, if_neg nofun, Nat.or_zero, tableOps, List.getD_append _ _ _ _ hlt,
    tableOpsBase_eq]
  exact getD_map_range (fun op => handler (Sm83.decode op)) _ _

/-- **The table follows the instruction set** on the 0xcb page. -/
theorem dispatch_cb (op : U8) :
    opsTableDispatch op true = handler (Sm83.decodePrefix op) := by
  have hor : op.toNat ||| 1 <<< 8 = 256 + op.toNat :=
    (Nat.or_comm _ _).trans (Nat.two_pow_add_eq_or_of_lt op.isLt 1).symm
  rw [opsTableDispatch, if_pos rfl, hor, tableOps,
    List.getD_append_right _ _ _ _ (length_tableOpsBase ▸ Nat.le_add_right _ _),
    length_tableOpsBase, Nat.add_sub_cancel_left, tableOpsPrefix_eq]
  exact getD_map_range (fun op => handler (Sm83.decodePrefix op)) _ _

theorem dispatch_eq (op : U8) (isPrefix : Bool) :
    opsTableDispatch op isPrefix = handler (instrOf op isPrefix) := by
  cases isPrefix with
  | false => exact dispatch_base op
  | true => exact dispatch_cb op

end RealBoy
