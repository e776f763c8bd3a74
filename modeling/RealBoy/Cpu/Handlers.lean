/-
# `RealBoy.Cpu.Handlers` — the instruction handlers

`cpu_ops.c`: the macros as functions with the macro's arguments, and every
handler under its own name as the macro applied to its own arguments.  A
handler takes the state after the opcode fetch to the state it leaves and the
number it returns.

C's integer promotions are kept where a flag is computed in `int`: an operand
is promoted to 32 bits by `u8` (zero extension, a `uint8_t`) or `s8` (sign
extension, an `int8_t`) before the arithmetic, and truncated by the cast the
source writes.
-/
import RealBoy.Emu.Bus

namespace RealBoy

/-- `int` operands. -/
abbrev CInt := BitVec 32

/-- A `uint8_t` operand. -/
def u8 (x : U8) : CInt := x.setWidth 32

/-- An `int8_t` operand. -/
def s8 (x : U8) : CInt := x.signExtend 32

/-- A `uint16_t` operand. -/
def u16 (x : U16) : CInt := x.setWidth 32

/-- A `bool` operand. -/
def b1 (b : Bool) : CInt := if b then 1 else 0

/-! ## Registers and flags -/

inductive Reg8 where
  | a | f | b | c | d | e | h | l
deriving DecidableEq

inductive Reg16 where
  | af | bc | de | hl | sp | pc
deriving DecidableEq

namespace Registers

def get (r : Registers) : Reg8 → U8
  | .a => r.a
  | .f => r.f
  | .b => r.b
  | .c => r.c
  | .d => r.d
  | .e => r.e
  | .h => r.h
  | .l => r.l

def set (r : Registers) (v : U8) : Reg8 → Registers
  | .a => { r with a := v }
  | .f => { r with f := v }
  | .b => { r with b := v }
  | .c => { r with c := v }
  | .d => { r with d := v }
  | .e => { r with e := v }
  | .h => { r with h := v }
  | .l => { r with l := v }

def get16 (r : Registers) : Reg16 → U16
  | .af => r.af
  | .bc => r.bc
  | .de => r.de
  | .hl => r.hl
  | .sp => r.sp
  | .pc => r.pc

/-- Writing a pair writes both bytes of its union, the low one first in
memory. -/
def set16 (r : Registers) (v : U16) : Reg16 → Registers
  | .af => { r with a := v.extractLsb' 8 8, f := v.extractLsb' 0 8 }
  | .bc => { r with b := v.extractLsb' 8 8, c := v.extractLsb' 0 8 }
  | .de => { r with d := v.extractLsb' 8 8, e := v.extractLsb' 0 8 }
  | .hl => { r with h := v.extractLsb' 8 8, l := v.extractLsb' 0 8 }
  | .sp => { r with sp := v }
  | .pc => { r with pc := v }

end Registers

def flagZero : U8 := 0b10000000
def flagSub : U8 := 0b01000000
def flagHcarry : U8 := 0b00100000
def flagCarry : U8 := 0b00010000

/-- `BOOL_TO_*_FLAG`. -/
def boolToFlag (flag : U8) (x : Bool) : U8 := if x then flag else 0

/-- `UNSET_FLAG`, on the value of F. -/
def unsetFlag (flag f : U8) : U8 := f &&& ~~~flag

/-- `SET_FLAG`, on the value of F. -/
def setFlag (flag f : U8) : U8 := f ||| flag

/-- `UNSET_FLAGS_ALL`. -/
def unsetFlagsAll (f : U8) : U8 := unsetFlag (flagSub ||| flagZero ||| flagCarry ||| flagHcarry) f

/-- `IS_ADD_ZERO`. -/
def isAddZero (op1 op2 : CInt) : Bool := (op1 + op2).setWidth 8 == (0 : U8)
/-- `IS_ADD_HALF_CARRY`. -/
def isAddHalfCarry (op1 op2 : CInt) : Bool := (op1 ^^^ op2 ^^^ (op1 + op2)) &&& 0x10 != 0
/-- `IS_ADD_CARRY`. -/
def isAddCarry (op1 : U8) (op2 : CInt) : Bool := (u8 op1 + op2).setWidth 8 < op1
/-- `IS_ADD16_HALF_CARRY`. -/
def isAdd16HalfCarry (op1 op2 : CInt) : Bool := (op1 ^^^ op2 ^^^ (op1 + op2)) &&& 0x1000 != 0
/-- `IS_ADD16_CARRY`. -/
def isAdd16Carry (op1 : U16) (op2 : CInt) : Bool := (u16 op1 + op2).setWidth 16 < op1
/-- `IS_SUB_ZERO`, and `IS_CP_ZERO`. -/
def isSubZero (op1 op2 : CInt) : Bool := (op1 - op2).setWidth 8 == (0 : U8)
/-- `IS_SUB_HALF_CARRY`, and `IS_CP_HALF_CARRY`. -/
def isSubHalfCarry (op1 op2 : CInt) : Bool := (op1 ^^^ op2 ^^^ (op1 - op2)) &&& 0x10 != 0
/-- `IS_SUB_CARRY`, and `IS_CP_CARRY`. -/
def isSubCarry (op1 : U8) (op2 : CInt) : Bool := op1 < (u8 op1 - op2).setWidth 8

/-- An update of the CPU's register file. -/
def Emu.updRegs (s : Emu) (f : Registers → Registers) : Emu := { s with regs := f s.regs }

/-- `ADVANCE_PC`. -/
def advancePc (x : U16) (s : Emu) : Emu := s.updRegs fun r => { r with pc := r.pc + x }

/-- `RD_WORD`. -/
def rdWord (s : Emu) (addr : U16) : U16 := monitorRdMem s (addr + 1) ++ monitorRdMem s addr

/-- `WR_WORD`: a macro, so both arguments are evaluated anew for each byte. -/
def wrWord (addr value : Emu → U16) (s : Emu) : Emu :=
  let s := monitorWrMem (addr s) ((value s).extractLsb' 0 8) s
  monitorWrMem (addr s + 1) ((value s).extractLsb' 8 8) s

/-- A handler. -/
abbrev Op := Emu → Emu × Nat

/-! ## Loads -/

/-- `OP_LD_REG_REG`. -/
def opLdRegReg (dst src : Reg8) : Op := fun s =>
  (s.updRegs fun r => r.set (r.get src) dst, 1)

/-- `OP_LD_REG16_MEM(reg, REG_PC)`. -/
def opLdReg16Mem (reg : Reg16) : Op := fun s =>
  let load := rdWord s s.regs.pc
  (advancePc 2 (s.updRegs fun r => r.set16 load reg), 3)

/-- `OP_LD_MEM_REG`. -/
def opLdMemReg (addr : Reg16) (reg : Reg8) : Op := fun s =>
  (monitorWrMem (s.regs.get16 addr) (s.regs.get reg) s, 2)

/-- `OP_LD_REG_MEM(reg, REG_PC)`. -/
def opLdRegMem (reg : Reg8) : Op := fun s =>
  let load := monitorRdMem s s.regs.pc
  (advancePc 1 (s.updRegs fun r => r.set load reg), 2)

/-- `OP_LD_A_IND_REG`. -/
def opLdAIndReg (reg : Reg16) : Op := fun s =>
  let load := monitorRdMem s (s.regs.get16 reg)
  (s.updRegs fun r => r.set load .a, 2)

/-- The body shared by `op_ld_b_ind_hl` .. `op_ld_l_ind_hl`, which differ in
the register and in the cycles they return. -/
def ldRegIndHl (reg : Reg8) (cycles : Nat) : Op := fun s =>
  let load := monitorRdMem s s.regs.hl
  (s.updRegs fun r => r.set load reg, cycles)

def opLdAIndA16 : Op := fun s =>
  let addr := rdWord s s.regs.pc
  (advancePc 2 (s.updRegs fun r => { r with a := monitorRdMem s addr }), 4)

def opLdSpHl : Op := fun s => (s.updRegs fun r => { r with sp := r.hl }, 1)

/-- `reg++` on a pair, or `reg--` with `x = -1`. -/
def addReg16 (reg : Reg16) (x : U16) (s : Emu) : Emu :=
  s.updRegs fun r => r.set16 (r.get16 reg + x) reg

/-- `op_ldi_ind_hl_a` and `op_ldd_ind_hl_a`. -/
def ldxIndHlA (x : U16) : Op := fun s =>
  (addReg16 .hl x (monitorWrMem s.regs.hl s.regs.a s), 2)

/-- `op_ldi_a_ind_hl` and `op_ldd_a_ind_hl`. -/
def ldxAIndHl (x : U16) : Op := fun s =>
  (addReg16 .hl x (s.updRegs fun r => { r with a := monitorRdMem s s.regs.hl }), 2)

def opLdiIndHlA : Op := ldxIndHlA 1
def opLdiAIndHl : Op := ldxAIndHl 1
def opLddIndHlA : Op := ldxIndHlA (-1)
def opLddAIndHl : Op := ldxAIndHl (-1)

def opLdIndA16Sp : Op := fun s =>
  (advancePc 2 (wrWord (fun s => rdWord s s.regs.pc) (fun s => s.regs.sp) s), 5)

def opLdIndHlN8 : Op := fun s =>
  let load := monitorRdMem s s.regs.pc
  (advancePc 1 (monitorWrMem s.regs.hl load s), 3)

def opLdIndA16A : Op := fun s =>
  (advancePc 2 (monitorWrMem (rdWord s s.regs.pc) s.regs.a s), 4)

/-- The carry test after `reg = REG_SP + load`, in `op_ld_hl_sp_e8` and
`op_add_sp_e8`: `reg < load`, else `(reg & 0xff) < (uint8_t)load`. -/
def spCarry (reg : U16) (load : U8) : Bool :=
  (reg.toNat : Int) < load.toInt || reg.extractLsb' 0 8 < load

def opLdHlSpE8 : Op := fun s =>
  let load := monitorRdMem s s.regs.pc
  let sum := (u16 s.regs.sp + s8 load).setWidth 16
  let f := unsetFlagsAll s.regs.f
  let f := setFlag (boolToFlag flagHcarry (isAddHalfCarry (u16 s.regs.sp) (s8 load))) f
  let f := setFlag (boolToFlag flagCarry (spCarry sum load)) f
  (advancePc 1 (s.updRegs fun r => { r.set16 sum .hl with f := f }), 3)

def opLdhIndA8A : Op := fun s =>
  let addr := (monitorRdMem s s.regs.pc).setWidth 16 ||| 0xff00
  (advancePc 1 (monitorWrMem addr s.regs.a s), 2)

def opLdhIndCA : Op := fun s =>
  (monitorWrMem (0xff00 + s.regs.c.setWidth 16) s.regs.a s, 2)

def opLdhAIndA8 : Op := fun s =>
  let load := monitorRdMem s (0xff00 + (monitorRdMem s s.regs.pc).setWidth 16)
  (advancePc 1 (s.updRegs fun r => { r with a := load }), 3)

def opLdhAIndC : Op := fun s =>
  (s.updRegs fun r => { r with a := monitorRdMem s (0xff00 + s.regs.c.setWidth 16) }, 2)

/-! ## Increments and decrements -/

/-- `OP_INC_REG`. -/
def opIncReg (reg : Reg8) : Op := fun s =>
  (s.updRegs fun r =>
    let v := r.get reg
    let f := unsetFlag (flagSub ||| flagHcarry ||| flagZero) r.f
    let f := setFlag (boolToFlag flagZero (isAddZero (u8 v) 1)) f
    let f := setFlag (boolToFlag flagHcarry (isAddHalfCarry (u8 v) 1)) f
    { r with f := f }.set (v + 1) reg, 1)

/-- `OP_DEC_REG`. -/
def opDecReg (reg : Reg8) : Op := fun s =>
  (s.updRegs fun r =>
    let v := r.get reg
    let f := unsetFlag (flagZero ||| flagHcarry) r.f
    let f := setFlag (boolToFlag flagZero (isSubZero (u8 v) 1)) f
    let f := setFlag (boolToFlag flagHcarry (isSubHalfCarry (u8 v) 1)) f
    let f := setFlag flagSub f
    { r with f := f }.set (v - 1) reg, 1)

/-- `op_inc_bc` .. `op_dec_sp`. -/
def incReg16 (reg : Reg16) (x : U16) : Op := fun s => (addReg16 reg x s, 2)

def opIncIndHl : Op := fun s =>
  let load := monitorRdMem s s.regs.hl
  let s := s.updRegs fun r =>
    let f := unsetFlag (flagZero ||| flagHcarry ||| flagSub) r.f
    { r with f := setFlag (boolToFlag flagHcarry (isAddHalfCarry (u8 load) 1)) f }
  let load := load + 1
  let s := monitorWrMem s.regs.hl load s
  (s.updRegs fun r => { r with f := setFlag (boolToFlag flagZero (load == 0)) r.f }, 3)

def opDecIndHl : Op := fun s =>
  let load := monitorRdMem s s.regs.hl
  let s := s.updRegs fun r =>
    let f := unsetFlag (flagZero ||| flagHcarry) r.f
    let f := setFlag (boolToFlag flagHcarry (isSubHalfCarry (u8 load) 1)) f
    { r with f := setFlag flagSub f }
  let load := load - 1
  let s := monitorWrMem s.regs.hl load s
  (s.updRegs fun r => { r with f := setFlag (boolToFlag flagZero (load == 0)) r.f }, 3)

/-! ## Additions and subtractions -/

/-- `DO_ADD(reg, 0)`, `op` the promoted operand. -/
def doAdd (op : CInt) (r : Registers) : Registers :=
  let f := unsetFlagsAll r.f
  let f := setFlag (boolToFlag flagCarry (isAddCarry r.a op)) f
  let f := setFlag (boolToFlag flagHcarry (isAddHalfCarry (u8 r.a) op)) f
  let f := setFlag (boolToFlag flagZero (isAddZero (u8 r.a) op)) f
  { r with f := f, a := (u8 r.a + op).setWidth 8 }

/-- `OP_ADD_REG`. -/
def opAddReg (reg : Reg8) : Op := fun s => (s.updRegs fun r => doAdd (u8 (r.get reg)) r, 1)

/-- `OP_ADD_REG16`. -/
def opAddReg16 (reg : Reg16) : Op := fun s =>
  (s.updRegs fun r =>
    let v := r.get16 reg
    let f := unsetFlag (flagCarry ||| flagHcarry ||| flagSub) r.f
    let f := setFlag (boolToFlag flagCarry (isAdd16Carry r.hl (u16 v))) f
    let f := setFlag (boolToFlag flagHcarry (isAdd16HalfCarry (u16 r.hl) (u16 v))) f
    { r with f := f }.set16 (r.hl + v) .hl, 2)

def opAddAIndHl : Op := fun s =>
  let load := monitorRdMem s s.regs.hl
  (s.updRegs (doAdd (s8 load)), 2)

def opAddAN8 : Op := fun s =>
  let load := monitorRdMem s s.regs.pc
  ((advancePc 1 s).updRegs (doAdd (s8 load)), 2)

def opAddSpE8 : Op := fun s =>
  let load := monitorRdMem s s.regs.pc
  let sum := (u16 s.regs.sp + s8 load).setWidth 16
  let f := unsetFlagsAll s.regs.f
  let f := setFlag (boolToFlag flagHcarry (isAddHalfCarry (u16 s.regs.sp) (s8 load))) f
  let f := setFlag (boolToFlag flagCarry (spCarry sum load)) f
  (advancePc 1 (s.updRegs fun r => { r with sp := sum, f := f }), 4)

/-- `DO_ADC`. -/
def doAdc (op : CInt) (r : Registers) : Registers :=
  let carry := b1 (bit r.f flagCarry)
  let f := unsetFlagsAll r.f
  let f := setFlag (boolToFlag flagHcarry
    ((op ^^^ u8 r.a ^^^ (u8 r.a + op + carry)) &&& 0x10 != 0)) f
  let f := setFlag (boolToFlag flagZero (isAddZero (u8 r.a) (op + carry))) f
  let f := setFlag (boolToFlag flagCarry ((u8 r.a + op + carry) &&& 0xff00 != 0)) f
  { r with f := f, a := (u8 r.a + (op + carry)).setWidth 8 }

/-- `OP_ADC_REG`. -/
def opAdcReg (reg : Reg8) : Op := fun s => (s.updRegs fun r => doAdc (u8 (r.get reg)) r, 1)

/-- The body shared by `op_adc_a_ind_hl` and `op_adc_a_n8`. -/
def adcWord (word : U8) (r : Registers) : Registers :=
  let carry := b1 (bit r.f flagCarry)
  let sum : U16 := (u8 r.a + u8 word + carry).setWidth 16
  let f := unsetFlagsAll r.f
  let f := setFlag (boolToFlag flagHcarry ((u8 word ^^^ u16 sum ^^^ u8 r.a) &&& 0x10 != 0)) f
  let a : U8 := (u8 r.a + (u8 word + carry)).setWidth 8
  let f := setFlag (boolToFlag flagCarry (sum &&& 0xff00 != 0)) f
  let f := setFlag (boolToFlag flagZero (a == 0)) f
  { r with f := f, a := a }

def opAdcAIndHl : Op := fun s =>
  let word := monitorRdMem s s.regs.hl
  (s.updRegs (adcWord word), 2)

def opAdcAN8 : Op := fun s =>
  let word := monitorRdMem s s.regs.pc
  (advancePc 1 (s.updRegs (adcWord word)), 2)

/-- `DO_SUB(reg, 0)` up to its `return 1`. -/
def doSub (op : CInt) (r : Registers) : Registers :=
  let f := unsetFlagsAll r.f
  let f := setFlag (boolToFlag flagCarry (isSubCarry r.a op)) f
  let f := setFlag (boolToFlag flagHcarry (isSubHalfCarry (u8 r.a) op)) f
  let f := setFlag (boolToFlag flagZero (isSubZero (u8 r.a) op)) f
  let f := setFlag flagSub f
  { r with f := f, a := (u8 r.a - op).setWidth 8 }

/-- `OP_SUB_REG`. -/
def opSubReg (reg : Reg8) : Op := fun s => (s.updRegs fun r => doSub (u8 (r.get reg)) r, 1)

/-- The `return 1` inside `DO_SUB` comes before the handler's `return 2`. -/
def opSubAIndHl : Op := fun s =>
  let load := monitorRdMem s s.regs.hl
  (s.updRegs (doSub (s8 load)), 1)

/-- As in `opSubAIndHl`. -/
def opSubAN8 : Op := fun s =>
  let load := monitorRdMem s s.regs.pc
  ((advancePc 1 s).updRegs (doSub (s8 load)), 1)

/-- `DO_SBC`. -/
def doSbc (op : CInt) (r : Registers) : Registers :=
  let carry := b1 (bit r.f flagCarry)
  let f := unsetFlagsAll r.f
  let sum : U16 := (u8 r.a - (op + carry)).setWidth 16
  let f := setFlag (boolToFlag flagHcarry ((op ^^^ u8 r.a ^^^ u16 sum) &&& 0x10 != 0)) f
  let f := setFlag (boolToFlag flagCarry (sum &&& 0xff00 != 0)) f
  let a : U8 := (u8 r.a - (op + carry)).setWidth 8
  let f := setFlag flagSub f
  let f := setFlag (boolToFlag flagZero (a == 0)) f
  { r with f := f, a := a }

/-- `OP_SBC_REG`. -/
def opSbcReg (reg : Reg8) : Op := fun s => (s.updRegs fun r => doSbc (u8 (r.get reg)) r, 1)

/-- The body shared by `op_sbc_a_ind_hl` and `op_sbc_a_n8`. -/
def sbcWord (word : U8) (r : Registers) : Registers :=
  let carry := b1 (bit r.f flagCarry)
  let sum : U16 := (u8 r.a - (u8 word + carry)).setWidth 16
  let f := unsetFlagsAll r.f
  let f := setFlag (boolToFlag flagHcarry ((u8 word ^^^ u16 sum ^^^ u8 r.a) &&& 0x10 != 0)) f
  let a : U8 := (u8 r.a - (u8 word + carry)).setWidth 8
  let f := setFlag (boolToFlag flagCarry (sum &&& 0xff00 != 0)) f
  let f := setFlag (boolToFlag flagZero (a == 0)) f
  let f := setFlag flagSub f
  { r with f := f, a := a }

def opSbcAIndHl : Op := fun s =>
  let word := monitorRdMem s s.regs.hl
  (s.updRegs (sbcWord word), 2)

def opSbcAN8 : Op := fun s =>
  let word := monitorRdMem s s.regs.pc
  (advancePc 1 (s.updRegs (sbcWord word)), 2)

/-! ## Rotates, shifts and bits

The `DO_*` macros change an lvalue and F; here the pair of the two. -/

/-- `DO_RLC`. -/
def doRlc (value f : U8) : U8 × U8 :=
  let carry := bit value 0x80
  let f := setFlag (boolToFlag flagCarry carry) (unsetFlagsAll f)
  let value := value <<< 1
  let value := value &&& ~~~1
  let value := value ||| (if carry then 1 else 0)
  (value, setFlag (boolToFlag flagZero (value == 0)) f)

/-- `DO_RL`. -/
def doRl (value f : U8) : U8 × U8 :=
  let carry := bit f flagCarry
  let bit7 := bit value 0x80
  let f := setFlag (boolToFlag flagCarry bit7) (unsetFlagsAll f)
  let value := value <<< 1
  let value := value ||| (if carry then 1 else 0)
  (value, setFlag (boolToFlag flagZero (value == 0)) f)

/-- `DO_RRC`. -/
def doRrc (value f : U8) : U8 × U8 :=
  let f := setFlag (boolToFlag flagCarry (bit value 0x1)) (unsetFlagsAll f)
  let carry : U8 := if bit value 0x1 then 1 <<< 7 else 0
  let value := value >>> 1
  let value := value &&& ~~~0x80
  let value := value ||| carry
  (value, setFlag (boolToFlag flagZero (value == 0)) f)

/-- `DO_RR`. -/
def doRr (value f : U8) : U8 × U8 :=
  let carry := f &&& flagCarry
  let bit0 := bit value 0x01
  let f := setFlag (boolToFlag flagCarry bit0) (unsetFlagsAll f)
  let value := value >>> 1
  let value := value &&& ~~~0x80
  let value := value ||| (if carry != 0 then (1 : U8) else 0) <<< 7
  (value, setFlag (boolToFlag flagZero (value == 0)) f)

/-- `DO_SLA`. -/
def doSla (value f : U8) : U8 × U8 :=
  let f := unsetFlagsAll f
  let carry := bit value 0x80
  let value := value <<< 1
  let f := setFlag (boolToFlag flagCarry carry) f
  (value, setFlag (boolToFlag flagZero (value == 0)) f)

/-- `DO_SRA`; the carry is the masked byte itself, shifted into its place. -/
def doSra (value f : U8) : U8 × U8 :=
  let f := unsetFlagsAll f
  let bit7 := value &&& 0x80
  let carry := value &&& 0x01
  let value := value >>> 1
  let value := value &&& ~~~bit7
  let value := value ||| bit7
  let f := setFlag (carry <<< 4) f
  (value, setFlag (boolToFlag flagZero (value == 0)) f)

/-- `DO_SRL`. -/
def doSrl (value f : U8) : U8 × U8 :=
  let carryFlag := (value &&& 0x01) <<< 4
  let value := value >>> 1
  let zeroFlag := boolToFlag flagZero (value == 0)
  (value, setFlag (zeroFlag ||| carryFlag) (unsetFlagsAll f))

/-- `DO_SWP`. -/
def doSwp (value f : U8) : U8 × U8 :=
  let lowNibble := value &&& 0x0f
  let value := value >>> 4
  let value := value ||| lowNibble <<< 4
  (value, setFlag (boolToFlag flagZero (value == 0)) (unsetFlagsAll f))

/-- `DO_BIT`; the lvalue is not written. -/
def doBit (bitMask : U8) (value f : U8) : U8 × U8 :=
  let f := unsetFlag (flagZero ||| flagSub) f
  let f := setFlag flagHcarry f
  (value, setFlag (boolToFlag flagZero (!bit value bitMask)) f)

/-- `DO_RST`. -/
def doRst (bitMask : U8) (value f : U8) : U8 × U8 := (value &&& ~~~bitMask, f)

/-- `DO_SET`. -/
def doSet (bitMask : U8) (value f : U8) : U8 × U8 := (value ||| bitMask, f)

/-- `enum bits`. -/
def bits (n : Nat) : U8 := 0b00000001 <<< n

/-- A `DO_*` macro applied to a register: `OP_RLC_REG` .. `OP_SET_REG`. -/
def onReg (doOp : U8 → U8 → U8 × U8) (reg : Reg8) : Op := fun s =>
  (s.updRegs fun r =>
    let vf := doOp (r.get reg) r.f
    { r with f := vf.2 }.set vf.1 reg, 2)

/-- A `DO_*` macro applied to the byte at HL, and written back. -/
def onIndHl (doOp : U8 → U8 → U8 × U8) : Op := fun s =>
  let load := monitorRdMem s s.regs.hl
  let vf := doOp load s.regs.f
  let s := s.updRegs fun r => { r with f := vf.2 }
  (monitorWrMem s.regs.hl vf.1 s, 4)

/-- `OP_BIT_REG`: `DO_BIT` writes no register but F. -/
def opBitReg (bitMask : U8) (reg : Reg8) : Op := fun s =>
  (s.updRegs fun r => { r with f := (doBit bitMask (r.get reg) r.f).2 }, 2)

/-- The body shared by `op_bit0_ind_hl` .. `op_bit7_ind_hl`. -/
def bitIndHl (bitMask : U8) : Op := fun s =>
  let load := monitorRdMem s s.regs.hl
  (s.updRegs fun r => { r with f := (doBit bitMask load r.f).2 }, 3)

/-- The body shared by `op_rlca`, `op_rla`, `op_rrca` and `op_rra`. -/
def rotateA (doOp : U8 → U8 → U8 × U8) : Op := fun s =>
  (s.updRegs fun r =>
    let vf := doOp r.a r.f
    { r with a := vf.1, f := unsetFlag flagZero vf.2 }, 1)

/-! ## Logic -/

/-- `DO_AND`. -/
def doAnd (value : U8) (r : Registers) : Registers :=
  let a := r.a &&& value
  let f := setFlag flagHcarry (unsetFlagsAll r.f)
  { r with a := a, f := setFlag (boolToFlag flagZero (a == 0)) f }

/-- `DO_XOR`. -/
def doXor (value : U8) (r : Registers) : Registers :=
  let a := r.a ^^^ value
  { r with a := a, f := setFlag (boolToFlag flagZero (a == 0)) (unsetFlagsAll r.f) }

/-- `DO_OR`. -/
def doOr (value : U8) (r : Registers) : Registers :=
  let a := r.a ||| value
  { r with a := a, f := setFlag (boolToFlag flagZero (a == 0)) (unsetFlagsAll r.f) }

/-- `DO_CP`. -/
def doCp (value : U8) (r : Registers) : Registers :=
  let f := unsetFlagsAll r.f
  let f := setFlag (boolToFlag flagZero (isSubZero (u8 r.a) (u8 value))) f
  let f := setFlag (boolToFlag flagCarry (isSubCarry r.a (u8 value))) f
  let f := setFlag (boolToFlag flagHcarry (isSubHalfCarry (u8 r.a) (u8 value))) f
  { r with f := setFlag flagSub f }

/-- `OP_AND_REG`, `OP_XOR_REG`, `OP_OR_REG` and `OP_CP_REG`. -/
def opLogicReg (doOp : U8 → Registers → Registers) (reg : Reg8) : Op := fun s =>
  (s.updRegs fun r => doOp (r.get reg) r, 1)

/-- `op_and_a_ind_hl`, `op_xor_a_ind_hl`, `op_or_a_ind_hl` and `op_cp_a_ind_hl`. -/
def logicIndHl (doOp : U8 → Registers → Registers) : Op := fun s =>
  let load := monitorRdMem s s.regs.hl
  (s.updRegs (doOp load), 2)

/-- `op_and_a_n8`, `op_xor_a_n8`, `op_or_a_n8` and `op_cp_a_n8`. -/
def logicN8 (doOp : U8 → Registers → Registers) : Op := fun s =>
  let load := monitorRdMem s s.regs.pc
  ((advancePc 1 s).updRegs (doOp load), 2)

/-! ## Control flow -/

/-- A branch condition, on F. -/
abbrev Cond := U8 → Bool

def condNz : Cond := fun f => !bit f flagZero
def condZ : Cond := fun f => bit f flagZero
def condNc : Cond := fun f => !bit f flagCarry
def condC : Cond := fun f => bit f flagCarry

/-- `REG_PC = addr`. -/
def setPc (addr : U16) (s : Emu) : Emu := s.updRegs fun r => { r with pc := addr }

def opJmpA16 : Op := fun s => (setPc (rdWord s s.regs.pc) s, 4)

/-- `OP_JMP_COND`. -/
def opJmpCond (cond : Cond) : Op := fun s =>
  if cond s.regs.f then opJmpA16 s else (advancePc 2 s, 3)

def opJmpHl : Op := fun s => (setPc s.regs.hl s, 1)

def opJrE8 : Op := fun s =>
  let off := monitorRdMem s s.regs.pc
  (advancePc (off.signExtend 16) (advancePc 1 s), 3)

/-- `OP_JR_COND`. -/
def opJrCond (cond : Cond) : Op := fun s =>
  if cond s.regs.f then opJrE8 s else (advancePc 1 s, 2)

/-- `REG_SP -= 2; WR_WORD(REG_SP, value)`. -/
def push (value : Emu → U16) (s : Emu) : Emu :=
  wrWord (fun s => s.regs.sp) value (addReg16 .sp (-2) s)

/-- `DO_CALL`. -/
def opCallA16 : Op := fun s =>
  let addr := rdWord s s.regs.pc
  (setPc addr (push (fun s => s.regs.pc) (advancePc 2 s)), 6)

/-- `OP_CALL_COND`. -/
def opCallCond (cond : Cond) : Op := fun s =>
  if cond s.regs.f then opCallA16 s else (advancePc 2 s, 3)

/-- `DO_RET`. -/
def doRet (s : Emu) : Emu := addReg16 .sp 2 (setPc (rdWord s s.regs.sp) s)

def opRet : Op := fun s => (doRet s, 4)

/-- `OP_RET_COND`. -/
def opRetCond (cond : Cond) : Op := fun s =>
  if cond s.regs.f then (doRet s, 5) else (s, 2)

/-- `cpu_enable_intr` and `cpu_disable_intr`. -/
def setIme (b : Bool) (s : Emu) : Emu := s.updCpu fun c => { c with imeEnabled := b }

def opReti : Op := fun s => (setIme true (doRet s), 4)

/-- `op_daa`, on A and F. -/
def daa (r : Registers) : Registers :=
  let acc : U16 := r.a.setWidth 16
  let acc :=
    if bit r.f flagSub then
      let acc := if bit r.f flagHcarry then (acc - 6) &&& 0xff else acc
      if bit r.f flagCarry then acc - 60 else acc
    else
      let acc :=
        if !bit r.f flagHcarry then (if r.a.setWidth 16 &&& 0xf > (9 : U16) then acc + 6 else acc)
        else acc + 6
      if !bit r.f flagCarry then (if acc > 0x9f then acc + 0x60 else acc) else acc + 0x60
  let f := unsetFlag flagHcarry r.f
  let a : U8 := (acc &&& 0xff).setWidth 8
  let f := if acc &&& 0x100 = 0x100 then setFlag flagCarry f else f
  { r with a := a, f := if a = 0 then setFlag flagZero f else unsetFlag flagZero f }

def opDaa : Op := fun s => (s.updRegs daa, 1)

def opCpl : Op := fun s =>
  (s.updRegs fun r => { r with a := ~~~r.a, f := setFlag (flagSub ||| flagHcarry) r.f }, 1)

def opScf : Op := fun s =>
  (s.updRegs fun r => { r with
    f := unsetFlag (flagSub ||| flagHcarry) (setFlag flagCarry r.f) }, 1)

def opCcf : Op := fun s =>
  (s.updRegs fun r =>
    let carry := !bit r.f flagCarry
    let f := unsetFlag flagCarry r.f
    let f := setFlag (boolToFlag flagCarry carry) f
    { r with f := unsetFlag (flagSub ||| flagHcarry) f }, 1)

/-- `cpu_halt`. -/
def cpuHalt (s : Emu) : Emu := s.updCpu fun c => { c with isHalted := true }

def opHalt : Op := fun s => (cpuHalt s, 1)

/-- `OP_POP_REG`. -/
def opPopReg (reg : Reg16) : Op := fun s =>
  let load := rdWord s s.regs.sp
  (addReg16 .sp 2 (s.updRegs fun r => r.set16 load reg), 3)

def opPopAf : Op := fun s =>
  let load := rdWord s s.regs.sp
  let s := addReg16 .sp 2 (s.updRegs fun r => r.set16 load .af)
  (s.updRegs fun r => { r with f := r.f &&& 0xf0 }, 3)

/-- `OP_PUSH_REG`. -/
def opPushReg (reg : Reg16) : Op := fun s => (push (fun s => s.regs.get16 reg) s, 3)

/-- `OP_RESTART`. -/
def opRestart (addr : U16) : Op := fun s => (setPc addr (push (fun s => s.regs.pc) s), 4)

def opNop : Op := fun s => (s, 1)
def opPrefix : Op := fun s => (s, 1)
def opInval : Op := fun s => (s, 1)
def opStopN8 : Op := fun s => (advancePc 1 s, 2)
def opDisInts : Op := fun s => (setIme false s, 1)
def opEnaInts : Op := fun s => (setIme true s, 1)

/-! ## The handlers written as one macro each -/

def opLdBB : Op := opLdRegReg .b .b
def opLdBC : Op := opLdRegReg .b .c
def opLdBD : Op := opLdRegReg .b .d
def opLdBE : Op := opLdRegReg .b .e
def opLdBH : Op := opLdRegReg .b .h
def opLdBL : Op := opLdRegReg .b .l

def opLdBIndHl : Op := ldRegIndHl .b 2

def opLdBA : Op := opLdRegReg .b .a
def opLdCB : Op := opLdRegReg .c .b
def opLdCC : Op := opLdRegReg .c .c
def opLdCD : Op := opLdRegReg .c .d
def opLdCE : Op := opLdRegReg .c .e
def opLdCH : Op := opLdRegReg .c .h
def opLdCL : Op := opLdRegReg .c .l
def opLdCA : Op := opLdRegReg .c .a
def opLdDB : Op := opLdRegReg .d .b
def opLdDC : Op := opLdRegReg .d .c
def opLdDD : Op := opLdRegReg .d .d
def opLdDE : Op := opLdRegReg .d .e
def opLdDH : Op := opLdRegReg .d .h
def opLdDL : Op := opLdRegReg .d .l
def opLdDA : Op := opLdRegReg .d .a
def opLdEB : Op := opLdRegReg .e .b
def opLdEC : Op := opLdRegReg .e .c
def opLdED : Op := opLdRegReg .e .d
def opLdEE : Op := opLdRegReg .e .e
def opLdEH : Op := opLdRegReg .e .h
def opLdEL : Op := opLdRegReg .e .l
def opLdEA : Op := opLdRegReg .e .a
def opLdHB : Op := opLdRegReg .h .b
def opLdHC : Op := opLdRegReg .h .c
def opLdHD : Op := opLdRegReg .h .d
def opLdHE : Op := opLdRegReg .h .e
def opLdHH : Op := opLdRegReg .h .h
def opLdHL : Op := opLdRegReg .h .l
def opLdHA : Op := opLdRegReg .h .a
def opLdLB : Op := opLdRegReg .l .b
def opLdLC : Op := opLdRegReg .l .c
def opLdLD : Op := opLdRegReg .l .d
def opLdLE : Op := opLdRegReg .l .e
def opLdLH : Op := opLdRegReg .l .h
def opLdLL : Op := opLdRegReg .l .l
def opLdLA : Op := opLdRegReg .l .a
def opLdAB : Op := opLdRegReg .a .b
def opLdAC : Op := opLdRegReg .a .c
def opLdAD : Op := opLdRegReg .a .d
def opLdAE : Op := opLdRegReg .a .e
def opLdAH : Op := opLdRegReg .a .h
def opLdAL : Op := opLdRegReg .a .l
def opLdAA : Op := opLdRegReg .a .a

def opLdBcN16 : Op := opLdReg16Mem .bc
def opLdDeN16 : Op := opLdReg16Mem .de
def opLdHlN16 : Op := opLdReg16Mem .hl
def opLdSpN16 : Op := opLdReg16Mem .sp

def opLdIndBcA : Op := opLdMemReg .bc .a
def opLdIndDeA : Op := opLdMemReg .de .a
def opLdIndHlB : Op := opLdMemReg .hl .b
def opLdIndHlC : Op := opLdMemReg .hl .c
def opLdIndHlD : Op := opLdMemReg .hl .d
def opLdIndHlE : Op := opLdMemReg .hl .e
def opLdIndHlH : Op := opLdMemReg .hl .h
def opLdIndHlL : Op := opLdMemReg .hl .l
def opLdIndHlA : Op := opLdMemReg .hl .a

def opLdBN8 : Op := opLdRegMem .b
def opLdCN8 : Op := opLdRegMem .c
def opLdDN8 : Op := opLdRegMem .d
def opLdEN8 : Op := opLdRegMem .e
def opLdHN8 : Op := opLdRegMem .h
def opLdLN8 : Op := opLdRegMem .l
def opLdAN8 : Op := opLdRegMem .a

def opLdAIndBc : Op := opLdAIndReg .bc
def opLdAIndDe : Op := opLdAIndReg .de
def opLdAIndHl : Op := opLdAIndReg .hl

def opLdCIndHl : Op := ldRegIndHl .c 1
def opLdDIndHl : Op := ldRegIndHl .d 1
def opLdEIndHl : Op := ldRegIndHl .e 1
def opLdHIndHl : Op := ldRegIndHl .h 1
def opLdLIndHl : Op := ldRegIndHl .l 1

def opIncA : Op := opIncReg .a
def opIncB : Op := opIncReg .b
def opIncC : Op := opIncReg .c
def opIncD : Op := opIncReg .d
def opIncE : Op := opIncReg .e
def opIncH : Op := opIncReg .h
def opIncL : Op := opIncReg .l

def opIncBc : Op := incReg16 .bc 1
def opIncDe : Op := incReg16 .de 1
def opIncHl : Op := incReg16 .hl 1
def opIncSp : Op := incReg16 .sp 1

def opDecA : Op := opDecReg .a
def opDecB : Op := opDecReg .b
def opDecC : Op := opDecReg .c
def opDecD : Op := opDecReg .d
def opDecE : Op := opDecReg .e
def opDecH : Op := opDecReg .h
def opDecL : Op := opDecReg .l

def opDecBc : Op := incReg16 .bc (-1)
def opDecDe : Op := incReg16 .de (-1)
def opDecHl : Op := incReg16 .hl (-1)
def opDecSp : Op := incReg16 .sp (-1)

def opAddAA : Op := opAddReg .a
def opAddAB : Op := opAddReg .b
def opAddAC : Op := opAddReg .c
def opAddAD : Op := opAddReg .d
def opAddAE : Op := opAddReg .e
def opAddAH : Op := opAddReg .h
def opAddAL : Op := opAddReg .l

def opAddHlBc : Op := opAddReg16 .bc
def opAddHlDe : Op := opAddReg16 .de
def opAddHlHl : Op := opAddReg16 .hl
def opAddHlSp : Op := opAddReg16 .sp

def opAdcAA : Op := opAdcReg .a
def opAdcAB : Op := opAdcReg .b
def opAdcAC : Op := opAdcReg .c
def opAdcAD : Op := opAdcReg .d
def opAdcAE : Op := opAdcReg .e
def opAdcAH : Op := opAdcReg .h
def opAdcAL : Op := opAdcReg .l

def opSubAA : Op := opSubReg .a
def opSubAB : Op := opSubReg .b
def opSubAC : Op := opSubReg .c
def opSubAD : Op := opSubReg .d
def opSubAE : Op := opSubReg .e
def opSubAH : Op := opSubReg .h
def opSubAL : Op := opSubReg .l

def opSbcAA : Op := opSbcReg .a
def opSbcAB : Op := opSbcReg .b
def opSbcAC : Op := opSbcReg .c
def opSbcAD : Op := opSbcReg .d
def opSbcAE : Op := opSbcReg .e
def opSbcAH : Op := opSbcReg .h
def opSbcAL : Op := opSbcReg .l

def opRlcB : Op := onReg doRlc .b
def opRlcC : Op := onReg doRlc .c
def opRlcD : Op := onReg doRlc .d
def opRlcE : Op := onReg doRlc .e
def opRlcH : Op := onReg doRlc .h
def opRlcL : Op := onReg doRlc .l

def opRlcIndHl : Op := onIndHl doRlc

def opRlcA : Op := onReg doRlc .a

def opRlca : Op := rotateA doRlc

def opRlB : Op := onReg doRl .b
def opRlC : Op := onReg doRl .c
def opRlD : Op := onReg doRl .d
def opRlE : Op := onReg doRl .e
def opRlH : Op := onReg doRl .h
def opRlL : Op := onReg doRl .l

def opRlIndHl : Op := onIndHl doRl

def opRlA : Op := onReg doRl .a

def opRla : Op := rotateA doRl

def opRrcB : Op := onReg doRrc .b
def opRrcC : Op := onReg doRrc .c
def opRrcD : Op := onReg doRrc .d
def opRrcE : Op := onReg doRrc .e
def opRrcH : Op := onReg doRrc .h
def opRrcL : Op := onReg doRrc .l

def opRrcIndHl : Op := onIndHl doRrc

def opRrcA : Op := onReg doRrc .a

def opRrca : Op := rotateA doRrc

def opRrB : Op := onReg doRr .b
def opRrC : Op := onReg doRr .c
def opRrD : Op := onReg doRr .d
def opRrE : Op := onReg doRr .e
def opRrH : Op := onReg doRr .h
def opRrL : Op := onReg doRr .l

def opRrIndHl : Op := onIndHl doRr

def opRrA : Op := onReg doRr .a

def opRra : Op := rotateA doRr

def opSlaB : Op := onReg doSla .b
def opSlaC : Op := onReg doSla .c
def opSlaD : Op := onReg doSla .d
def opSlaE : Op := onReg doSla .e
def opSlaH : Op := onReg doSla .h
def opSlaL : Op := onReg doSla .l

def opSlaIndHl : Op := onIndHl doSla

def opSlaA : Op := onReg doSla .a
def opSraB : Op := onReg doSra .b
def opSraC : Op := onReg doSra .c
def opSraD : Op := onReg doSra .d
def opSraE : Op := onReg doSra .e
def opSraH : Op := onReg doSra .h
def opSraL : Op := onReg doSra .l

def opSraIndHl : Op := onIndHl doSra

def opSraA : Op := onReg doSra .a
def opSrlB : Op := onReg doSrl .b
def opSrlC : Op := onReg doSrl .c
def opSrlD : Op := onReg doSrl .d
def opSrlE : Op := onReg doSrl .e
def opSrlH : Op := onReg doSrl .h
def opSrlL : Op := onReg doSrl .l

def opSrlIndHl : Op := onIndHl doSrl

def opSrlA : Op := onReg doSrl .a
def opSwpB : Op := onReg doSwp .b
def opSwpC : Op := onReg doSwp .c
def opSwpD : Op := onReg doSwp .d
def opSwpE : Op := onReg doSwp .e
def opSwpH : Op := onReg doSwp .h
def opSwpL : Op := onReg doSwp .l

def opSwpIndHl : Op := onIndHl doSwp

def opSwpA : Op := onReg doSwp .a

def opBit0B : Op := opBitReg (bits 0) .b
def opBit0C : Op := opBitReg (bits 0) .c
def opBit0D : Op := opBitReg (bits 0) .d
def opBit0E : Op := opBitReg (bits 0) .e
def opBit0H : Op := opBitReg (bits 0) .h
def opBit0L : Op := opBitReg (bits 0) .l

def opBit0IndHl : Op := bitIndHl (bits 0)

def opBit0A : Op := opBitReg (bits 0) .a
def opBit1B : Op := opBitReg (bits 1) .b
def opBit1C : Op := opBitReg (bits 1) .c
def opBit1D : Op := opBitReg (bits 1) .d
def opBit1E : Op := opBitReg (bits 1) .e
def opBit1H : Op := opBitReg (bits 1) .h
def opBit1L : Op := opBitReg (bits 1) .l

def opBit1IndHl : Op := bitIndHl (bits 1)

def opBit1A : Op := opBitReg (bits 1) .a
def opBit2B : Op := opBitReg (bits 2) .b
def opBit2C : Op := opBitReg (bits 2) .c
def opBit2D : Op := opBitReg (bits 2) .d
def opBit2E : Op := opBitReg (bits 2) .e
def opBit2H : Op := opBitReg (bits 2) .h
def opBit2L : Op := opBitReg (bits 2) .l

def opBit2IndHl : Op := bitIndHl (bits 2)

def opBit2A : Op := opBitReg (bits 2) .a
def opBit3B : Op := opBitReg (bits 3) .b
def opBit3C : Op := opBitReg (bits 3) .c
def opBit3D : Op := opBitReg (bits 3) .d
def opBit3E : Op := opBitReg (bits 3) .e
def opBit3H : Op := opBitReg (bits 3) .h
def opBit3L : Op := opBitReg (bits 3) .l

def opBit3IndHl : Op := bitIndHl (bits 3)

def opBit3A : Op := opBitReg (bits 3) .a
def opBit4B : Op := opBitReg (bits 4) .b
def opBit4C : Op := opBitReg (bits 4) .c
def opBit4D : Op := opBitReg (bits 4) .d
def opBit4E : Op := opBitReg (bits 4) .e
def opBit4H : Op := opBitReg (bits 4) .h
def opBit4L : Op := opBitReg (bits 4) .l

def opBit4IndHl : Op := bitIndHl (bits 4)

def opBit4A : Op := opBitReg (bits 4) .a
def opBit5B : Op := opBitReg (bits 5) .b
def opBit5C : Op := opBitReg (bits 5) .c
def opBit5D : Op := opBitReg (bits 5) .d
def opBit5E : Op := opBitReg (bits 5) .e
def opBit5H : Op := opBitReg (bits 5) .h
def opBit5L : Op := opBitReg (bits 5) .l

def opBit5IndHl : Op := bitIndHl (bits 5)

def opBit5A : Op := opBitReg (bits 5) .a
def opBit6B : Op := opBitReg (bits 6) .b
def opBit6C : Op := opBitReg (bits 6) .c
def opBit6D : Op := opBitReg (bits 6) .d
def opBit6E : Op := opBitReg (bits 6) .e
def opBit6H : Op := opBitReg (bits 6) .h
def opBit6L : Op := opBitReg (bits 6) .l

def opBit6IndHl : Op := bitIndHl (bits 6)

def opBit6A : Op := opBitReg (bits 6) .a
def opBit7B : Op := opBitReg (bits 7) .b
def opBit7C : Op := opBitReg (bits 7) .c
def opBit7D : Op := opBitReg (bits 7) .d
def opBit7E : Op := opBitReg (bits 7) .e
def opBit7H : Op := opBitReg (bits 7) .h
def opBit7L : Op := opBitReg (bits 7) .l

def opBit7IndHl : Op := bitIndHl (bits 7)

def opBit7A : Op := opBitReg (bits 7) .a

def opRst0B : Op := onReg (doRst (bits 0)) .b
def opRst0C : Op := onReg (doRst (bits 0)) .c
def opRst0D : Op := onReg (doRst (bits 0)) .d
def opRst0E : Op := onReg (doRst (bits 0)) .e
def opRst0H : Op := onReg (doRst (bits 0)) .h
def opRst0L : Op := onReg (doRst (bits 0)) .l

def opRst0IndHl : Op := onIndHl (doRst (bits 0))

def opRst0A : Op := onReg (doRst (bits 0)) .a
def opRst1B : Op := onReg (doRst (bits 1)) .b
def opRst1C : Op := onReg (doRst (bits 1)) .c
def opRst1D : Op := onReg (doRst (bits 1)) .d
def opRst1E : Op := onReg (doRst (bits 1)) .e
def opRst1H : Op := onReg (doRst (bits 1)) .h
def opRst1L : Op := onReg (doRst (bits 1)) .l

def opRst1IndHl : Op := onIndHl (doRst (bits 1))

def opRst1A : Op := onReg (doRst (bits 1)) .a
def opRst2B : Op := onReg (doRst (bits 2)) .b
def opRst2C : Op := onReg (doRst (bits 2)) .c
def opRst2D : Op := onReg (doRst (bits 2)) .d
def opRst2E : Op := onReg (doRst (bits 2)) .e
def opRst2H : Op := onReg (doRst (bits 2)) .h
def opRst2L : Op := onReg (doRst (bits 2)) .l

def opRst2IndHl : Op := onIndHl (doRst (bits 2))

def opRst2A : Op := onReg (doRst (bits 2)) .a
def opRst3B : Op := onReg (doRst (bits 3)) .b
def opRst3C : Op := onReg (doRst (bits 3)) .c
def opRst3D : Op := onReg (doRst (bits 3)) .d
def opRst3E : Op := onReg (doRst (bits 3)) .e
def opRst3H : Op := onReg (doRst (bits 3)) .h
def opRst3L : Op := onReg (doRst (bits 3)) .l

def opRst3IndHl : Op := onIndHl (doRst (bits 3))

def opRst3A : Op := onReg (doRst (bits 3)) .a
def opRst4B : Op := onReg (doRst (bits 4)) .b
def opRst4C : Op := onReg (doRst (bits 4)) .c
def opRst4D : Op := onReg (doRst (bits 4)) .d
def opRst4E : Op := onReg (doRst (bits 4)) .e
def opRst4H : Op := onReg (doRst (bits 4)) .h
def opRst4L : Op := onReg (doRst (bits 4)) .l

def opRst4IndHl : Op := onIndHl (doRst (bits 4))

def opRst4A : Op := onReg (doRst (bits 4)) .a
def opRst5B : Op := onReg (doRst (bits 5)) .b
def opRst5C : Op := onReg (doRst (bits 5)) .c
def opRst5D : Op := onReg (doRst (bits 5)) .d
def opRst5E : Op := onReg (doRst (bits 5)) .e
def opRst5H : Op := onReg (doRst (bits 5)) .h
def opRst5L : Op := onReg (doRst (bits 5)) .l

def opRst5IndHl : Op := onIndHl (doRst (bits 5))

def opRst5A : Op := onReg (doRst (bits 5)) .a
def opRst6B : Op := onReg (doRst (bits 6)) .b
def opRst6C : Op := onReg (doRst (bits 6)) .c
def opRst6D : Op := onReg (doRst (bits 6)) .d
def opRst6E : Op := onReg (doRst (bits 6)) .e
def opRst6H : Op := onReg (doRst (bits 6)) .h
def opRst6L : Op := onReg (doRst (bits 6)) .l

def opRst6IndHl : Op := onIndHl (doRst (bits 6))

def opRst6A : Op := onReg (doRst (bits 6)) .a
def opRst7B : Op := onReg (doRst (bits 7)) .b
def opRst7C : Op := onReg (doRst (bits 7)) .c
def opRst7D : Op := onReg (doRst (bits 7)) .d
def opRst7E : Op := onReg (doRst (bits 7)) .e
def opRst7H : Op := onReg (doRst (bits 7)) .h
def opRst7L : Op := onReg (doRst (bits 7)) .l

def opRst7IndHl : Op := onIndHl (doRst (bits 7))

def opRst7A : Op := onReg (doRst (bits 7)) .a
def opSet0B : Op := onReg (doSet (bits 0)) .b
def opSet0C : Op := onReg (doSet (bits 0)) .c
def opSet0D : Op := onReg (doSet (bits 0)) .d
def opSet0E : Op := onReg (doSet (bits 0)) .e
def opSet0H : Op := onReg (doSet (bits 0)) .h
def opSet0L : Op := onReg (doSet (bits 0)) .l

def opSet0IndHl : Op := onIndHl (doSet (bits 0))

def opSet0A : Op := onReg (doSet (bits 0)) .a
def opSet1B : Op := onReg (doSet (bits 1)) .b
def opSet1C : Op := onReg (doSet (bits 1)) .c
def opSet1D : Op := onReg (doSet (bits 1)) .d
def opSet1E : Op := onReg (doSet (bits 1)) .e
def opSet1H : Op := onReg (doSet (bits 1)) .h
def opSet1L : Op := onReg (doSet (bits 1)) .l

def opSet1IndHl : Op := onIndHl (doSet (bits 1))

def opSet1A : Op := onReg (doSet (bits 1)) .a
def opSet2B : Op := onReg (doSet (bits 2)) .b
def opSet2C : Op := onReg (doSet (bits 2)) .c
def opSet2D : Op := onReg (doSet (bits 2)) .d
def opSet2E : Op := onReg (doSet (bits 2)) .e
def opSet2H : Op := onReg (doSet (bits 2)) .h
def opSet2L : Op := onReg (doSet (bits 2)) .l

def opSet2IndHl : Op := onIndHl (doSet (bits 2))

def opSet2A : Op := onReg (doSet (bits 2)) .a
def opSet3B : Op := onReg (doSet (bits 3)) .b
def opSet3C : Op := onReg (doSet (bits 3)) .c
def opSet3D : Op := onReg (doSet (bits 3)) .d
def opSet3E : Op := onReg (doSet (bits 3)) .e
def opSet3H : Op := onReg (doSet (bits 3)) .h
def opSet3L : Op := onReg (doSet (bits 3)) .l

def opSet3IndHl : Op := onIndHl (doSet (bits 3))

def opSet3A : Op := onReg (doSet (bits 3)) .a
def opSet4B : Op := onReg (doSet (bits 4)) .b
def opSet4C : Op := onReg (doSet (bits 4)) .c
def opSet4D : Op := onReg (doSet (bits 4)) .d
def opSet4E : Op := onReg (doSet (bits 4)) .e
def opSet4H : Op := onReg (doSet (bits 4)) .h
def opSet4L : Op := onReg (doSet (bits 4)) .l

def opSet4IndHl : Op := onIndHl (doSet (bits 4))

def opSet4A : Op := onReg (doSet (bits 4)) .a
def opSet5B : Op := onReg (doSet (bits 5)) .b
def opSet5C : Op := onReg (doSet (bits 5)) .c
def opSet5D : Op := onReg (doSet (bits 5)) .d
def opSet5E : Op := onReg (doSet (bits 5)) .e
def opSet5H : Op := onReg (doSet (bits 5)) .h
def opSet5L : Op := onReg (doSet (bits 5)) .l

def opSet5IndHl : Op := onIndHl (doSet (bits 5))

def opSet5A : Op := onReg (doSet (bits 5)) .a
def opSet6B : Op := onReg (doSet (bits 6)) .b
def opSet6C : Op := onReg (doSet (bits 6)) .c
def opSet6D : Op := onReg (doSet (bits 6)) .d
def opSet6E : Op := onReg (doSet (bits 6)) .e
def opSet6H : Op := onReg (doSet (bits 6)) .h
def opSet6L : Op := onReg (doSet (bits 6)) .l

def opSet6IndHl : Op := onIndHl (doSet (bits 6))

def opSet6A : Op := onReg (doSet (bits 6)) .a
def opSet7B : Op := onReg (doSet (bits 7)) .b
def opSet7C : Op := onReg (doSet (bits 7)) .c
def opSet7D : Op := onReg (doSet (bits 7)) .d
def opSet7E : Op := onReg (doSet (bits 7)) .e
def opSet7H : Op := onReg (doSet (bits 7)) .h
def opSet7L : Op := onReg (doSet (bits 7)) .l

def opSet7IndHl : Op := onIndHl (doSet (bits 7))

def opSet7A : Op := onReg (doSet (bits 7)) .a

def opAndAB : Op := opLogicReg doAnd .b
def opAndAC : Op := opLogicReg doAnd .c
def opAndAD : Op := opLogicReg doAnd .d
def opAndAE : Op := opLogicReg doAnd .e
def opAndAH : Op := opLogicReg doAnd .h
def opAndAL : Op := opLogicReg doAnd .l
def opAndAA : Op := opLogicReg doAnd .a

def opAndAIndHl : Op := logicIndHl doAnd

def opAndAN8 : Op := logicN8 doAnd

def opXorAB : Op := opLogicReg doXor .b
def opXorAC : Op := opLogicReg doXor .c
def opXorAD : Op := opLogicReg doXor .d
def opXorAE : Op := opLogicReg doXor .e
def opXorAH : Op := opLogicReg doXor .h
def opXorAL : Op := opLogicReg doXor .l

def opXorAIndHl : Op := logicIndHl doXor

def opXorAN8 : Op := logicN8 doXor

def opXorAA : Op := opLogicReg doXor .a
def opOrAB : Op := opLogicReg doOr .b
def opOrAC : Op := opLogicReg doOr .c
def opOrAD : Op := opLogicReg doOr .d
def opOrAE : Op := opLogicReg doOr .e
def opOrAH : Op := opLogicReg doOr .h
def opOrAL : Op := opLogicReg doOr .l

def opOrAIndHl : Op := logicIndHl doOr

def opOrAN8 : Op := logicN8 doOr

def opOrAA : Op := opLogicReg doOr .a
def opCpAB : Op := opLogicReg doCp .b
def opCpAC : Op := opLogicReg doCp .c
def opCpAD : Op := opLogicReg doCp .d
def opCpAE : Op := opLogicReg doCp .e
def opCpAH : Op := opLogicReg doCp .h
def opCpAL : Op := opLogicReg doCp .l

def opCpAIndHl : Op := logicIndHl doCp

def opCpAA : Op := opLogicReg doCp .a

def opCpAN8 : Op := logicN8 doCp

def opJmpNzA16 : Op := opJmpCond condNz
def opJmpZA16 : Op := opJmpCond condZ
def opJmpNcA16 : Op := opJmpCond condNc
def opJmpCA16 : Op := opJmpCond condC

def opJrNzE8 : Op := opJrCond condNz
def opJrZE8 : Op := opJrCond condZ
def opJrNcE8 : Op := opJrCond condNc
def opJrCE8 : Op := opJrCond condC

def opCallNzA16 : Op := opCallCond condNz
def opCallZA16 : Op := opCallCond condZ
def opCallNcA16 : Op := opCallCond condNc
def opCallCA16 : Op := opCallCond condC

def opRetNz : Op := opRetCond condNz
def opRetZ : Op := opRetCond condZ
def opRetNc : Op := opRetCond condNc
def opRetC : Op := opRetCond condC

def opPopBc : Op := opPopReg .bc
def opPopDe : Op := opPopReg .de
def opPopHl : Op := opPopReg .hl

def opPushBc : Op := opPushReg .bc
def opPushDe : Op := opPushReg .de
def opPushHl : Op := opPushReg .hl
def opPushAf : Op := opPushReg .af

def opRestart0h : Op := opRestart 0x0
def opRestart8h : Op := opRestart 0x8
def opRestart10h : Op := opRestart 0x10
def opRestart18h : Op := opRestart 0x18
def opRestart20h : Op := opRestart 0x20
def opRestart28h : Op := opRestart 0x28
def opRestart30h : Op := opRestart 0x30
def opRestart38h : Op := opRestart 0x38

end RealBoy
