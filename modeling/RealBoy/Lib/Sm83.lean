/-
# `RealBoy.Lib.Sm83` — the SM83 instruction set: decoding, lengths, cycles

An opcode byte is read as the fields `x = op / 64`, `y = op / 8 % 8` and
`z = op % 8`; most of the map is regular in them.  An instruction's machine
cycles are the bytes it is fetched from, the data bytes it reads or writes, and
its internal cycles; the last two depend on whether a branch is taken.
-/
import Mathlib.Data.BitVec

namespace Sm83

/-- An 8-bit operand, in encoding order. -/
inductive Operand where
  | b | c | d | e | h | l | indHl | a
deriving DecidableEq

inductive Pair where
  | bc | de | hl | sp
deriving DecidableEq

/-- What PUSH and POP move. -/
inductive StackPair where
  | bc | de | hl | af
deriving DecidableEq

/-- The pointers of the loads and stores of A. -/
inductive Pointer where
  | bc | de | hlInc | hlDec
deriving DecidableEq

inductive Cond where
  | nz | z | nc | c
deriving DecidableEq

inductive Alu where
  | add | adc | sub | sbc | and | xor | or | cp
deriving DecidableEq

inductive Shift where
  | rlc | rrc | rl | rr | sla | sra | swap | srl
deriving DecidableEq

/-- The instructions; a jump, call or return without a condition has `none`. -/
inductive Instr where
  | nop | stop | halt | di | ei | daa | cpl | scf | ccf
  | ld (dst src : Operand)
  | ldImm (dst : Operand)
  | ldPairImm (rr : Pair)
  | storeA (p : Pointer)
  | loadA (p : Pointer)
  | ldA16Sp | ldA16A | ldAA16 | ldhA8A | ldhAA8 | ldhCA | ldhAC
  | ldSpHl | ldHlSpE8 | addSpE8
  | inc (o : Operand)
  | dec (o : Operand)
  | incPair (rr : Pair)
  | decPair (rr : Pair)
  | addHl (rr : Pair)
  | alu (k : Alu) (o : Operand)
  | aluImm (k : Alu)
  | rotA (k : Shift)
  | jp (cc : Option Cond)
  | jpHl
  | jr (cc : Option Cond)
  | call (cc : Option Cond)
  | ret (cc : Option Cond)
  | reti
  | rst (n : Nat)
  | push (rr : StackPair)
  | pop (rr : StackPair)
  | shift (k : Shift) (o : Operand)
  | bit (n : Nat) (o : Operand)
  | res (n : Nat) (o : Operand)
  | set (n : Nat) (o : Operand)
  | prefixByte
  | undefined
deriving DecidableEq

/-! ## Decoding -/

def Operand.ofField : Nat → Operand
  | 0 => .b
  | 1 => .c
  | 2 => .d
  | 3 => .e
  | 4 => .h
  | 5 => .l
  | 6 => .indHl
  | _ => .a

def Pair.ofField : Nat → Pair
  | 0 => .bc
  | 1 => .de
  | 2 => .hl
  | _ => .sp

def StackPair.ofField : Nat → StackPair
  | 0 => .bc
  | 1 => .de
  | 2 => .hl
  | _ => .af

def Pointer.ofField : Nat → Pointer
  | 0 => .bc
  | 1 => .de
  | 2 => .hlInc
  | _ => .hlDec

def Cond.ofField : Nat → Cond
  | 0 => .nz
  | 1 => .z
  | 2 => .nc
  | _ => .c

def Alu.ofField : Nat → Alu
  | 0 => .add
  | 1 => .adc
  | 2 => .sub
  | 3 => .sbc
  | 4 => .and
  | 5 => .xor
  | 6 => .or
  | _ => .cp

def Shift.ofField : Nat → Shift
  | 0 => .rlc
  | 1 => .rrc
  | 2 => .rl
  | 3 => .rr
  | 4 => .sla
  | 5 => .sra
  | 6 => .swap
  | _ => .srl

/-- Opcodes 0x00 .. 0x3f. -/
def decodeLow (y : Nat) : (z : Nat) → Instr
  | 0 =>
    match y with
    | 0 => .nop
    | 1 => .ldA16Sp
    | 2 => .stop
    | 3 => .jr none
    | _ => .jr (some (.ofField (y - 4)))
  | 1 => if y % 2 = 0 then .ldPairImm (.ofField (y / 2)) else .addHl (.ofField (y / 2))
  | 2 => if y % 2 = 0 then .storeA (.ofField (y / 2)) else .loadA (.ofField (y / 2))
  | 3 => if y % 2 = 0 then .incPair (.ofField (y / 2)) else .decPair (.ofField (y / 2))
  | 4 => .inc (.ofField y)
  | 5 => .dec (.ofField y)
  | 6 => .ldImm (.ofField y)
  | _ =>
    match y with
    | 4 => .daa
    | 5 => .cpl
    | 6 => .scf
    | 7 => .ccf
    | _ => .rotA (.ofField y)

/-- Opcodes 0xc0 .. 0xff. -/
def decodeHigh (y : Nat) : (z : Nat) → Instr
  | 0 =>
    match y with
    | 4 => .ldhA8A
    | 5 => .addSpE8
    | 6 => .ldhAA8
    | 7 => .ldHlSpE8
    | _ => .ret (some (.ofField y))
  | 1 =>
    match y with
    | 1 => .ret none
    | 3 => .reti
    | 5 => .jpHl
    | 7 => .ldSpHl
    | _ => .pop (.ofField (y / 2))
  | 2 =>
    match y with
    | 4 => .ldhCA
    | 5 => .ldA16A
    | 6 => .ldhAC
    | 7 => .ldAA16
    | _ => .jp (some (.ofField y))
  | 3 =>
    match y with
    | 0 => .jp none
    | 1 => .prefixByte
    | 6 => .di
    | 7 => .ei
    | _ => .undefined
  | 4 => if y < 4 then .call (some (.ofField y)) else .undefined
  | 5 => if y % 2 = 0 then .push (.ofField (y / 2)) else if y = 1 then .call none else .undefined
  | 6 => .aluImm (.ofField y)
  | _ => .rst y

/-- The fields of an opcode. -/
def decodeFields (y z : Nat) : (x : Nat) → Instr
  | 0 => decodeLow y z
  | 1 => if y = 6 ∧ z = 6 then .halt else .ld (.ofField y) (.ofField z)
  | 2 => .alu (.ofField y) (.ofField z)
  | _ => decodeHigh y z

/-- An opcode that does not follow 0xcb. -/
def decode (op : BitVec 8) : Instr :=
  decodeFields (op.toNat / 8 % 8) (op.toNat % 8) (op.toNat / 64)

/-- An opcode that follows 0xcb. -/
def decodePrefix (op : BitVec 8) : Instr :=
  let y := op.toNat / 8 % 8
  let o := Operand.ofField (op.toNat % 8)
  match op.toNat / 64 with
  | 0 => .shift (.ofField y) o
  | 1 => .bit y o
  | 2 => .res y o
  | _ => .set y o

/-! ## Conditions -/

/-- A branch condition, on the flag byte: Z is bit 7, C is bit 4. -/
def Cond.holds (f : BitVec 8) : Cond → Bool
  | .nz => !f.getLsbD 7
  | .z => f.getLsbD 7
  | .nc => !f.getLsbD 4
  | .c => f.getLsbD 4

/-- Whether a jump, call or return with this condition is taken. -/
def condTaken (f : BitVec 8) : Option Cond → Bool
  | none => true
  | some cc => cc.holds f

/-! ## Cycles -/

def Operand.data : Operand → Nat
  | .indHl => 1
  | _ => 0

/-- The bytes an instruction is fetched from. -/
def Instr.bytes : Instr → Nat
  | .stop | .ldImm _ | .ldhA8A | .ldhAA8 | .ldHlSpE8 | .addSpE8 | .aluImm _ | .jr _ => 2
  | .shift _ _ | .bit _ _ | .res _ _ | .set _ _ => 2
  | .ldPairImm _ | .ldA16Sp | .ldA16A | .ldAA16 | .jp _ | .call _ => 3
  | _ => 1

/-- The data bytes it reads or writes. -/
def Instr.data (f : BitVec 8) : Instr → Nat
  | .ld dst src => dst.data + src.data
  | .ldImm dst => dst.data
  | .storeA _ | .loadA _ | .ldA16A | .ldAA16 | .ldhA8A | .ldhAA8 | .ldhCA | .ldhAC => 1
  | .ldA16Sp => 2
  | .inc o | .dec o => 2 * o.data
  | .alu _ o => o.data
  | .call cc | .ret cc => if condTaken f cc then 2 else 0
  | .reti | .rst _ | .push _ | .pop _ => 2
  | .shift _ o | .res _ o | .set _ o => 2 * o.data
  | .bit _ o => o.data
  | _ => 0

/-- Its internal cycles. -/
def Instr.internal (f : BitVec 8) : Instr → Nat
  | .incPair _ | .decPair _ | .addHl _ | .ldSpHl | .ldHlSpE8 | .push _ | .rst _ | .reti => 1
  | .addSpE8 => 2
  | .jp cc | .jr cc | .call cc => if condTaken f cc then 1 else 0
  | .ret none => 1
  | .ret (some cc) => if cc.holds f then 2 else 1
  | _ => 0

/-- The machine cycles of an instruction executed with flags `f`. -/
def Instr.cycles (f : BitVec 8) (i : Instr) : Nat := i.bytes + i.data f + i.internal f

theorem Operand.data_le (o : Operand) : o.data ≤ 1 := by
  cases o <;> decide

/-- No instruction is longer than a CALL that is taken. -/
theorem Instr.cycles_le (i : Instr) (f : BitVec 8) : i.cycles f ≤ 6 := by
  cases i with
  | ld dst src =>
      have hd := dst.data_le
      have hs := src.data_le
      show 1 + (dst.data + src.data) + 0 ≤ 6
      omega
  | ldImm o | alu _ o | bit _ o =>
      have ho := o.data_le
      show _ + o.data + 0 ≤ 6
      simp only [Instr.bytes]
      omega
  | inc o | dec o | shift _ o | res _ o | set _ o =>
      have ho := o.data_le
      show _ + 2 * o.data + 0 ≤ 6
      simp only [Instr.bytes]
      omega
  | jp cc =>
      show 3 + 0 + (if condTaken f cc then 1 else 0) ≤ 6
      split <;> decide
  | jr cc =>
      show 2 + 0 + (if condTaken f cc then 1 else 0) ≤ 6
      split <;> decide
  | call cc =>
      show 3 + (if condTaken f cc then 2 else 0) + (if condTaken f cc then 1 else 0) ≤ 6
      split <;> decide
  | ret cc =>
      cases cc with
      | none => exact (by decide : 4 ≤ 6)
      | some cc =>
          show 1 + (if cc.holds f then 2 else 0) + (if cc.holds f then 2 else 1) ≤ 6
          split <;> decide
  | _ => exact Nat.le_of_ble_eq_true rfl

/-- The instructions the cycle count is about: not STOP, HALT, the prefix byte
and the undefined opcodes, nor LD (HL),(HL), whose place is HALT's. -/
def Instr.timed : Instr → Bool
  | .stop | .halt | .prefixByte | .undefined | .ld .indHl .indHl => false
  | _ => true

/-! ## Lengths -/

/-- The bytes of the opcode itself. -/
def Instr.opcodeBytes : Instr → Nat
  | .shift _ _ | .bit _ _ | .res _ _ | .set _ _ => 2
  | _ => 1

/-- The operand bytes come after the opcode. -/
theorem Instr.opcodeBytes_le (i : Instr) : i.opcodeBytes ≤ i.bytes := by
  cases i <;> exact Nat.le_of_ble_eq_true rfl

/-- A jump, call, return or restart is taken. -/
def Instr.transfers (f : BitVec 8) : Instr → Bool
  | .jp cc | .jr cc | .call cc | .ret cc => condTaken f cc
  | .jpHl | .reti | .rst _ => true
  | _ => false

theorem decode_opcodeBytes (op : BitVec 8) : (decode op).opcodeBytes = 1 := by
  revert op
  decide +kernel

theorem decodePrefix_opcodeBytes (op : BitVec 8) :
    (decodePrefix op).opcodeBytes = 2 ∧ (decodePrefix op).bytes = 2 := by
  unfold decodePrefix
  split <;> exact ⟨rfl, rfl⟩

end Sm83
