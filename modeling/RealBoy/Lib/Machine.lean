/-
# `RealBoy.Lib.Machine` — the SM83 as a state machine

What the instructions mean, over any environment: a `Bus` reads and writes
bytes and keeps the interrupt flip-flops, and nothing else of it is looked at.
The registers are bytes and words, F is its four flags, and the arithmetic is
the exact one of `Lib.Alu` and `Lib.Shift`.  `exec` has one line an
instruction; `next` is fetch, execute, time and interrupts.

Two things are fixed here that a bus could observe: the bytes of a word go out
low byte first, in a push as well, and EI acts at once.  The instructions
without a meaning of their own (`Instr.defined`) leave the state alone.
-/
import RealBoy.Lib.Shift

namespace Sm83

/-! ## State -/

/-- The registers. -/
structure Cpu where
  a : BitVec 8
  b : BitVec 8
  c : BitVec 8
  d : BitVec 8
  e : BitVec 8
  h : BitVec 8
  l : BitVec 8
  flags : Flags
  sp : BitVec 16
  pc : BitVec 16
deriving DecidableEq

/-- What is on the other side of the pins. -/
structure Bus (E : Type) where
  rd : E → BitVec 16 → BitVec 8
  wr : BitVec 16 → BitVec 8 → E → E
  ime : E → Bool
  setIme : Bool → E → E
  halted : E → Bool
  setHalted : Bool → E → E
  /-- The interrupts that are requested and enabled. -/
  pending : E → BitVec 8
  /-- The request of one interrupt is withdrawn. -/
  ack : Nat → E → E

/-- A bus with its clock. -/
structure Machine (E : Type) extends Bus E where
  cost : Instr → Flags → Nat
  /-- The time of an instruction passes, before the interrupts. -/
  elapse : Nat → E → E
  /-- A halted CPU waits. -/
  idle : E → E

/-- The registers and the rest. -/
@[ext] structure State (E : Type) where
  cpu : Cpu
  env : E

/-! ## Registers -/

/-- F as a byte: the flags in its upper half. -/
def Flags.byte (fl : Flags) : BitVec 8 :=
  (if fl.z then 0x80 else 0) ||| (if fl.n then 0x40 else 0) ||| (if fl.h then 0x20 else 0) |||
    (if fl.c then 0x10 else 0)

/-- The flags of a byte. -/
def Flags.of (f : BitVec 8) : Flags := ⟨f.getLsbD 7, f.getLsbD 6, f.getLsbD 5, f.getLsbD 4⟩

/-- The carry DAA leaves: of the last operation, or of the correction. -/
def daaCarry (a : BitVec 8) (fl : Flags) : Bool := fl.c || (!fl.n && decide (0x99 < a.toNat))

/-- What DAA makes of A. -/
def daaValue (a : BitVec 8) (fl : Flags) : BitVec 8 :=
  let low := fl.h || (!fl.n && decide (9 < a.toNat % 16))
  let d : BitVec 8 := (if low then 0x06 else 0) + (if daaCarry a fl then 0x60 else 0)
  if fl.n then a - d else a + d

/-- The high and the low byte of a word. -/
abbrev hi (w : BitVec 16) : BitVec 8 := w.extractLsb' 8 8
abbrev lo (w : BitVec 16) : BitVec 8 := w.extractLsb' 0 8

/-- An address of the last page, which LDH reaches. -/
def ioAddr (x : BitVec 8) : BitVec 16 := (0xff : BitVec 8) ++ x

namespace Cpu

def bc (r : Cpu) : BitVec 16 := r.b ++ r.c
def de (r : Cpu) : BitVec 16 := r.d ++ r.e
def hl (r : Cpu) : BitVec 16 := r.h ++ r.l

def pair (r : Cpu) : Pair → BitVec 16
  | .bc => r.bc
  | .de => r.de
  | .hl => r.hl
  | .sp => r.sp

def setPair (w : BitVec 16) (r : Cpu) : Pair → Cpu
  | .bc => { r with b := hi w, c := lo w }
  | .de => { r with d := hi w, e := lo w }
  | .hl => { r with h := hi w, l := lo w }
  | .sp => { r with sp := w }

/-- What PUSH moves. -/
def stackPair (r : Cpu) : StackPair → BitVec 16
  | .bc => r.bc
  | .de => r.de
  | .hl => r.hl
  | .af => r.a ++ r.flags.byte

/-- POP; of F the four flags are kept. -/
def setStackPair (w : BitVec 16) (r : Cpu) : StackPair → Cpu
  | .bc => { r with b := hi w, c := lo w }
  | .de => { r with d := hi w, e := lo w }
  | .hl => { r with h := hi w, l := lo w }
  | .af => { r with a := hi w, flags := .of (lo w) }

/-- The address of a load or store of A. -/
def pointer (r : Cpu) : Pointer → BitVec 16
  | .bc => r.bc
  | .de => r.de
  | .hlInc | .hlDec => r.hl

/-- And what it leaves of HL. -/
def bump (r : Cpu) : Pointer → Cpu
  | .bc | .de => r
  | .hlInc => r.setPair (r.hl + 1) .hl
  | .hlDec => r.setPair (r.hl - 1) .hl

def skip (n : BitVec 16) (r : Cpu) : Cpu := { r with pc := r.pc + n }

/-- An operation on A. -/
def alu (k : Alu) (v : BitVec 8) (r : Cpu) : Cpu :=
  { r with a := k.value r.a v r.flags.c, flags := k.flags r.a v r.flags.c }

/-- The sum of HL and a word; Z stays. -/
def addHl (w : BitVec 16) (r : Cpu) : Cpu :=
  { r.setPair (r.hl + w) .hl with
    flags :=
      { z := r.flags.z
        n := false
        h := 4096 ≤ r.hl.toNat % 4096 + w.toNat % 4096
        c := 65536 ≤ r.hl.toNat + w.toNat } }

/-- SP and a signed byte; the carries are those of the low bytes. -/
def offsetSp (e : BitVec 8) (r : Cpu) : BitVec 16 × Flags :=
  (r.sp + e.signExtend 16, { addFlags (lo r.sp) e false with z := false })

/-- DAA: a digit that carried, or that an addition left above nine, is
corrected by six in its place. -/
def daa (r : Cpu) : Cpu :=
  { r with
    a := daaValue r.a r.flags
    flags :=
      { z := daaValue r.a r.flags == 0
        n := r.flags.n
        h := false
        c := daaCarry r.a r.flags } }

/-- The rotates of A alone leave Z clear. -/
def rotA (k : Shift) (r : Cpu) : Cpu :=
  { r with
    a := k.value r.a r.flags.c
    flags := { k.flags r.a r.flags.c with z := false } }

/-- Whether a branch is taken. -/
def taken (r : Cpu) : Option Cond → Bool
  | none => true
  | some .nz => !r.flags.z
  | some .z => r.flags.z
  | some .nc => !r.flags.c
  | some .c => r.flags.c

end Cpu

namespace State

variable {E : Type}

def onCpu (f : Cpu → Cpu) (s : State E) : State E := { s with cpu := f s.cpu }
def onEnv (f : E → E) (s : State E) : State E := { s with env := f s.env }
def jump (addr : BitVec 16) (s : State E) : State E := s.onCpu fun r => { r with pc := addr }

@[simp] theorem onCpu_cpu (f : Cpu → Cpu) (s : State E) : (s.onCpu f).cpu = f s.cpu := rfl
@[simp] theorem onCpu_env (f : Cpu → Cpu) (s : State E) : (s.onCpu f).env = s.env := rfl
@[simp] theorem onEnv_cpu (f : E → E) (s : State E) : (s.onEnv f).cpu = s.cpu := rfl
@[simp] theorem onEnv_env (f : E → E) (s : State E) : (s.onEnv f).env = f s.env := rfl

end State

/-! ## Instructions -/

/-- The instructions with a meaning: not STOP, the prefix byte and the undefined
opcodes, nor LD (HL),(HL), whose place is HALT's. -/
def Instr.defined : Instr → Bool
  | .stop | .prefixByte | .undefined | .ld .indHl .indHl => false
  | _ => true

namespace Bus

variable {E : Type} (M : Bus E)

def rdWord (e : E) (addr : BitVec 16) : BitVec 16 := M.rd e (addr + 1) ++ M.rd e addr

def wrWord (addr w : BitVec 16) (e : E) : E := M.wr (addr + 1) (hi w) (M.wr addr (lo w) e)

/-- The operand bytes after the opcode. -/
def imm8 (s : State E) : BitVec 8 := M.rd s.env s.cpu.pc
def imm16 (s : State E) : BitVec 16 := M.rdWord s.env s.cpu.pc

/-- An 8-bit operand. -/
def get (s : State E) : Operand → BitVec 8
  | .b => s.cpu.b
  | .c => s.cpu.c
  | .d => s.cpu.d
  | .e => s.cpu.e
  | .h => s.cpu.h
  | .l => s.cpu.l
  | .indHl => M.rd s.env s.cpu.hl
  | .a => s.cpu.a

def put (v : BitVec 8) (s : State E) : Operand → State E
  | .b => s.onCpu fun r => { r with b := v }
  | .c => s.onCpu fun r => { r with c := v }
  | .d => s.onCpu fun r => { r with d := v }
  | .e => s.onCpu fun r => { r with e := v }
  | .h => s.onCpu fun r => { r with h := v }
  | .l => s.onCpu fun r => { r with l := v }
  | .indHl => s.onEnv (M.wr s.cpu.hl v)
  | .a => s.onCpu fun r => { r with a := v }

/-- An operand is changed, and the flags with it. -/
def update (o : Operand) (v : BitVec 8) (fl : Flags) (s : State E) : State E :=
  M.put v (s.onCpu fun r => { r with flags := fl }) o

def push (w : BitVec 16) (s : State E) : State E :=
  (s.onCpu fun r => { r with sp := r.sp - 2 }).onEnv (M.wrWord (s.cpu.sp - 2) w)

/-- RET. -/
def ret (s : State E) : State E :=
  s.onCpu fun r => { r with pc := M.rdWord s.env r.sp, sp := r.sp + 2 }

/-- CALL, with PC behind the operand. -/
def call (addr : BitVec 16) (s : State E) : State E := (M.push s.cpu.pc s).jump addr

/-- **The instructions**, from the state with PC behind the opcode. -/
def exec (s : State E) : Instr → State E
  | .nop | .stop | .prefixByte | .undefined => s
  | .halt => s.onEnv (M.setHalted true)
  | .di => s.onEnv (M.setIme false)
  | .ei => s.onEnv (M.setIme true)
  | .daa => s.onCpu Cpu.daa
  | .cpl => s.onCpu fun r => { r with a := ~~~r.a, flags := { r.flags with n := true, h := true } }
  | .scf => s.onCpu fun r => { r with flags := ⟨r.flags.z, false, false, true⟩ }
  | .ccf => s.onCpu fun r => { r with flags := ⟨r.flags.z, false, false, !r.flags.c⟩ }
  | .ld dst src => M.put (M.get s src) s dst
  | .ldImm dst => M.put (M.imm8 s) (s.onCpu (Cpu.skip 1)) dst
  | .ldPairImm rr => s.onCpu fun r => (r.skip 2).setPair (M.imm16 s) rr
  | .storeA p => (s.onEnv (M.wr (s.cpu.pointer p) s.cpu.a)).onCpu (Cpu.bump · p)
  | .loadA p => s.onCpu fun r => { r.bump p with a := M.rd s.env (r.pointer p) }
  | .ldA16Sp => (s.onEnv (M.wrWord (M.imm16 s) s.cpu.sp)).onCpu (Cpu.skip 2)
  | .ldA16A => (s.onEnv (M.wr (M.imm16 s) s.cpu.a)).onCpu (Cpu.skip 2)
  | .ldAA16 => s.onCpu fun r => { r.skip 2 with a := M.rd s.env (M.imm16 s) }
  | .ldhA8A => (s.onEnv (M.wr (ioAddr (M.imm8 s)) s.cpu.a)).onCpu (Cpu.skip 1)
  | .ldhAA8 => s.onCpu fun r => { r.skip 1 with a := M.rd s.env (ioAddr (M.imm8 s)) }
  | .ldhCA => s.onEnv (M.wr (ioAddr s.cpu.c) s.cpu.a)
  | .ldhAC => s.onCpu fun r => { r with a := M.rd s.env (ioAddr r.c) }
  | .ldSpHl => s.onCpu fun r => { r with sp := r.hl }
  | .ldHlSpE8 => s.onCpu fun r =>
      let (w, fl) := r.offsetSp (M.imm8 s)
      { (r.skip 1).setPair w .hl with flags := fl }
  | .addSpE8 => s.onCpu fun r =>
      let (w, fl) := r.offsetSp (M.imm8 s)
      { r.skip 1 with sp := w, flags := fl }
  | .inc o =>
      let v := M.get s o
      M.update o (addValue v 1 false) (incFlags v s.cpu.flags.c) s
  | .dec o =>
      let v := M.get s o
      M.update o (subValue v 1 false) (decFlags v s.cpu.flags.c) s
  | .incPair rr => s.onCpu fun r => r.setPair (r.pair rr + 1) rr
  | .decPair rr => s.onCpu fun r => r.setPair (r.pair rr - 1) rr
  | .addHl rr => s.onCpu fun r => r.addHl (r.pair rr)
  | .alu k o => s.onCpu (Cpu.alu k (M.get s o))
  | .aluImm k => s.onCpu fun r => (r.alu k (M.imm8 s)).skip 1
  | .rotA k => s.onCpu (Cpu.rotA k)
  | .jp cc => if s.cpu.taken cc then s.jump (M.imm16 s) else s.onCpu (Cpu.skip 2)
  | .jpHl => s.jump s.cpu.hl
  | .jr cc =>
      if s.cpu.taken cc then s.onCpu (Cpu.skip (1 + (M.imm8 s).signExtend 16))
      else s.onCpu (Cpu.skip 1)
  | .call cc =>
      if s.cpu.taken cc then M.call (M.imm16 s) (s.onCpu (Cpu.skip 2)) else s.onCpu (Cpu.skip 2)
  | .ret cc => if s.cpu.taken cc then M.ret s else s
  | .reti => (M.ret s).onEnv (M.setIme true)
  | .rst n => M.call (BitVec.ofNat 16 (8 * n)) s
  | .push rr => M.push (s.cpu.stackPair rr) s
  | .pop rr => s.onCpu fun r => { r.setStackPair (M.rdWord s.env r.sp) rr with sp := r.sp + 2 }
  | .shift k o =>
      let v := M.get s o
      M.update o (k.value v s.cpu.flags.c) (k.flags v s.cpu.flags.c) s
  | .bit n o => s.onCpu fun r => { r with flags := bitFlags n (M.get s o) r.flags.c }
  | .res n o => M.put (resBit n (M.get s o)) s o
  | .set n o => M.put (setBit n (M.get s o)) s o

/-- The instruction at PC. -/
def instr (s : State E) : Instr :=
  let op := M.rd s.env s.cpu.pc
  if op = 0xcb then decodePrefix (M.rd s.env (s.cpu.pc + 1)) else decode op

/-- Fetch and execute. -/
def step (s : State E) : State E :=
  M.exec (s.onCpu (Cpu.skip (BitVec.ofNat 16 (M.instr s).opcodeBytes))) (M.instr s)

/-! ## Interrupts -/

/-- The interrupt of the highest priority: the lowest bit. -/
def lowest (p : BitVec 8) : Option Nat := (List.range 8).find? fun b => p.getLsbD b

/-- **The interrupts**: one that is pending ends HALT, and is taken if IME is set. -/
def interrupt (s : State E) : State E :=
  match lowest (M.pending s.env) with
  | none => s
  | some b =>
    let s := s.onEnv (M.setHalted false)
    if M.ime s.env then
      M.call (0x40 + 8 * BitVec.ofNat 16 b) (s.onEnv fun e => M.ack b (M.setIme false e))
    else s

end Bus

namespace Machine

variable {E : Type} (M : Machine E)

/-- **A step of the machine.** -/
def next (s : State E) : State E :=
  if M.halted s.env then M.interrupt (s.onEnv M.idle)
  else M.interrupt ((M.step s).onEnv (M.elapse (M.cost (M.instr s) s.cpu.flags)))

end Machine

end Sm83
