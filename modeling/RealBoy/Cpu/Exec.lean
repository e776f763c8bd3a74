/-
# `RealBoy.Cpu.Exec` — one step of the CPU

`cpu_exec_next`: fetch and execute, the DIV and TIMA counters, the interrupt
scan.  And `exec_next` of the monitor, which feeds the cycles to the PPU.
-/
import RealBoy.Cpu.Table
import RealBoy.Emu.Refresh

namespace RealBoy

/-- The address `process_intr` jumps to; `none` where its `switch` has no case
and the variable is never assigned. -/
def interruptHandlerAddr (interruptBit : U8) : Option U16 :=
  if interruptBit = 0x01 then some 0x40
  else if interruptBit = 0x02 then some 0x48
  else if interruptBit = 0x04 then some 0x50
  else if interruptBit = 0x08 then some 0x58
  else if interruptBit = 0x10 then some 0x60
  else none

/-- `process_intr`. -/
def processIntr (interruptBit : U8) (s : Emu) : Emu :=
  setPc ((interruptHandlerAddr interruptBit).getD 0) (push (fun s => s.regs.pc) s)

/-- The loop body of `handle_intrs`. -/
def intrStep (s : Emu) (intrMask : U8) : Emu :=
  if s.cpu.ifReg &&& s.cpu.ieReg &&& intrMask ≠ 0 then
    let s := s.updCpu fun c => { c with isHalted := false }
    if s.cpu.imeEnabled then
      processIntr intrMask (s.updCpu fun c => { c with
        imeEnabled := false, ifReg := c.ifReg &&& ~~~intrMask, isHalted := false })
    else s
  else s

/-- `handle_intrs`; the mask runs over the eight bits and then is 0. -/
def handleIntrs (s : Emu) : Emu :=
  if s.cpu.imeEnabled || s.cpu.isHalted then
    (List.range 8).foldl (fun s i => intrStep s ((1 : U8) <<< i)) s
  else s

/-- The fetch of `cpu_exec_next`: the opcode, whether it follows 0xcb, and the
state with PC behind it. -/
def fetch (s : Emu) : U8 × Bool × Emu :=
  let op := monitorRdMem s s.regs.pc
  let s := advancePc 1 s
  if op = 0xcb then (monitorRdMem s s.regs.pc, true, advancePc 1 s) else (op, false, s)

/-- The first half of `cpu_exec_next`: an instruction, or three idle cycles. -/
def execInstr (s : Emu) : Emu × Nat :=
  if s.cpu.isHalted then (s, 3)
  else
    let (op, opIsPrefix, s) := fetch s
    let (s, cycles) := opsTableDispatch op opIsPrefix s
    (s.updCpu fun c => { c with cycles := c.cycles + BitVec.ofNat 64 cycles }, cycles)

/-- The DIV part of `cpu_exec_next`. -/
def advanceDiv (cycles : Nat) (s : Emu) : Emu :=
  s.updCpu fun c => { c with
    divReg := if c.divCounter + BitVec.ofNat 6 cycles < c.divCounter then c.divReg + 1 else c.divReg
    divCounter := c.divCounter + BitVec.ofNat 6 cycles }

/-- `(state->tac_counter + cycles) / state->tac_divider`. -/
def tacQuotient (cycles : Nat) (c : CpuState) : Nat :=
  (c.tacCounter.toNat + cycles) / c.tacDivider.toNat

/-- `tima_reg++`, and the reload where it wraps. -/
def tickTima (s : Emu) : Emu :=
  let s := (s.updCpu fun c => { c with timaReg := c.timaReg + 1 }).log .timaTick
  if s.cpu.timaReg = 0 then
    cpuRequestIntr 0x4 (s.updCpu fun c => { c with timaReg := c.tmaReg })
  else s

/-- The TIMA part of `cpu_exec_next`. -/
def advanceTima (cycles : Nat) (s : Emu) : Emu :=
  if s.cpu.timaEnabled then
    if tacQuotient cycles s.cpu ≠ 0 then
      (tickTima s).updCpu fun c => { c with
        tacCounter := BitVec.ofNat 8 ((c.tacCounter.toNat + cycles) % c.tacDivider.toNat) }
    else s.updCpu fun c => { c with tacCounter := c.tacCounter + BitVec.ofNat 8 cycles }
  else s

/-- `cpu_exec_next`. -/
def cpuExecNext (s : Emu) : Emu × Nat :=
  let (s, cycles) := execInstr s
  (handleIntrs (advanceTima cycles (advanceDiv cycles s)), cycles)

/-- `exec_next`. -/
def execNext (s : Emu) : Emu :=
  let (s, cycles) := cpuExecNext s
  ppuRefresh (BitVec.ofNat 8 cycles) s

end RealBoy
