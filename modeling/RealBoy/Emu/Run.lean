/-
# `RealBoy.Emu.Run` — runs of the emulator

The state at power-on, and runs as lists of actions in any order: a CPU step,
a PPU refresh, a bus write.  `exec_next` is the first two in sequence; the
statements about runs are about every interleaving.
-/
import RealBoy.Cpu.Exec
import RealBoy.Lib.Runs

namespace RealBoy

/-- The registers at power-on: static storage, so zero. -/
def Registers.zero : Registers := ⟨0, 0, 0, 0, 0, 0, 0, 0, 0, 0⟩

def CpuState.zero : CpuState := ⟨0, 0, 0, 0, 0, false, 0, 0, 0, 0, 0, false, false, false⟩

def PpuRegs.zero : PpuRegs := ⟨0, 0, 0, 0, 0, 0, 0, 0, 0, 0, 0, 0⟩

def Ppu.zero : Ppu where
  regs := .zero
  tileData := fun _ => 0
  tileMap1 := fun _ => 0
  tileMap2 := fun _ => 0
  oam := fun _ => 0
  mode := .hblank
  dotsRemaining := 0
  frameCount := 0
  vblankDots := 0
  oamHash := fun _ => none

/-- The emulator at power-on, after `monitor_init` with this cartridge and boot
ROM. -/
def powerOn (rom boot : Array U8) : Emu where
  regs := .zero
  cpu := .zero
  wram := fun _ => 0
  hram := fun _ => 0
  ppu := .zero
  mbc1 := mbc1Init rom boot
  tmpIoregs := fun _ => 0
  keys := ⟨true, true, true, true, true, true, true, true⟩
  events := []

/-- What can happen next. -/
inductive Action where
  | exec
  | refresh (ticks : U8)
  | write (addr : U16) (value : U8)
deriving DecidableEq

/-- The effect of an action. -/
def Emu.act (s : Emu) : Action → Emu
  | .exec => (cpuExecNext s).1
  | .refresh ticks => ppuRefresh ticks s
  | .write addr value => monitorWrMem addr value s

/-- The state after a list of actions. -/
def Emu.run (s : Emu) (acts : List Action) : Emu := Runs.run Emu.act s acts

/-- The states of a run, the first and the last included. -/
def Emu.states (s : Emu) (acts : List Action) : List Emu := Runs.states Emu.act s acts

/-- The state after bus writes alone. -/
def Emu.writes (s : Emu) (ws : List (U16 × U8)) : Emu :=
  ws.foldl (fun s w => monitorWrMem w.1 w.2 s) s

end RealBoy
