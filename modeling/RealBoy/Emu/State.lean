/-
# `RealBoy.Emu.State` — the emulator's data

The globals of the emulator as one record: the CPU (`cpu.h`), the PPU with its
object index (`ppu.c`), the cartridge (`mbc1.c`) and the monitor's own
registers and key flags (`monitor.c`).

Machine integers are bit vectors of the width the source declares, `int` and
`dots_remaining` excepted: `int` is a 32-bit vector where a handler computes
flags in it, and `dots_remaining` is an `Int` reduced by `int16` on every
assignment.  Arrays are total functions of the index; the declared sizes are
in the comments beside them.

`events` is not a variable of the program.  It is the list of calls made so
far, oldest first, so that "this call happens exactly once" is a statement
about states.
-/
import RealBoy.Lib.ByteFile

namespace RealBoy

open ByteFile

abbrev U8 := BitVec 8
abbrev U16 := BitVec 16
abbrev U32 := BitVec 32
abbrev U64 := BitVec 64

/-- A value converted to `int16_t`. -/
def int16 (x : Int) : Int := x.bmod 65536

/-- `struct registers`; the 16-bit pairs of its unions are `af` .. `hl` below. -/
structure Registers where
  f : U8
  a : U8
  c : U8
  b : U8
  e : U8
  d : U8
  l : U8
  h : U8
  sp : U16
  pc : U16
deriving DecidableEq

/-- The rest of `struct cpu_state`. -/
structure CpuState where
  divReg : U8
  ifReg : U8
  ieReg : U8
  cycles : U64
  divCounter : BitVec 6
  timaEnabled : Bool
  timaReg : U8
  tmaReg : U8
  tacReg : U8
  tacCounter : U8
  tacDivider : U32
  isHalted : Bool
  imeEnabled : Bool
  disableBootrom : Bool
deriving DecidableEq

/-- `enum ppu_mode`. -/
inductive PpuMode where
  | hblank
  | vblank
  | oam
  | draw
deriving DecidableEq

/-- `struct ppu_regs`. -/
structure PpuRegs where
  lcdc : U8
  ly : U8
  lyc : U8
  stat : U8
  scx : U8
  scy : U8
  dma : U8
  bgp : U8
  obp0 : U8
  obp1 : U8
  wx : U8
  wy : U8
deriving DecidableEq

/-- `ppu_t`, and `oam_hash` beside it.  The table `oam_hash[17][40]` is laid
out flat, cell `40 * row + column`; a pointer `&ppu.oam[k]` is the offset `k`
and the null pointer is `none`. -/
structure Ppu where
  regs : PpuRegs
  tileData : Nat → U8     -- 0x1800
  tileMap1 : Nat → U8     -- 0x400
  tileMap2 : Nat → U8     -- 0x400
  oam : Nat → U8          -- 0x100
  mode : PpuMode
  dotsRemaining : Int
  frameCount : U64
  vblankDots : U32
  oamHash : Nat → Option Nat

/-- The statics of `mbc1.c`, and the ROM file they are filled from. -/
structure Mbc1 where
  mbc1Rom : Nat → U8      -- 0x8000 + 0x4000 * 0x1f
  mbc1Ram : Nat → U8      -- 0x2000 * 4
  rom : File

/-- The key flags of `monitor.c`. -/
structure Keys where
  startReleased : Bool
  selectReleased : Bool
  aReleased : Bool
  bReleased : Bool
  upReleased : Bool
  downReleased : Bool
  leftReleased : Bool
  rightReleased : Bool
deriving DecidableEq

/-- What a run does, besides changing the state. -/
inductive Event where
  | monitorWrMem (addr : U16) (value : U8)
  | cpuRequestIntr (im : U8)
  | timaTick                                -- the `tima_reg++` of `cpu_exec_next`
  | ppuRenderLine (ly : U8)
  | renderDrawPixel (x : Nat) (y : U8) (pixel : Option U32)
  | renderDrawFramebuffer
  | monitorThrottleFps
deriving DecidableEq

/-- A bus write. -/
def Event.IsWrite : Event → Prop
  | .monitorWrMem _ _ => True
  | _ => False

/-- The emulator. -/
structure Emu where
  regs : Registers
  cpu : CpuState
  wram : Nat → U8         -- 0x2000
  hram : Nat → U8         -- 0x7f
  ppu : Ppu
  mbc1 : Mbc1
  tmpIoregs : Nat → U8    -- 0xffff
  keys : Keys
  events : List Event

namespace Registers

variable (r : Registers)

def af : U16 := r.a ++ r.f
def bc : U16 := r.b ++ r.c
def de : U16 := r.d ++ r.e
def hl : U16 := r.h ++ r.l

end Registers

/-- `v & mask`, as a condition. -/
def bit (v mask : U8) : Bool := v &&& mask != 0

namespace Emu

/-- A call is made. -/
def log (e : Event) (s : Emu) : Emu := { s with events := s.events ++ [e] }

/-- The calls made between `s` and a later state `s'`. -/
def eventsSince (s s' : Emu) : List Event := s'.events.drop s.events.length

@[simp] theorem log_regs (e : Event) (s : Emu) : (s.log e).regs = s.regs := rfl
@[simp] theorem log_cpu (e : Event) (s : Emu) : (s.log e).cpu = s.cpu := rfl
@[simp] theorem log_wram (e : Event) (s : Emu) : (s.log e).wram = s.wram := rfl
@[simp] theorem log_hram (e : Event) (s : Emu) : (s.log e).hram = s.hram := rfl
@[simp] theorem log_ppu (e : Event) (s : Emu) : (s.log e).ppu = s.ppu := rfl
@[simp] theorem log_mbc1 (e : Event) (s : Emu) : (s.log e).mbc1 = s.mbc1 := rfl
@[simp] theorem log_tmpIoregs (e : Event) (s : Emu) : (s.log e).tmpIoregs = s.tmpIoregs := rfl
@[simp] theorem log_keys (e : Event) (s : Emu) : (s.log e).keys = s.keys := rfl
@[simp] theorem log_events (e : Event) (s : Emu) : (s.log e).events = s.events ++ [e] := rfl

@[simp] theorem eventsSince_append (s s' : Emu) (es : List Event) (h : s'.events = s.events ++ es) :
    eventsSince s s' = es := by
  simp [eventsSince, h]

end Emu

end RealBoy
