/-
# `RealBoy.Emu.Refresh` — the PPU's clock

`ppu_refresh` and the phase changes under it.
-/
import RealBoy.Emu.Render

namespace RealBoy

/-- An assignment to `dots_remaining`, from its old value. -/
def Emu.updDots (s : Emu) (f : Int → Int) : Emu :=
  s.updPpu fun p => { p with dotsRemaining := int16 (f p.dotsRemaining) }

/-- An assignment to STAT, from its old value. -/
def Emu.updStat (s : Emu) (f : U8 → U8) : Emu :=
  s.updPpuRegs fun r => { r with stat := f r.stat }

/-- An assignment to `vblank_dots`, from its old value. -/
def Emu.updVblankDots (s : Emu) (f : U32 → U32) : Emu :=
  s.updPpu fun p => { p with vblankDots := f p.vblankDots }

/-- `ppu.frame_count++`. -/
def Emu.countFrame (s : Emu) : Emu := s.updPpu fun p => { p with frameCount := p.frameCount + 1 }

/-- `ppu.mode = mode`. -/
def Emu.setMode (s : Emu) (mode : PpuMode) : Emu := s.updPpu fun p => { p with mode := mode }

/-- `if (regs->stat & mask) cpu_request_intr(REQUEST_INTR_LCD)`. -/
def statIntr (mask : U8) (s : Emu) : Emu :=
  if bit s.ppu.regs.stat mask then cpuRequestIntr 0x2 s else s

/-- `check_ly_lyc`. -/
def checkLyLyc (s : Emu) : Emu :=
  if s.ppu.regs.ly = s.ppu.regs.lyc then statIntr 0x40 (s.updStat (· ||| 0x4))
  else s.updStat (· &&& ~~~0x4)

/-- `set_ly`. -/
def setLy (value : U8) (s : Emu) : Emu :=
  checkLyLyc (s.updPpuRegs fun r => { r with ly := value })

/-- `hblank_end_cycle`. -/
def hblankEndCycle (s : Emu) : Emu :=
  let s := setLy (s.ppu.regs.ly + 1) s
  if s.ppu.regs.ly ≥ 144 then
    let s := (s.updVblankDots fun _ => 0).updDots (· + 4560)
    let s := (s.setMode .vblank).updStat (· ||| 1)
    cpuRequestIntr 0x1 (statIntr 0x10 s)
  else
    let s := s.updDots (· + 80)
    let s := (s.setMode .oam).updStat (· ||| 2)
    statIntr 0x20 s

/-- `vblank_end_cycle`. -/
def vblankEndCycle (s : Emu) : Emu :=
  let s := setLy 0 (s.updDots (· + 80))
  let s := ((s.setMode .oam).updStat (· &&& ~~~3)).updStat (· ||| 2)
  s.countFrame.log .monitorThrottleFps

/-- `change_phase`. -/
def changePhase (s : Emu) : Emu :=
  match s.ppu.mode with
  | .hblank => hblankEndCycle s
  | .vblank => vblankEndCycle (s.log .renderDrawFramebuffer)
  | .oam => ((s.updDots (· + 230)).updStat (· ||| 3)).setMode .draw
  | .draw => ppuRenderLine (((s.updDots (· + 145)).updStat (· &&& ~~~3)).setMode .hblank)

/-- The end of `ppu_refresh` outside a phase change: the line counter of
vblank. -/
def countVblankDots (ticks : U8) (s : Emu) : Emu :=
  if s.ppu.mode = .vblank then
    let s := s.updVblankDots (· + ticks.setWidth 32 <<< 2)
    if s.ppu.vblankDots / 456 ≠ 0 then (setLy (s.ppu.regs.ly + 1) s).updVblankDots (· % 456)
    else s
  else s

/-- `ppu_refresh`, for `ticks` other than 0. -/
def refreshTicks (ticks : U8) (s : Emu) : Emu :=
  let s := s.updDots (· - 4 * ticks.toNat)
  if s.ppu.dotsRemaining ≤ 0 ∨ s.ppu.regs.ly = 0x99 then changePhase s
  else countVblankDots ticks s

/-- `ppu_refresh`. -/
def ppuRefresh (ticks : U8) (s : Emu) : Emu :=
  if bit s.ppu.regs.lcdc 0x80 then
    if ticks = 0 then
      refreshTicks 3 (if s.ppu.mode ≠ .vblank then s.updDots fun _ => 12 else s)
    else refreshTicks ticks s
  else s

end RealBoy
