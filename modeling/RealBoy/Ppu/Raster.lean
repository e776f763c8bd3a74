/-
# `RealBoy.Ppu.Raster` — the clock of the PPU, by itself

`ppu_refresh` decides what to do next from the mode, LY, `dots_remaining` and
`vblank_dots`; what it does besides moving these four is count a frame, render
a line, request the VBLANK interrupt.  `Raster` holds just that, `Raster.tick`
is a refresh of it, and `ppuRefresh_raster` says that `ppu_refresh` is
`Raster.tick` and nothing else: STAT and the LCD interrupt are not looked at
by the clock.  A bus write reaches the raster in two ways
(`monitorWrMem_raster`): LCDC bit 7, which resets it, and a store to LY, which
`wr_reg` performs as it stands.
-/
import RealBoy.Emu.Write
import RealBoy.Ppu.Compose

namespace RealBoy

open Emu

/-- The PPU's clock, and what has come of it so far. -/
structure Raster where
  on : Bool                       -- LCDC bit 7
  mode : PpuMode
  ly : U8
  dots : Int
  vblankDots : U32
  frameCount : U64
  lines : List U8                 -- the lines rendered
  vblanks : Nat                   -- the VBLANK interrupts requested
  draws : List (Nat × U8)         -- the pixels drawn

namespace Raster

/-- The end of a phase. -/
def next (r : Raster) : Raster :=
  match r.mode with
  | .oam => { r with mode := .draw, dots := int16 (r.dots + 230) }
  | .draw => { r with
      mode := .hblank, dots := int16 (r.dots + 145)
      lines := r.lines ++ [r.ly], draws := r.draws ++ (List.range 160).map (·, r.ly) }
  | .hblank =>
    if r.ly + 1 ≥ 144 then { r with
      mode := .vblank, ly := r.ly + 1, dots := int16 (r.dots + 4560), vblankDots := 0
      vblanks := r.vblanks + 1 }
    else { r with mode := .oam, ly := r.ly + 1, dots := int16 (r.dots + 80) }
  | .vblank => { r with
      mode := .oam, ly := 0, dots := int16 (r.dots + 80), frameCount := r.frameCount + 1 }

/-- The dots of a refresh are spent. -/
def spend (ticks : U8) (r : Raster) : Raster := { r with dots := int16 (r.dots - 4 * ticks.toNat) }

/-- The phase is over. -/
def Ends (r : Raster) : Prop := r.dots ≤ 0 ∨ r.ly = 0x99

instance (r : Raster) : Decidable r.Ends := inferInstanceAs (Decidable (_ ∨ _))

/-- The line counter of vblank. -/
def countVblank (ticks : U8) (r : Raster) : Raster :=
  if r.mode = .vblank then
    let dots := r.vblankDots + ticks.setWidth 32 <<< 2
    if dots / 456 ≠ 0 then { r with ly := r.ly + 1, vblankDots := dots % 456 }
    else { r with vblankDots := dots }
  else r

/-- A refresh of a PPU that is on. -/
def tick (ticks : U8) (r : Raster) : Raster :=
  if (r.spend ticks).Ends then (r.spend ticks).next else (r.spend ticks).countVblank ticks

theorem tick_on (ticks : U8) (r : Raster) : (r.tick ticks).on = r.on := by
  unfold tick
  split
  · unfold next
    split
    case h_3 => split <;> rfl
    all_goals rfl
  · unfold countVblank
    split
    · dsimp only
      split <;> rfl
    · rfl

end Raster

/-! ## The raster of a state -/

def linesOf (es : List Event) : List U8 :=
  es.filterMap fun
    | .ppuRenderLine ly => some ly
    | _ => none

def drawsOf (es : List Event) : List (Nat × U8) :=
  es.filterMap fun
    | .renderDrawPixel x y _ => some (x, y)
    | _ => none

def Emu.raster (s : Emu) : Raster where
  on := bit s.ppu.regs.lcdc 0x80
  mode := s.ppu.mode
  ly := s.ppu.regs.ly
  dots := s.ppu.dotsRemaining
  vblankDots := s.ppu.vblankDots
  frameCount := s.ppu.frameCount
  lines := linesOf s.events
  vblanks := s.events.count (.cpuRequestIntr 0x1)
  draws := drawsOf s.events

/-- Calls the raster does not count. -/
def Event.Offscreen : Event → Prop
  | .ppuRenderLine _ => False
  | .renderDrawPixel _ _ _ => False
  | e => e ≠ .cpuRequestIntr 0x1

theorem raster_log {e : Event} (h : e.Offscreen) (s : Emu) : (s.log e).raster = s.raster := by
  have hlines : linesOf [e] = [] := by
    cases e <;> first | rfl | exact h.elim
  have hdraws : drawsOf [e] = [] := by
    cases e <;> first | rfl | exact h.elim
  have hvblanks : [e].count (.cpuRequestIntr 0x1) = 0 := by
    refine List.count_eq_zero.mpr fun hm => ?_
    rw [← List.mem_singleton.mp hm] at h
    exact h rfl
  simp only [Emu.raster, log_ppu, log_events, List.count_append, hvblanks, Nat.add_zero]
  rw [linesOf, List.filterMap_append, drawsOf, List.filterMap_append]
  rw [linesOf] at hlines
  rw [drawsOf] at hdraws
  rw [hlines, hdraws, List.append_nil, List.append_nil]
  rfl

@[simp] theorem raster_updCpu (s : Emu) (f : CpuState → CpuState) : (s.updCpu f).raster = s.raster :=
  rfl
@[simp] theorem raster_updStat (s : Emu) (f : U8 → U8) : (s.updStat f).raster = s.raster := rfl
@[simp] theorem raster_setMode (s : Emu) (mode : PpuMode) :
    (s.setMode mode).raster = { s.raster with mode := mode } := rfl
@[simp] theorem raster_updDots (s : Emu) (f : Int → Int) :
    (s.updDots f).raster = { s.raster with dots := int16 (f s.raster.dots) } := rfl

@[simp] theorem raster_updVblankDots (s : Emu) (f : U32 → U32) :
    (s.updVblankDots f).raster = { s.raster with vblankDots := f s.raster.vblankDots } := rfl
@[simp] theorem raster_countFrame (s : Emu) :
    s.countFrame.raster = { s.raster with frameCount := s.raster.frameCount + 1 } := rfl

@[simp] theorem raster_lcdIntr (s : Emu) : (cpuRequestIntr 0x2 s).raster = s.raster :=
  raster_log (e := .cpuRequestIntr 0x2) (by simp [Event.Offscreen]) _

@[simp] theorem raster_vblankIntr (s : Emu) :
    (cpuRequestIntr 0x1 s).raster = { s.raster with vblanks := s.raster.vblanks + 1 } := by
  simp [cpuRequestIntr, Emu.raster, updCpu, linesOf, drawsOf]

@[simp] theorem raster_statIntr (mask : U8) (s : Emu) : (statIntr mask s).raster = s.raster := by
  unfold statIntr
  split
  · exact raster_lcdIntr s
  · rfl

@[simp] theorem raster_checkLyLyc (s : Emu) : (checkLyLyc s).raster = s.raster := by
  unfold checkLyLyc
  split
  · rw [raster_statIntr, raster_updStat]
  · rw [raster_updStat]

/-- `set_ly` is an assignment to LY, but for STAT and the LCD interrupt. -/
@[simp] theorem raster_setLy (value : U8) (s : Emu) :
    (setLy value s).raster = { s.raster with ly := value } := by
  rw [setLy, raster_checkLyLyc]
  rfl

theorem setLy_ly (value : U8) (s : Emu) : (setLy value s).ppu.regs.ly = value :=
  congrArg Raster.ly (raster_setLy value s)

@[simp] theorem raster_renderLine (s : Emu) :
    (ppuRenderLine s).raster = { s.raster with
      lines := s.raster.lines ++ [s.raster.ly]
      draws := s.raster.draws ++ (List.range 160).map (·, s.raster.ly) } := by
  have hlines : linesOf (lineEvents s.ppu) = [s.ppu.regs.ly] := by
    rw [lineEvents, linesOf, List.filterMap_cons, List.filterMap_map]
    simp
  have hdraws : drawsOf (lineEvents s.ppu) = (List.range 160).map (·, s.ppu.regs.ly) := by
    rw [lineEvents, drawsOf, List.filterMap_cons, List.filterMap_map]
    exact congrFun List.filterMap_eq_map' _
  have hvblanks : (lineEvents s.ppu).count (.cpuRequestIntr 0x1) = 0 := by
    refine List.count_eq_zero.mpr ?_
    simp [lineEvents]
  rw [ppuRenderLine_eq]
  simp only [Emu.raster, logs_ppu, logs_events, List.count_append, hvblanks, Nat.add_zero]
  rw [linesOf, List.filterMap_append, drawsOf, List.filterMap_append]
  rw [linesOf] at hlines
  rw [drawsOf] at hdraws
  rw [hlines, hdraws]
  rfl

/-! ## A refresh is a tick -/

theorem hblankEndCycle_raster (s : Emu) (h : s.ppu.mode = .hblank) :
    (hblankEndCycle s).raster = s.raster.next := by
  have hm : s.raster.mode = .hblank := h
  rw [hblankEndCycle, Raster.next, hm]
  simp only [setLy_ly]
  by_cases hly : s.ppu.regs.ly + 1 ≥ 144
  · have hly' : s.raster.ly + 1 ≥ 144 := hly
    rw [if_pos hly, if_pos hly']
    simp only [raster_vblankIntr, raster_statIntr, raster_updStat, raster_setMode, raster_updDots,
      raster_updVblankDots, raster_setLy]
    rfl
  · have hly' : ¬ s.raster.ly + 1 ≥ 144 := hly
    rw [if_neg hly, if_neg hly']
    simp only [raster_statIntr, raster_updStat, raster_setMode, raster_updDots, raster_setLy]
    rfl

theorem vblankEndCycle_raster (s : Emu) (h : s.ppu.mode = .vblank) :
    (vblankEndCycle s).raster = s.raster.next := by
  have hm : s.raster.mode = .vblank := h
  rw [vblankEndCycle, raster_log (by simp [Event.Offscreen]), Raster.next, hm]
  simp only [raster_countFrame, raster_updStat, raster_setMode, raster_updDots, raster_setLy]

theorem changePhase_raster (s : Emu) : (changePhase s).raster = s.raster.next := by
  unfold changePhase
  split
  case h_1 h => exact hblankEndCycle_raster s h
  case h_2 h =>
    have hlog := raster_log (e := .renderDrawFramebuffer) (by simp [Event.Offscreen]) s
    rw [vblankEndCycle_raster (s.log .renderDrawFramebuffer) h, hlog]
  case h_3 h =>
    have hm : s.raster.mode = .oam := h
    rw [Raster.next, hm]
    rfl
  case h_4 h =>
    have hm : s.raster.mode = .draw := h
    rw [Raster.next, hm, raster_renderLine]
    rfl

theorem countVblankDots_raster (ticks : U8) (s : Emu) :
    (countVblankDots ticks s).raster = s.raster.countVblank ticks := by
  rw [countVblankDots, Raster.countVblank]
  by_cases hm : s.ppu.mode = .vblank
  · have hm' : s.raster.mode = .vblank := hm
    rw [if_pos hm, if_pos hm']
    by_cases hv : (s.ppu.vblankDots + ticks.setWidth 32 <<< 2) / 456 ≠ 0
    · have hv' : (s.raster.vblankDots + ticks.setWidth 32 <<< 2) / 456 ≠ 0 := hv
      rw [if_pos hv', if_pos]
      · rw [raster_updVblankDots, raster_setLy, raster_updVblankDots]
        rfl
      · exact hv
    · have hv' : ¬ (s.raster.vblankDots + ticks.setWidth 32 <<< 2) / 456 ≠ 0 := hv
      rw [if_neg hv', if_neg]
      · exact raster_updVblankDots s _
      · exact hv
  · have hm' : s.raster.mode ≠ .vblank := hm
    rw [if_neg hm, if_neg hm']

theorem refreshTicks_raster (ticks : U8) (s : Emu) :
    (refreshTicks ticks s).raster = s.raster.tick ticks := by
  let s₁ := s.updDots (· - 4 * ticks.toNat)
  have h₁ : s₁.raster = s.raster.spend ticks := raster_updDots s _
  have hends : (s₁.ppu.dotsRemaining ≤ 0 ∨ s₁.ppu.regs.ly = 0x99) ↔ (s.raster.spend ticks).Ends := by
    rw [← h₁]
    rfl
  show (if _ then changePhase s₁ else countVblankDots ticks s₁).raster = _
  by_cases h : (s.raster.spend ticks).Ends
  · rw [if_pos (hends.mpr h), Raster.tick, if_pos h, changePhase_raster, h₁]
  · rw [if_neg (fun h' => h (hends.mp h')), Raster.tick, if_neg h, countVblankDots_raster, h₁]

/-- **A refresh is a tick** of the raster, where the PPU is on, and nothing
where it is off. -/
theorem ppuRefresh_raster {ticks : U8} (h : ticks ≠ 0) (s : Emu) :
    (ppuRefresh ticks s).raster = if s.raster.on then s.raster.tick ticks else s.raster := by
  rw [ppuRefresh, if_neg h]
  show (if s.raster.on then _ else _ : Emu).raster = _
  by_cases hon : s.raster.on
  · rw [if_pos hon, if_pos hon, refreshTicks_raster]
  · rw [if_neg hon, if_neg hon]

/-! ## Bus writes and the raster -/

/-- What a bus write does to the raster. -/
inductive RasterWrite (addr : U16) (value : U8) (r : Raster) : Raster → Prop where
  | same : addr ≠ 0xff44 → RasterWrite addr value r r
  | ly : addr = 0xff44 → RasterWrite addr value r { r with ly := value }
  | toggle : addr = 0xff40 →
      RasterWrite addr value r { r with on := !r.on, mode := .oam, ly := 0, dots := 80 }

theorem bit7_cases (v : U8) : v &&& 0x80 = 0 ∨ v &&& 0x80 = 0x80 := by
  revert v
  decide +kernel

theorem wrLcdc_raster (value : U8) (s : Emu) :
    RasterWrite 0xff40 value s.raster (wrLcdc value s).raster := by
  unfold wrLcdc
  by_cases h : s.ppu.regs.lcdc &&& 0x80 ≠ value &&& 0x80
  · rw [if_pos h]
    have hon : bit value 0x80 = !bit s.ppu.regs.lcdc 0x80 := by
      unfold bit
      rcases bit7_cases value with hv | hv <;> rcases bit7_cases s.ppu.regs.lcdc with hl | hl <;>
        simp_all
    have hr : ∀ s' : Emu, s'.raster = (ppuReset s).raster →
        RasterWrite 0xff40 value s.raster
          (s'.updPpuRegs fun r => { r with lcdc := value }).raster := by
      intro s' hs'
      have he : (s'.updPpuRegs fun r => { r with lcdc := value }).raster =
          { s.raster with on := !s.raster.on, mode := .oam, ly := 0, dots := 80 } := by
        show { s'.raster with on := bit value 0x80 } = _
        rw [hs', hon]
        rfl
      rw [he]
      exact .toggle rfl
    by_cases hv : value &&& 0x80 = 0
    · simp only [if_pos hv]
      exact hr _ rfl
    · simp only [if_neg hv]
      exact hr _ rfl
  · rw [if_neg h]
    have hon : bit value 0x80 = bit s.ppu.regs.lcdc 0x80 := by
      unfold bit
      rw [not_not.mp h]
    have he : (s.updPpuRegs fun r => { r with lcdc := value }).raster = s.raster := by
      show { s.raster with on := bit value 0x80 } = s.raster
      rw [hon]
      rfl
    rw [he]
    exact .same (by decide)

theorem cpuWr_raster (addr : U16) (value : U8) (s : Emu) :
    (cpuWr addr value s).raster = s.raster := by
  rw [cpuWr_frame]
  rfl

theorem oamWr_raster (k : Nat) (value : U8) (s : Emu) :
    (s.updPpu (oamWr k value)).raster = s.raster := by
  show Emu.raster { s with ppu := oamWr k value s.ppu } = _
  unfold oamWr oamRehash
  split <;> rfl

/-- A write to the PPU, the DMA register excepted. -/
theorem PpuWriteTo.raster {addr : U16} {value : U8} {s s' : Emu} (h : PpuWriteTo addr value s s')
    (hdma : addr ≠ 0xff46) : RasterWrite addr value s.raster s'.raster := by
  cases h with
  | vram d m₁ m₂ ha => exact .same (by bv_omega)
  | oam k hk ha =>
      rw [oamWr_raster]
      have := dmaAddr_toNat hk
      exact .same (by rw [ha]; bv_omega)
  | lcdc ha => exact ha ▸ wrLcdc_raster value s
  | stat ha => exact .same (by bv_omega)
  | ly ha => exact .ly ha
  | lyc ha => exact .same (by bv_omega)
  | dma ha => exact absurd ha hdma
  | other f h₁ h₂ hly hf =>
      have he : (s.updPpuRegs f).raster = s.raster := by
        obtain ⟨hlcdc, -, hly, -⟩ := hf s.ppu.regs
        show { s.raster with on := bit (f s.ppu.regs).lcdc 0x80, ly := (f s.ppu.regs).ly } = s.raster
        rw [hlcdc, hly]
        rfl
      rw [he]
      exact .same hly

/-- A bus write that is not to the DMA register. -/
theorem WriteTo.raster {addr : U16} {value : U8} {s s' : Emu} (h : WriteTo addr value s s')
    (hdma : addr ≠ 0xff46) : RasterWrite addr value s.raster s'.raster := by
  cases h with
  | cpu hp =>
      rw [cpuWr_raster]
      exact .same (by unfold PpuRange at hp; bv_omega)
  | unmap ha =>
      have he : ((cpuWr addr value s).updMbc1 (mbc1WrMem addr value)).raster = s.raster :=
        cpuWr_raster addr value s
      rw [he]
      exact .same (by bv_omega)
  | ppu hp => exact (ppuWr_cases hp value s).raster hdma
  | mbc1 ha => exact .same (by bv_omega)
  | ioreg v hp => exact .same (by unfold PpuRange at hp; bv_omega)

theorem logWrite_raster (addr : U16) (value : U8) (s : Emu) :
    (s.log (.monitorWrMem addr value)).raster = s.raster :=
  raster_log (by simp [Event.Offscreen]) s

/-- **What a bus write does to the raster.** -/
theorem monitorWrMem_raster (addr : U16) (value : U8) (s : Emu) :
    RasterWrite addr value s.raster (monitorWrMem addr value s).raster := by
  by_cases ha : addr = 0xff46
  · have he : (monitorWrMem 0xff46 value s).raster = s.raster :=
      monitorWrMem_dma_view Emu.raster (fun s addr value => logWrite_raster addr value s)
        oamWr_raster value s
    subst ha
    rw [he]
    exact .same (by decide)
  · have h := (monitorWrMem_cases addr value s).raster ha
    rwa [logWrite_raster] at h

end RealBoy
