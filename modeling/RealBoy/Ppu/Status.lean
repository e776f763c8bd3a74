/-
# `RealBoy.Ppu.Status` — STAT beside the clock

`Raster` leaves out STAT and the LCD interrupt; `Status` is the other half: the
mode and LY again, with LYC, STAT and the CPU's IF register.  A refresh keeps
the status, moves it to the next phase or to the next line of vblank
(`ppuRefresh_status`), and a bus write does one of six things to it
(`monitorWrMem_status`).

STAT holds a second copy of two facts: the mode in bits 0 and 1, LY = LYC in
bit 2.  The refreshes keep both copies; what else touches STAT, LY, LYC or the
LCD switch stores its value and looks at neither.  So each copy is right
throughout a run exactly when the stores happen to be of the right values
(`modeMirrored_iff`, `lycCoincides_iff`).
-/
import RealBoy.Emu.Run
import RealBoy.Ppu.Raster

namespace RealBoy

open Emu

/-- What STAT is about. -/
structure Status where
  on : Bool                       -- LCDC bit 7
  mode : PpuMode
  ly : U8
  lyc : U8
  stat : U8
  ifReg : U8

namespace Status

/-- `if (regs->stat & mask) cpu_request_intr(REQUEST_INTR_LCD)`. -/
def intr (mask : U8) (r : Status) : Status :=
  if bit r.stat mask then { r with ifReg := r.ifReg ||| 0x2 } else r

/-- An assignment to LY, and the comparison with LYC. -/
def toLy (value : U8) (r : Status) : Status :=
  if value = r.lyc then { r with ly := value, stat := r.stat ||| 0x4 }.intr 0x40
  else { r with ly := value, stat := r.stat &&& ~~~0x4 }

/-- A phase begins: the mode, and the bits or-ed into STAT. -/
def enter (mode : PpuMode) (bits : U8) (r : Status) : Status :=
  { r with mode := mode, stat := r.stat ||| bits }

/-- The end of a phase. -/
def next (r : Status) : Status :=
  match r.mode with
  | .oam => r.enter .draw 3
  | .draw => { r with mode := .hblank, stat := r.stat &&& ~~~3 }
  | .hblank =>
    if r.ly + 1 ≥ 144 then
      let r := ((r.toLy (r.ly + 1)).enter .vblank 1).intr 0x10
      { r with ifReg := r.ifReg ||| 0x1 }
    else ((r.toLy (r.ly + 1)).enter .oam 2).intr 0x20
  | .vblank => { r.toLy 0 with mode := .oam, stat := (r.toLy 0).stat &&& ~~~3 ||| 2 }

end Status

def Emu.status (s : Emu) : Status where
  on := bit s.ppu.regs.lcdc 0x80
  mode := s.ppu.mode
  ly := s.ppu.regs.ly
  lyc := s.ppu.regs.lyc
  stat := s.ppu.regs.stat
  ifReg := s.cpu.ifReg

/-! ## A refresh and the status -/

@[simp] theorem status_updDots (s : Emu) (f : Int → Int) : (s.updDots f).status = s.status := rfl
@[simp] theorem status_updVblankDots (s : Emu) (f : U32 → U32) :
    (s.updVblankDots f).status = s.status := rfl
@[simp] theorem status_countFrame (s : Emu) : s.countFrame.status = s.status := rfl
@[simp] theorem status_log (e : Event) (s : Emu) : (s.log e).status = s.status := rfl
@[simp] theorem status_setMode (s : Emu) (mode : PpuMode) :
    (s.setMode mode).status = { s.status with mode := mode } := rfl
@[simp] theorem status_updStat (s : Emu) (f : U8 → U8) :
    (s.updStat f).status = { s.status with stat := f s.status.stat } := rfl
@[simp] theorem status_cpuRequestIntr (im : U8) (s : Emu) :
    (cpuRequestIntr im s).status = { s.status with ifReg := s.status.ifReg ||| im } := rfl

@[simp] theorem status_renderLine (s : Emu) : (ppuRenderLine s).status = s.status := by
  rw [ppuRenderLine_eq]
  rfl

@[simp] theorem status_statIntr (mask : U8) (s : Emu) :
    (statIntr mask s).status = s.status.intr mask := by
  rw [statIntr, Status.intr]
  show (if bit s.status.stat mask then _ else _ : Emu).status = _
  split
  · rfl
  · rfl

@[simp] theorem status_setLy (value : U8) (s : Emu) :
    (setLy value s).status = s.status.toLy value := by
  rw [setLy, checkLyLyc, Status.toLy]
  show (if value = s.status.lyc then _ else _ : Emu).status = _
  split
  · exact status_statIntr 0x40 _
  · rfl

theorem changePhase_status (s : Emu) : (changePhase s).status = s.status.next := by
  unfold changePhase
  split
  case h_1 h =>
    have hm : s.status.mode = .hblank := h
    rw [hblankEndCycle, Status.next, hm]
    simp only [setLy_ly]
    show (if s.status.ly + 1 ≥ 144 then _ else _ : Emu).status = _
    split
    · simp only [status_cpuRequestIntr, status_statIntr, status_updStat, status_setMode,
        status_updDots, status_updVblankDots, status_setLy]
      rfl
    · simp only [status_statIntr, status_updStat, status_setMode, status_updDots, status_setLy]
      rfl
  case h_2 h =>
    have hm : s.status.mode = .vblank := h
    rw [vblankEndCycle, Status.next, hm]
    simp only [status_log, status_countFrame, status_updStat, status_setMode, status_setLy,
      status_updDots]
  case h_3 h =>
    have hm : s.status.mode = .oam := h
    rw [Status.next, hm]
    rfl
  case h_4 h =>
    have hm : s.status.mode = .draw := h
    rw [Status.next, hm, status_renderLine]
    rfl

/-- The dots a refresh leaves, before a new phase adds its own. -/
def dotsLeft (ticks : U8) (s : Emu) : Int :=
  if ticks = 0 then
    (if s.ppu.mode ≠ .vblank then 0 else int16 (s.ppu.dotsRemaining - 12))
  else int16 (s.ppu.dotsRemaining - 4 * ticks.toNat)

/-- The refresh ends the phase. -/
def PhaseEnds (ticks : U8) (s : Emu) : Prop := dotsLeft ticks s ≤ 0 ∨ s.ppu.regs.ly = 0x99

instance (ticks : U8) (s : Emu) : Decidable (PhaseEnds ticks s) :=
  inferInstanceAs (Decidable (_ ∨ _))

/-- What a refresh does to the status. -/
inductive StatusRefresh (ticks : U8) (s : Emu) : Status → Prop where
  | off : s.status.on = false → StatusRefresh ticks s s.status
  | next : PhaseEnds ticks s → StatusRefresh ticks s s.status.next
  | same : ¬ PhaseEnds ticks s → StatusRefresh ticks s s.status
  | line : ¬ PhaseEnds ticks s → s.status.mode = .vblank →
      StatusRefresh ticks s (s.status.toLy (s.status.ly + 1))

theorem countVblankDots_status (ticks : U8) (s : Emu) :
    (countVblankDots ticks s).status = s.status ∨
      (s.status.mode = .vblank ∧
        (countVblankDots ticks s).status = s.status.toLy (s.status.ly + 1)) := by
  rw [countVblankDots]
  split
  case isFalse => exact .inl rfl
  case isTrue hm =>
    dsimp only
    split
    · exact .inr ⟨hm, by rw [status_updVblankDots, status_setLy]; rfl⟩
    · exact .inl rfl

/-- The refresh proper, from a state `s₁` that has the status of `s`. -/
theorem refreshTicks_status {ticks t : U8} {s s₁ : Emu} (h : s₁.status = s.status)
    (hd : int16 (s₁.ppu.dotsRemaining - 4 * t.toNat) = dotsLeft ticks s) :
    StatusRefresh ticks s (refreshTicks t s₁).status := by
  let s₂ := s₁.updDots (· - 4 * t.toNat)
  have h₂ : s₂.status = s.status := h
  have hends : (s₂.ppu.dotsRemaining ≤ 0 ∨ s₂.ppu.regs.ly = 0x99) ↔ PhaseEnds ticks s := by
    have hly : s₂.ppu.regs.ly = s.ppu.regs.ly := congrArg Status.ly h₂
    have hdots : s₂.ppu.dotsRemaining = dotsLeft ticks s := hd
    rw [hly, hdots, PhaseEnds]
  show StatusRefresh ticks s (if _ then changePhase s₂ else countVblankDots t s₂).status
  split
  case isTrue he =>
    rw [changePhase_status, h₂]
    exact .next (hends.mp he)
  case isFalse he =>
    rcases countVblankDots_status t s₂ with hc | ⟨hm, hc⟩
    · rw [hc, h₂]
      exact .same fun hp => he (hends.mpr hp)
    · rw [hc]
      rw [h₂] at hm ⊢
      exact .line (fun hp => he (hends.mpr hp)) hm

/-- **What a refresh does to the status.** -/
theorem ppuRefresh_status (ticks : U8) (s : Emu) :
    StatusRefresh ticks s (ppuRefresh ticks s).status := by
  rw [ppuRefresh]
  split
  case isFalse hoff => exact .off (Bool.not_eq_true _ ▸ hoff)
  case isTrue =>
    split
    case isTrue h0 =>
      split
      case isTrue hm =>
        refine refreshTicks_status rfl ?_
        rw [dotsLeft, if_pos h0, if_pos hm]
        rfl
      case isFalse hm =>
        refine refreshTicks_status rfl ?_
        rw [dotsLeft, if_pos h0, if_neg hm]
        rfl
    case isFalse h0 =>
      refine refreshTicks_status rfl ?_
      rw [dotsLeft, if_neg h0]

/-! ## Bus writes and the status -/

/-- What a bus write does to the status; `ifReg` may change with any of them
that is not to the PPU. -/
inductive StatusWrite (addr : U16) (value : U8) (r : Status) : Status → Prop where
  | same (ifReg : U8) : addr ≠ 0xff41 → addr ≠ 0xff44 → addr ≠ 0xff45 →
      (addr = 0xff40 → bit value 0x80 = r.on) → StatusWrite addr value r { r with ifReg := ifReg }
  | stat : addr = 0xff41 → StatusWrite addr value r { r with stat := value }
  | ly : addr = 0xff44 → StatusWrite addr value r { r with ly := value }
  | lyc : addr = 0xff45 → StatusWrite addr value r { r with lyc := value }
  | on : addr = 0xff40 → bit value 0x80 = true → r.on = false →
      StatusWrite addr value r { r with on := true, mode := .oam, ly := 0 }
  | off : addr = 0xff40 → bit value 0x80 = false → r.on = true →
      StatusWrite addr value r
        { r with on := false, mode := .oam, ly := 0, stat := r.stat &&& ~~~3 }

theorem bit7_eq_iff (v w : U8) : v &&& 0x80 = w &&& 0x80 ↔ bit v 0x80 = bit w 0x80 := by
  unfold bit
  rcases bit7_cases v with hv | hv <;> rcases bit7_cases w with hw | hw <;> rw [hv, hw] <;> decide

theorem wrLcdc_status (value : U8) (s : Emu) :
    StatusWrite 0xff40 value s.status (wrLcdc value s).status := by
  unfold wrLcdc
  split
  case isTrue h =>
    have hne : bit s.ppu.regs.lcdc 0x80 ≠ bit value 0x80 := fun he => h ((bit7_eq_iff _ _).mpr he)
    split
    case isTrue hv =>
      have hoff : bit value 0x80 = false := by
        rw [bit, hv]
        rfl
      rw [hoff, Bool.ne_false_iff] at hne
      have he : (((ppuReset s).updPpuRegs fun r => { r with stat := r.stat &&& ~~~3 }).updPpuRegs
          fun r => { r with lcdc := value }).status =
          { s.status with on := false, mode := .oam, ly := 0, stat := s.status.stat &&& ~~~3 } := by
        rw [← hoff]
        rfl
      exact he ▸ .off rfl hoff hne
    case isFalse hv =>
      have hon : bit value 0x80 = true := bne_iff_ne.mpr hv
      rw [hon, ← Bool.eq_false_iff] at hne
      have he : ((ppuReset s).updPpuRegs fun r => { r with lcdc := value }).status =
          { s.status with on := true, mode := .oam, ly := 0 } := by
        rw [← hon]
        rfl
      exact he ▸ .on rfl hon hne
  case isFalse h =>
    have hsame : bit value 0x80 = s.status.on := ((bit7_eq_iff _ _).mp (not_not.mp h)).symm
    have he : (s.updPpuRegs fun r => { r with lcdc := value }).status =
        { s.status with ifReg := s.status.ifReg } := by
      show { s.status with on := bit value 0x80 } = s.status
      rw [hsame]
    exact he ▸ .same _ (by decide) (by decide) (by decide) fun _ => hsame

theorem oamWr_status (k : Nat) (value : U8) (s : Emu) :
    (s.updPpu (oamWr k value)).status = s.status := by
  show Emu.status { s with ppu := oamWr k value s.ppu } = _
  unfold oamWr oamRehash
  split <;> rfl

/-- A write to the PPU, the DMA register excepted. -/
theorem ppuWr_status {addr : U16} (hp : PpuRange addr) (hdma : addr ≠ 0xff46) (value : U8)
    (s : Emu) : StatusWrite addr value s.status (ppuWr addr value s).status := by
  by_cases hlyc : addr = 0xff45
  · subst hlyc
    exact .lyc rfl
  have h := ppuWr_cases hp value s
  generalize ppuWr addr value s = s' at h ⊢
  cases h with
  | vram d m₁ m₂ ha =>
      exact .same s.status.ifReg (by bv_omega) (by bv_omega) hlyc fun _ => (by bv_omega)
  | oam k hk ha =>
      rw [oamWr_status]
      have := dmaAddr_toNat hk
      rw [ha] at hlyc ⊢
      exact .same s.status.ifReg (by bv_omega) (by bv_omega) hlyc fun _ => (by bv_omega)
  | lcdc ha => exact ha ▸ wrLcdc_status value s
  | stat ha => exact .stat ha
  | ly ha => exact .ly ha
  | lyc ha => exact absurd ha hlyc
  | dma ha => exact absurd ha hdma
  | other f h₁ h₂ hly hf =>
      have he : (s.updPpuRegs f).status = { s.status with ifReg := s.status.ifReg } := by
        obtain ⟨hlcdc, hstat, hly, hlyc⟩ := hf s.ppu.regs
        show { s.status with
          on := bit (f s.ppu.regs).lcdc 0x80, stat := (f s.ppu.regs).stat
          ly := (f s.ppu.regs).ly, lyc := (f s.ppu.regs).lyc } = s.status
        rw [hlcdc, hstat, hly, hlyc]
        rfl
      rw [he]
      exact .same _ (by bv_omega) hly hlyc fun _ => (by bv_omega)

/-- A write to the CPU's part of the address space. -/
theorem cpuWr_status {addr : U16} (hp : ¬ PpuRange addr) {value : U8} {s s' : Emu}
    (hs : s'.ppu = s.ppu) : StatusWrite addr value s.status s'.status := by
  have he : s'.status = { s.status with ifReg := s'.cpu.ifReg } := by
    simp only [Emu.status, hs]
  rw [he]
  unfold PpuRange at hp
  exact .same _ (by bv_omega) (by bv_omega) (by bv_omega) fun _ => (by bv_omega)

/-- A bus write that is not to the DMA register. -/
theorem WriteTo.status {addr : U16} {value : U8} {s s' : Emu} (h : WriteTo addr value s s')
    (hdma : addr ≠ 0xff46) : StatusWrite addr value s.status s'.status := by
  cases h with
  | cpu hp =>
      refine cpuWr_status hp ?_
      rw [cpuWr_frame]
  | unmap ha =>
      refine cpuWr_status (by unfold PpuRange; bv_omega) ?_
      show (cpuWr addr value s).ppu = s.ppu
      rw [cpuWr_frame]
  | ppu hp => exact ppuWr_status hp hdma value s
  | mbc1 ha => exact cpuWr_status (by unfold PpuRange; bv_omega) rfl
  | ioreg v hp => exact cpuWr_status hp rfl

/-- **What a bus write does to the status.** -/
theorem monitorWrMem_status (addr : U16) (value : U8) (s : Emu) :
    StatusWrite addr value s.status (monitorWrMem addr value s).status := by
  by_cases ha : addr = 0xff46
  · have he : (monitorWrMem 0xff46 value s).status = s.status :=
      monitorWrMem_dma_view Emu.status (fun _ _ _ => rfl) oamWr_status value s
    subst ha
    rw [he]
    exact .same s.status.ifReg (by decide) (by decide) (by decide) fun h => absurd h (by decide)
  · exact (monitorWrMem_cases addr value s).status ha

end RealBoy
