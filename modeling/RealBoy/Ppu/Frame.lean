/-
# `RealBoy.Ppu.Frame` — what the PPU's clock touches

A refresh changes the PPU, requests the two interrupts of the PPU, and makes
calls that are no bus writes.  `RefreshClosed P` says that a property survives
each of these; it then survives a refresh.  Of the PPU it changes the clock, LY
and STAT; the other registers and the memories stay (`still_ppuRefresh`).
-/
import RealBoy.Emu.Refresh

namespace RealBoy

open Emu

/-- The property survives whatever the PPU's clock does to the state. -/
structure RefreshClosed (P : Emu → Prop) : Prop where
  ppu : ∀ s p, P s → P { s with ppu := p }
  request : ∀ s im, im ≤ 0x2 → P s → P (cpuRequestIntr im s)
  call : ∀ s e, ¬ e.IsWrite → P s → P (s.log e)

namespace RefreshClosed

variable {P : Emu → Prop} (h : RefreshClosed P) {s : Emu}

include h

theorem updPpuRegs (hs : P s) (f : PpuRegs → PpuRegs) : P (s.updPpuRegs f) := h.ppu s _ hs
theorem updDots (hs : P s) (f : Int → Int) : P (s.updDots f) := h.ppu s _ hs
theorem updStat (hs : P s) (f : U8 → U8) : P (s.updStat f) := h.ppu s _ hs
theorem updVblankDots (hs : P s) (f : U32 → U32) : P (s.updVblankDots f) := h.ppu s _ hs
theorem setMode (hs : P s) (mode : PpuMode) : P (s.setMode mode) := h.ppu s _ hs
theorem countFrame (hs : P s) : P s.countFrame := h.ppu s _ hs

theorem statIntr (hs : P s) (mask : U8) : P (statIntr mask s) := by
  unfold RealBoy.statIntr
  split
  · exact h.request _ 0x2 (by decide) hs
  · exact hs

theorem setLy (hs : P s) (value : U8) : P (setLy value s) := by
  unfold RealBoy.setLy checkLyLyc
  split
  · exact h.statIntr (h.updStat (h.updPpuRegs hs _) _) _
  · exact h.updStat (h.updPpuRegs hs _) _

theorem ppuRenderLine (hs : P s) : P (ppuRenderLine s) := by
  unfold RealBoy.ppuRenderLine
  refine List.foldlRecOn _ _ (h.call _ _ id hs) fun s hs _ _ => ?_
  exact List.foldlRecOn _ _ hs fun s hs _ _ => h.call _ _ id hs

theorem changePhase (hs : P s) : P (changePhase s) := by
  unfold RealBoy.changePhase
  split
  · unfold hblankEndCycle
    dsimp only
    have hly := h.setLy hs (s.ppu.regs.ly + 1)
    split
    · have hdots := h.updDots (h.updVblankDots hly fun _ => 0) (· + 4560)
      exact h.request _ 0x1 (by decide) (h.statIntr (h.updStat (h.setMode hdots _) _) _)
    · exact h.statIntr (h.updStat (h.setMode (h.updDots hly _) _) _) _
  · unfold vblankEndCycle
    have hly := h.setLy (h.updDots (h.call _ .renderDrawFramebuffer id hs) (· + 80)) 0
    exact h.call _ _ id (h.countFrame (h.updStat (h.updStat (h.setMode hly _) _) _))
  · exact h.setMode (h.updStat (h.updDots hs _) _) _
  · exact h.ppuRenderLine (h.setMode (h.updStat (h.updDots hs _) _) _)

theorem countVblankDots (hs : P s) (ticks : U8) : P (countVblankDots ticks s) := by
  unfold RealBoy.countVblankDots
  split
  · dsimp only
    have hdots := h.updVblankDots hs (· + ticks.setWidth 32 <<< 2)
    split
    · exact h.updVblankDots (h.setLy hdots _) _
    · exact hdots
  · exact hs

theorem refreshTicks (hs : P s) (ticks : U8) : P (refreshTicks ticks s) := by
  unfold RealBoy.refreshTicks
  dsimp only
  split
  · exact h.changePhase (h.updDots hs _)
  · exact h.countVblankDots (h.updDots hs _) _

/-- **A refresh.** -/
theorem ppuRefresh (hs : P s) (ticks : U8) : P (ppuRefresh ticks s) := by
  unfold RealBoy.ppuRefresh
  split
  · split
    · split
      · exact h.refreshTicks (h.updDots hs _) _
      · exact h.refreshTicks hs _
    · exact h.refreshTicks hs _
  · exact hs

end RefreshClosed

/-! ## What it leaves of the PPU -/

/-- The PPU without its clock: the memories, the index of the objects, and the
registers but LY and STAT. -/
def Ppu.still (p : Ppu) : Ppu :=
  { p with
    regs := { p.regs with ly := 0, stat := 0 }
    mode := .hblank
    dotsRemaining := 0
    frameCount := 0
    vblankDots := 0 }

section

variable (s : Emu)

@[simp] theorem still_log (e : Event) : (s.log e).ppu.still = s.ppu.still := rfl
@[simp] theorem still_request (im : U8) : (cpuRequestIntr im s).ppu.still = s.ppu.still := rfl
@[simp] theorem still_updDots (f : Int → Int) : (s.updDots f).ppu.still = s.ppu.still := rfl
@[simp] theorem still_updStat (f : U8 → U8) : (s.updStat f).ppu.still = s.ppu.still := rfl
@[simp] theorem still_updVblankDots (f : U32 → U32) :
    (s.updVblankDots f).ppu.still = s.ppu.still := rfl
@[simp] theorem still_setMode (mode : PpuMode) : (s.setMode mode).ppu.still = s.ppu.still := rfl
@[simp] theorem still_countFrame : s.countFrame.ppu.still = s.ppu.still := rfl

@[simp] theorem still_statIntr (mask : U8) : (statIntr mask s).ppu.still = s.ppu.still := by
  unfold statIntr
  split <;> simp

@[simp] theorem still_setLy (value : U8) : (setLy value s).ppu.still = s.ppu.still := by
  have hly : (s.updPpuRegs fun r => { r with ly := value }).ppu.still = s.ppu.still := rfl
  unfold setLy checkLyLyc
  split <;> simp [hly]

/-- A loop whose body leaves it. -/
theorem still_foldl {α : Type} {f : Emu → α → Emu}
    (h : ∀ s a, (f s a).ppu.still = s.ppu.still) (l : List α) :
    (l.foldl f s).ppu.still = s.ppu.still := by
  induction l generalizing s with
  | nil => rfl
  | cons a l ih => exact (ih (f s a)).trans (h s a)

@[simp] theorem still_ppuRenderLine : (ppuRenderLine s).ppu.still = s.ppu.still := by
  unfold ppuRenderLine
  rw [still_foldl _ fun s block => still_foldl s (fun s j => still_log s _) _]
  exact still_log s _

@[simp] theorem still_changePhase : (changePhase s).ppu.still = s.ppu.still := by
  unfold changePhase
  split
  · unfold hblankEndCycle
    dsimp only
    split <;> simp
  · simp [vblankEndCycle]
  · simp
  · simp

@[simp] theorem still_countVblankDots (ticks : U8) :
    (countVblankDots ticks s).ppu.still = s.ppu.still := by
  unfold countVblankDots
  dsimp only
  split
  · split <;> simp
  · rfl

@[simp] theorem still_refreshTicks (ticks : U8) :
    (refreshTicks ticks s).ppu.still = s.ppu.still := by
  unfold refreshTicks
  dsimp only
  split <;> simp

/-- **A refresh leaves the picture's memory alone.** -/
theorem still_ppuRefresh (ticks : U8) : (ppuRefresh ticks s).ppu.still = s.ppu.still := by
  unfold ppuRefresh
  split
  · split
    · split <;> simp
    · simp
  · rfl

end

end RealBoy
