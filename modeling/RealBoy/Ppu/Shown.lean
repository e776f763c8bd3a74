/-
# `RealBoy.Ppu.Shown` — what is shown

The calls of a run, replayed, give the frame buffer at any time (`Emu.screen`).

In every run that keeps LY on the screen no assertion fails, the buffer is touched
in the bytes of the image only, and each pixel is the last one drawn at it
(`screen_passes`).  And in such a run, while a frame is drawn whose scene nobody
changes, what is handed over is the picture of that scene, each line composed as
`ppu_render_line` does (`frames_shown`): the frame is whole, however its refreshes
fall between the instructions.
-/
import RealBoy.Cpu.Halt
import RealBoy.Ppu.Panel

namespace RealBoy

open Emu
open History (latest)

/-- The calls so far, from the start: what is on the screen. -/
def Emu.screen (s : Emu) : Option Render := renderInit.calls s.events

/-! ## The buffer in every run -/

/-- The pixels the clock draws are pixels of the image. -/
theorem inImage_of_inFrame {s : Emu} (h : RasterInv s.raster) : InImage s.events := by
  intro c hc
  obtain ⟨e, he, hce⟩ := List.mem_filterMap.mp hc
  cases e with
  | renderDrawPixel x y pixel =>
      cases hce
      exact h.inFrame (x, y) (List.mem_filterMap.mpr ⟨_, he, rfl⟩)
  | _ => cases hce

/-- The screen after calls within the image. -/
theorem screen_of_inImage {s : Emu} (hin : InImage s.events) :
    ∃ r, s.screen = some r ∧ (∀ k, 144 * 160 * 4 ≤ k → r.dmgBuf k = none) ∧
      ∀ x y, r.src x y = (latest (pixelAt x y) s.events).join := by
  obtain ⟨r, hr, hbuf⟩ := calls_of_inImage hin renderInit
  refine ⟨r, hr, fun k hk => ?_, fun x y => ?_⟩
  · rw [hbuf]
    exact Canvas.paint_beyond _ hin hk
  · rw [src_calls hin hbuf x y]
    cases latest (pixelAt x y) s.events <;> rfl

/-- **The frame buffer.**  In every run of the emulator, of any program and with any
keys, that stores no line to LY beyond the screen, only pixels of the image are drawn:
no assertion of `render_draw_pixel` fails, no byte behind the image is written, and each
pixel of the image is the last one drawn there. -/
theorem screen_passes (rom boot : Array U8) (steps : List LoopStep)
    (hly : ∀ e ∈ ((powerOn rom boot).passes steps).events, ¬ e.LeavesScreen) :
    InImage ((powerOn rom boot).passes steps).events ∧
      ∃ r, ((powerOn rom boot).passes steps).screen = some r ∧
        (∀ k, 144 * 160 * 4 ≤ k → r.dmgBuf k = none) ∧
        ∀ x y, r.src x y =
          (latest (pixelAt x y) ((powerOn rom boot).passes steps).events).join := by
  have hin := inImage_of_inFrame (rasterInv_passes rom boot steps hly)
  exact ⟨hin, screen_of_inImage hin⟩

/-- LD A,0x91; LDH (0x40),A; HALT: the LCD is switched on, and then there is nothing but
the PPU. -/
def restProgram : Array U8 := #[0x3e, 0x91, 0xe0, 0x40, 0x76]

/-- Halted, in the first phase of the first line. -/
def resting : Emu := (powerOn restProgram #[]).passes (List.replicate 3 .execNext)

theorem resting_rest : Resting resting := ⟨by decide, by decide, by decide⟩

theorem resting_on : resting.raster.on = true := by decide

theorem resting_events : resting.events = [.monitorWrMem 0xff40 0x91] := by decide

/-- Up to there, and `n` steps of rest. -/
def restRun (n : Nat) : List LoopStep :=
  List.replicate 3 .execNext ++ List.replicate n .execNext

theorem passes_restRun (n : Nat) : (powerOn restProgram #[]).passes (restRun n) =
    resting.passes (List.replicate n .execNext) :=
  Runs.run_append ..

theorem resting_eq : resting = (powerOn restProgram #[]).passes (restRun 0) := by
  rw [passes_restRun, List.replicate_zero]
  exact (Runs.run_nil resting).symm

theorem restRun_raster (n : Nat) :
    ((powerOn restProgram #[]).passes (restRun n)).raster = (Raster.tick 3)^[n] resting.raster := by
  rw [passes_restRun, (resting_rest.passes resting_on n).1]

theorem restRun_onScreen (n : Nat) :
    ∀ e ∈ ((powerOn restProgram #[]).passes (restRun n)).events, ¬ e.LeavesScreen := by
  obtain ⟨-, es, hes, hno⟩ := resting_rest.passes resting_on n
  rw [passes_restRun, hes, resting_events]
  refine List.forall_mem_append.mpr ⟨List.forall_mem_singleton.mpr ?_, fun e he hw => ?_⟩
  · rintro ⟨value, -, hv⟩
    cases hv
  · obtain ⟨value, -, rfl⟩ := hw
    exact hno _ he trivial

set_option maxRecDepth 100000 in
/-- A line is drawn. -/
theorem screen_passes_restRun :
    ((powerOn restProgram #[]).passes (restRun 60)).raster.lines = [0] ∧
      InImage ((powerOn restProgram #[]).passes (restRun 60)).events ∧
      ∃ r, ((powerOn restProgram #[]).passes (restRun 60)).screen = some r ∧
        (∀ k, 144 * 160 * 4 ≤ k → r.dmgBuf k = none) ∧
        ∀ x y, r.src x y =
          (latest (pixelAt x y) ((powerOn restProgram #[]).passes (restRun 60)).events).join := by
  have hlines : ((Raster.tick 3)^[60] resting.raster).lines = [0] := by decide +kernel
  rw [← restRun_raster] at hlines
  exact ⟨hlines, screen_passes restProgram #[] (restRun 60) (restRun_onScreen 60)⟩

/-! ## The scene -/

/-- What the picture is made of: the PPU without its clock, STAT and LYC. -/
def Ppu.scene (p : Ppu) : Ppu :=
  { p.still with regs := { p.still.regs with lyc := 0 } }

/-- A scene with the beam at line `ly`. -/
def Ppu.atLine (p : Ppu) (ly : U8) : Ppu := { p with regs := { p.regs with ly := ly } }

/-- The picture of a scene. -/
def Ppu.picture (p : Ppu) : Image := fun x y => linePixel (p.atLine (BitVec.ofNat 8 y)) x

section

variable (p : Ppu) (stat lyc : U8) (mode : PpuMode) (dots : Int) (count : U64) (vblank : U32)

/-- The PPU at another time of its clock. -/
def Ppu.clocked : Ppu :=
  { p with
    regs := { p.regs with stat := stat, lyc := lyc }
    mode := mode
    dotsRemaining := dots
    frameCount := count
    vblankDots := vblank }

/-- A pixel does not depend on the clock but for LY. -/
theorem linePixel_clocked (x : Nat) :
    linePixel (p.clocked stat lyc mode dots count vblank) x = linePixel p x := by
  rw [linePixel, finalPixel, linePixel, finalPixel]
  rfl

theorem lineEvents_clocked :
    lineEvents (p.clocked stat lyc mode dots count vblank) = lineEvents p := by
  simp only [lineEvents, linePixel_clocked]
  rfl

end

/-- A line is of the scene and LY. -/
theorem linePixel_scene (p : Ppu) (x : Nat) :
    linePixel (p.scene.atLine p.regs.ly) x = linePixel p x := by
  exact linePixel_clocked p 0 0 .hblank 0 0 0 x

/-- A bus write to what the picture is made of, or to the clock: to the PPU, but not
to STAT or LYC. -/
def Event.ChangesScene (e : Event) : Prop :=
  ∃ addr value, PpuRange addr ∧ addr ≠ 0xff41 ∧ addr ≠ 0xff45 ∧ e = .monitorWrMem addr value

theorem scene_ppuRefresh (ticks : U8) (s : Emu) : (ppuRefresh ticks s).ppu.scene = s.ppu.scene := by
  rw [Ppu.scene, still_ppuRefresh]
  rfl

/-! ## The calls of a refresh -/

section

variable (s : Emu)

theorem screen_log {e : Event} (he : ∀ r : Render, r.call e = some r) :
    (s.log e).screen = s.screen := by
  rw [Emu.screen, log_events, Render.calls_append, Emu.screen]
  cases renderInit.calls s.events with
  | none => rfl
  | some r =>
      rw [Option.bind_some, Render.calls_cons, he r]
      rfl

theorem screen_congr {s s' : Emu} (h : s'.events = s.events) : s'.screen = s.screen := by
  rw [Emu.screen, h, Emu.screen]

@[simp] theorem screen_request (im : U8) : (cpuRequestIntr im s).screen = s.screen :=
  screen_log (s.updCpu _) fun _ => rfl

@[simp] theorem screen_updDots (f : Int → Int) : (s.updDots f).screen = s.screen := rfl
@[simp] theorem screen_updStat (f : U8 → U8) : (s.updStat f).screen = s.screen := rfl
@[simp] theorem screen_updVblankDots (f : U32 → U32) : (s.updVblankDots f).screen = s.screen := rfl
@[simp] theorem screen_setMode (mode : PpuMode) : (s.setMode mode).screen = s.screen := rfl
@[simp] theorem screen_countFrame : s.countFrame.screen = s.screen := rfl

@[simp] theorem screen_statIntr (mask : U8) : (statIntr mask s).screen = s.screen := by
  unfold statIntr
  split <;> simp

@[simp] theorem screen_setLy (value : U8) : (setLy value s).screen = s.screen := by
  have hly : (s.updPpuRegs fun r => { r with ly := value }).screen = s.screen := rfl
  unfold setLy checkLyLyc
  split <;> simp [hly]

theorem screen_hblankEndCycle : (hblankEndCycle s).screen = s.screen := by
  unfold hblankEndCycle
  dsimp only
  split <;> simp

theorem screen_vblankEndCycle : (vblankEndCycle s).screen = s.screen := by
  rw [vblankEndCycle, screen_log _ fun _ => rfl]
  simp

theorem screen_countVblankDots (ticks : U8) : (countVblankDots ticks s).screen = s.screen := by
  unfold countVblankDots
  dsimp only
  split
  · split <;> simp
  · rfl

/-- What the end of a phase calls: a line is drawn, or the image handed over. -/
def phaseCalls (p : Ppu) : List Event :=
  match p.mode with
  | .draw => lineEvents p
  | .vblank => [.renderDrawFramebuffer]
  | .oam | .hblank => []

theorem screen_renderLine :
    (ppuRenderLine s).screen = s.screen.bind fun r => r.calls (lineEvents s.ppu) := by
  rw [ppuRenderLine_eq, Emu.screen, logs_events, Render.calls_append]
  rfl

theorem screen_changePhase :
    (changePhase s).screen = s.screen.bind fun r => r.calls (phaseCalls s.ppu) := by
  rw [changePhase, phaseCalls]
  cases s.ppu.mode with
  | hblank => simp [screen_hblankEndCycle]
  | oam => simp
  | vblank =>
      dsimp only
      rw [screen_vblankEndCycle, Emu.screen, log_events, Render.calls_append]
      rfl
  | draw =>
      have hline := lineEvents_clocked s.ppu (s.ppu.regs.stat &&& ~~~3) s.ppu.regs.lyc .hblank
        (int16 (s.ppu.dotsRemaining + 145)) s.ppu.frameCount s.ppu.vblankDots
      dsimp only
      rw [screen_renderLine, ← hline]
      rfl

theorem screen_refreshTicks (ticks : U8) :
    (refreshTicks ticks s).screen =
      if (s.raster.spend ticks).Ends then s.screen.bind fun r => r.calls (phaseCalls s.ppu)
      else s.screen := by
  let s₁ := s.updDots (· - 4 * ticks.toNat)
  have hends : (s₁.ppu.dotsRemaining ≤ 0 ∨ s₁.ppu.regs.ly = 0x99) ↔ (s.raster.spend ticks).Ends := by
    rw [← show s₁.raster = s.raster.spend ticks from raster_updDots s _]
    rfl
  show (if _ then changePhase s₁ else countVblankDots ticks s₁).screen = _
  by_cases h : (s.raster.spend ticks).Ends
  · rw [if_pos (hends.mpr h), if_pos h, screen_changePhase]
    rfl
  · rw [if_neg (fun h' => h (hends.mp h')), if_neg h, screen_countVblankDots]
    rfl

/-- **The calls of a refresh.** -/
theorem screen_ppuRefresh {ticks : U8} (h : ticks ≠ 0) :
    (ppuRefresh ticks s).screen =
      if s.raster.on ∧ (s.raster.spend ticks).Ends then
        s.screen.bind fun r => r.calls (phaseCalls s.ppu)
      else s.screen := by
  rw [ppuRefresh, if_neg h, ite_and]
  show (if s.raster.on then _ else _ : Emu).screen = _
  by_cases hon : s.raster.on
  · rw [if_pos hon, if_pos hon, screen_refreshTicks]
  · rw [if_neg hon, if_neg hon]

end

/-! ## A frame -/

/-- How many lines of the frame are drawn. -/
def Raster.linesDone (q : Raster) : Nat :=
  match q.mode with
  | .oam | .draw => q.ly.toNat
  | .hblank => q.ly.toNat + 1
  | .vblank => 144

/-- The images since `before` are pictures of the scene `p`, one for each frame
counted since `n₀`, and so are the lines of the next one. -/
structure Drawn (p : Ppu) (before : List Image) (n₀ : U64) (q : Raster) (r : Render) : Prop where
  frames : ∃ n : Nat, r.composited = before ++ List.replicate n p.picture ∧
    q.frameCount = n₀ + BitVec.ofNat 64 n
  lines : ∀ x y, y.1 < q.linesDone → r.src x y = p.picture x y

section

variable {p : Ppu} {before : List Image} {n₀ : U64} {q q' : Raster} {r r' : Render}

/-- The beam goes on within the lines that are drawn. -/
theorem Drawn.move (h : Drawn p before n₀ q r) (hdone : q'.linesDone ≤ q.linesDone)
    (hcount : q'.frameCount = q.frameCount) : Drawn p before n₀ q' r where
  frames := by
    rw [hcount]
    exact h.frames
  lines x y hy := h.lines x y (Nat.lt_of_lt_of_le hy hdone)

/-- One more line is drawn. -/
theorem Drawn.line (h : Drawn p before n₀ q r) (hcomp : r'.composited = r.composited)
    (hsrc : ∀ x y, r'.src x y = if q.ly.toNat = y then p.picture x y else r.src x y)
    (hdone : q'.linesDone ≤ q.ly.toNat + 1) (hbelow : q.ly.toNat ≤ q.linesDone)
    (hcount : q'.frameCount = q.frameCount) : Drawn p before n₀ q' r' where
  frames := by
    rw [hcount, hcomp]
    exact h.frames
  lines x y hy := by
    rw [hsrc]
    split
    · rfl
    · exact h.lines x y (by omega)

/-- The image is handed over. -/
theorem Drawn.frame (h : Drawn p before n₀ q r) (hall : 144 ≤ q.linesDone)
    (hdone : q'.linesDone = 0) (hcount : q'.frameCount = q.frameCount + 1) :
    Drawn p before n₀ q' r.drawFramebuffer where
  frames := by
    obtain ⟨n, hbefore, hn⟩ := h.frames
    have hsrc : r.src = p.picture := by
      funext x y
      exact h.lines x y (Nat.lt_of_lt_of_le y.isLt hall)
    refine ⟨n + 1, ?_, ?_⟩
    · rw [Render.drawFramebuffer, hbefore, hsrc, List.replicate_succ', List.append_assoc]
    · rw [hcount, hn, BitVec.ofNat_add, BitVec.add_assoc]
      rfl
  lines x y hy := by omega

end

theorem linesDone_countVblank (q : Raster) (ticks : U8) :
    (q.countVblank ticks).linesDone = q.linesDone ∧
      (q.countVblank ticks).frameCount = q.frameCount := by
  unfold Raster.countVblank
  split
  case isTrue hm =>
    dsimp only
    split
    · simp [Raster.linesDone, hm]
    · simp [Raster.linesDone, hm]
  case isFalse => exact ⟨rfl, rfl⟩

/-- A frame of the scene `p` is being drawn. -/
structure Drawing (p : Ppu) (before : List Image) (n₀ : U64) (s : Emu) : Prop where
  inv : RasterInv s.raster
  scene : s.ppu.scene = p
  screen : ∃ r, s.screen = some r ∧ Drawn p before n₀ s.raster r

/-- **The end of a phase.** -/
theorem Drawing.phase {p : Ppu} {before : List Image} {n₀ : U64} {s : Emu}
    (h : Drawing p before n₀ s) (ticks : U8) :
    ∃ r, (s.screen.bind fun r => r.calls (phaseCalls s.ppu)) = some r ∧
      Drawn p before n₀ (s.raster.spend ticks).next r := by
  obtain ⟨r, hr, hdrawn⟩ := h.screen
  rw [hr, Option.bind_some, phaseCalls]
  have hnext : (s.raster.spend ticks).mode = s.ppu.mode := rfl
  have hdone : s.raster.linesDone = match s.ppu.mode with
    | .oam | .draw => s.ppu.regs.ly.toNat
    | .hblank => s.ppu.regs.ly.toNat + 1
    | .vblank => 144 := rfl
  rw [Raster.next, hnext]
  cases hm : s.ppu.mode with
  | oam =>
      rw [hm] at hdone
      exact ⟨r, rfl, hdrawn.move (Nat.le_of_eq hdone.symm) rfl⟩
  | draw =>
      rw [hm] at hdone
      have hly : s.ppu.regs.ly < 144 := h.inv.ly_lt (by rw [show s.raster.mode = _ from hm]; simp)
      obtain ⟨r', hr', hcomp, hsrc⟩ := calls_lineEvents hly r
      have hpicture (x : Fin 160) (y : Fin 144) (hy : s.ppu.regs.ly.toNat = y.1) :
          linePixel s.ppu x = p.picture x y := by
        rw [Ppu.picture, ← hy, BitVec.ofNat_toNat, BitVec.setWidth_eq, ← h.scene, linePixel_scene]
      refine ⟨r', hr', hdrawn.line hcomp (fun x y => ?_) Nat.le.refl (Nat.le_of_eq hdone.symm) rfl⟩
      rw [hsrc]
      split
      case isTrue hy => exact (hpicture x y hy).trans (if_pos hy).symm
      case isFalse hy => exact (if_neg hy).symm
  | hblank =>
      rw [hm] at hdone
      have hly : s.ppu.regs.ly < 144 := h.inv.ly_lt (by rw [show s.raster.mode = _ from hm]; simp)
      have hly' : s.raster.ly.toNat < 144 := hly
      dsimp only
      split
      case isTrue h144 =>
        have h144 : s.raster.ly + 1 ≥ 144 := h144
        refine ⟨r, rfl, hdrawn.move ?_ rfl⟩
        rw [hdone]
        show 144 ≤ s.raster.ly.toNat + 1
        bv_omega
      case isFalse =>
        refine ⟨r, rfl, hdrawn.move ?_ rfl⟩
        rw [hdone]
        show (s.raster.ly + 1).toNat ≤ s.raster.ly.toNat + 1
        bv_omega
  | vblank =>
      rw [hm] at hdone
      exact ⟨r.drawFramebuffer, rfl, hdrawn.frame (Nat.le_of_eq hdone.symm) rfl rfl⟩

theorem Drawing.refresh {p : Ppu} {before : List Image} {n₀ : U64} {s : Emu}
    (h : Drawing p before n₀ s) {ticks : U8} (h₁ : 1 ≤ ticks) (h₆ : ticks ≤ 6) :
    Drawing p before n₀ (ppuRefresh ticks s) := by
  have hn : ticks ≠ 0 := by bv_omega
  refine ⟨h.inv.refresh h₁ h₆, (scene_ppuRefresh ticks s).trans h.scene, ?_⟩
  rw [screen_ppuRefresh s hn, ppuRefresh_raster hn]
  by_cases hon : s.raster.on
  · rw [if_pos hon, Raster.tick]
    by_cases he : (s.raster.spend ticks).Ends
    · rw [if_pos ⟨hon, he⟩, if_pos he]
      exact h.phase ticks
    · rw [if_neg fun h' => he h'.2, if_neg he]
      obtain ⟨r, hr, hdrawn⟩ := h.screen
      obtain ⟨hdone, hcount⟩ := linesDone_countVblank (s.raster.spend ticks) ticks
      exact ⟨r, hr, hdrawn.move (Nat.le_of_eq hdone) hcount⟩
  · rw [if_neg fun h' => hon h'.1, if_neg hon]
    exact h.screen

/-- Other bus writes leave the scene and the clock. -/
theorem monitorWrMem_scene {addr : U16} {value : U8} (hdma : addr ≠ 0xff46)
    (hW : ¬ Event.ChangesScene (.monitorWrMem addr value)) (s : Emu) :
    (monitorWrMem addr value s).raster = s.raster ∧
      (monitorWrMem addr value s).ppu.scene = s.ppu.scene := by
  have hkept (hp : PpuRange addr) : addr = 0xff41 ∨ addr = 0xff45 := by
    by_contra hne
    rw [not_or] at hne
    exact hW ⟨addr, value, hp, hne.1, hne.2, rfl⟩
  constructor
  · have hr := monitorWrMem_raster addr value s
    generalize (monitorWrMem addr value s).raster = q at hr ⊢
    cases hr with
    | same => rfl
    | ly ha => rcases hkept (by rw [ha]; decide) with h | h <;> rw [ha] at h <;> cases h
    | toggle ha => rcases hkept (by rw [ha]; decide) with h | h <;> rw [ha] at h <;> cases h
  · have hw := monitorWrMem_cases addr value s
    generalize monitorWrMem addr value s = s' at hw ⊢
    cases hw with
    | cpu => rw [cpuWr_frame]; rfl
    | unmap =>
        show (cpuWr addr value _).ppu.scene = _
        rw [cpuWr_frame]
        rfl
    | mbc1 => rfl
    | ioreg => rfl
    | ppu hp => rcases hkept hp with rfl | rfl <;> rfl

/-- Nothing but the PPU's own clock moves a frame. -/
theorem drawing_guarded (p : Ppu) (before : List Image) (n₀ : U64) :
    Guarded Event.ChangesScene (Drawing p before n₀) where
  regs _ _ h := ⟨h.inv, h.scene, h.screen⟩
  cpu _ _ h := ⟨h.inv, h.scene, h.screen⟩
  timer s e he h := by
    have hoff : e.Offscreen := by rcases he with rfl | rfl <;> simp [Event.Offscreen]
    have hcall : ∀ r : Render, r.call e = some r := by rcases he with rfl | rfl <;> exact fun _ => rfl
    refine ⟨(raster_log hoff s).symm ▸ h.inv, h.scene, ?_⟩
    rw [raster_log hoff, screen_log s hcall]
    exact h.screen
  write s addr value hdma hW h := by
    obtain ⟨hraster, hscene⟩ := monitorWrMem_scene hdma hW s
    have hevents := (monitorWrMem_cases addr value s).events hdma
    refine ⟨hraster.symm ▸ h.inv, hscene.trans h.scene, ?_⟩
    rw [hraster, screen_congr hevents, screen_log s fun _ => rfl]
    exact h.screen
  dma s value hW h := absurd ⟨0xff46, value, by decide, by decide, by decide, rfl⟩ hW

/-- **A frame is whole.**  Where no line beyond the screen has been stored to LY: from
the OAM phase of a frame's first line on, as long as no bus write changes the scene,
whatever the program does besides and whichever keys are pressed, every image handed
over is the picture of the scene, one for each frame that is counted. -/
theorem frames_shown (rom boot : Array U8) (pre steps : List LoopStep) (s : Emu)
    (hs : s = (powerOn rom boot).passes pre) (hly : ∀ e ∈ s.events, ¬ e.LeavesScreen)
    (hmode : s.ppu.mode = .oam) (hline : s.ppu.regs.ly = 0)
    (hscene : ∀ e ∈ eventsSince s (s.passes steps), ¬ e.ChangesScene) :
    ∃ r r' n, s.screen = some r ∧ (s.passes steps).screen = some r' ∧
      r'.composited = r.composited ++ List.replicate n s.ppu.scene.picture ∧
      (s.passes steps).ppu.frameCount = s.ppu.frameCount + BitVec.ofNat 64 n := by
  subst hs
  obtain ⟨r, hr, -⟩ := screen_of_inImage (inImage_of_inFrame (rasterInv_passes rom boot pre hly))
  generalize hs : (powerOn rom boot).passes pre = s at *
  have hdone : s.raster.linesDone = 0 := by
    rw [Raster.linesDone, show s.raster.mode = _ from hmode, show s.raster.ly = _ from hline]
    rfl
  have hstart : Drawing s.ppu.scene r.composited s.ppu.frameCount s :=
    { inv := hs ▸ rasterInv_passes rom boot pre (hs ▸ hly)
      scene := rfl
      screen := ⟨r, hr, ⟨0, by simp, by simp; rfl⟩, fun x y hy => by omega⟩ }
  have hend := (drawing_guarded _ _ _).passes (fun _ _ h₁ h₆ h => h.refresh h₁ h₆)
    (fun _ _ h => ⟨h.inv, h.scene, h.screen⟩) (.refl hstart) steps
  obtain ⟨r', hr', ⟨n, hcomp, hcount⟩, -⟩ := (hend.holds hscene).screen
  exact ⟨r, r', n, hr, hr', hcomp, hcount⟩

theorem resting_frameCount (n : Nat) :
    (resting.passes (List.replicate n .execNext)).ppu.frameCount =
      ((Raster.tick 3)^[n] resting.raster).frameCount :=
  congrArg Raster.frameCount (resting_rest.passes resting_on n).1

theorem resting_scene (n : Nat) :
    ∀ e ∈ eventsSince resting (resting.passes (List.replicate n .execNext)),
      ¬ e.ChangesScene := by
  obtain ⟨-, es, hes, hno⟩ := resting_rest.passes resting_on n
  rw [eventsSince_append _ _ es hes]
  rintro e he ⟨addr, value, -, -, -, rfl⟩
  exact hno _ he trivial

set_option maxRecDepth 100000 in
/-- A frame goes by, and its image is handed over. -/
theorem frames_shown_resting : ∃ r r' n, resting.screen = some r ∧
    (resting.passes (List.replicate 5840 .execNext)).screen = some r' ∧
    r'.composited = r.composited ++ List.replicate n resting.ppu.scene.picture ∧
    (resting.passes (List.replicate 5840 .execNext)).ppu.frameCount =
      resting.ppu.frameCount + BitVec.ofNat 64 n ∧ 1 ≤ n := by
  have hone : ((Raster.tick 3)^[5840] resting.raster).frameCount = resting.ppu.frameCount + 1 := by
    decide +kernel
  rw [← resting_frameCount] at hone
  have hly := restRun_onScreen 0
  rw [← resting_eq] at hly
  have hmode : resting.ppu.mode = .oam := by decide
  have hline : resting.ppu.regs.ly = 0 := by decide
  have hscene := resting_scene 5840
  obtain ⟨r, r', n, hr, hr', hcomp, hn⟩ := frames_shown restProgram #[] (restRun 0)
    (List.replicate 5840 .execNext) resting resting_eq hly hmode hline hscene
  refine ⟨r, r', n, hr, hr', hcomp, hn, Nat.pos_of_ne_zero fun hzero => ?_⟩
  rw [hone, hzero] at hn
  exact absurd hn (by decide)

end RealBoy
