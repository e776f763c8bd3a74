/-
# `RealBoy.Cpu.Halt` — who wakes the CPU

A halted CPU idles: three cycles for the counters, the timer and the PPU, and a look
at the interrupts that are requested and enabled.  It wakes up where there is one
(`handleIntrs_wakes`), and nothing else does anything until then (`execNext_idle`).

With no interrupt enabled and the timer off there is nothing but the PPU from then on,
which runs as it does by itself (`Resting.passes`).  With the vblank interrupt enabled
and the LCD on the CPU wakes within a frame, whatever the keys do
(`halt_wakes_by_vblank`).
-/
import RealBoy.Emu.Loop
import RealBoy.Cpu.Timer
import RealBoy.Ppu.Beam
import RealBoy.Ppu.Stat

namespace RealBoy

open Emu

/-! ## Waking -/

theorem isHalted_writeClosed (b : Bool) : WriteClosed fun s => s.cpu.isHalted = b where
  call _ _ _ h := h
  cpu s addr value h := by
    unfold cpuWr
    iterate 9
      refine iteInduction (motive := fun s' : Emu => s'.cpu.isHalted = b) (fun _ => h) fun _ => ?_
    exact h
  ppu _ _ h := h
  mbc1 _ _ h := h
  ioreg _ _ h := h

/-- A dispatch is a push and a jump. -/
theorem WriteClosed.processIntr {P : Emu → Prop} (hw : WriteClosed P)
    (hregs : ∀ s r, P s → P { s with regs := r }) {s : Emu} (hs : P s) (m : U8) :
    P (processIntr m s) := by
  unfold RealBoy.processIntr setPc push wrWord
  exact hregs _ _ (hw.monitorWrMem _ _ (hw.monitorWrMem _ _ (hregs _ _ hs)))

theorem processIntr_running {s : Emu} (h : s.cpu.isHalted = false) (m : U8) :
    (processIntr m s).cpu.isHalted = false :=
  (isHalted_writeClosed false).processIntr (fun _ _ h => h) h m

/-- The scan does not halt the CPU. -/
theorem intrStep_running {s : Emu} (h : s.cpu.isHalted = false) (m : U8) :
    (intrStep s m).cpu.isHalted = false := by
  rw [intrStep_eq]
  split
  · split
    · exact processIntr_running rfl m
    · rfl
  · exact h

/-- Where it finds something, it wakes it. -/
theorem intrStep_wakes {s : Emu} {m : U8} (h : pending s &&& m ≠ 0) :
    (intrStep s m).cpu.isHalted = false := by
  rw [intrStep_eq, if_pos h]
  split
  · exact processIntr_running rfl m
  · rfl

theorem handleIntrs_eq_foldl {s : Emu} (h : s.cpu.isHalted = true) :
    handleIntrs s = intrMasks.foldl intrStep s := by
  rw [handleIntrs, h, Bool.or_true, if_pos rfl, intrMasks, List.foldl_map]

/-- **Waking**: a request that is enabled wakes the CPU. -/
theorem handleIntrs_wakes {s : Emu} (hhalt : s.cpu.isHalted = true) (hp : pending s ≠ 0) :
    (handleIntrs s).cpu.isHalted = false := by
  obtain ⟨b, -, hfind⟩ := find_intrMasks (pending s) hp
  obtain ⟨hb, l₁, l₂, hl, hbefore⟩ := List.find?_eq_some_iff_append.mp hfind
  have hnone : l₁.foldl intrStep s = s := by
    refine Scan.foldl_none intrStep_of_not_actsOn fun m hm => ?_
    have hm : (pending s &&& m != 0) = false := by simpa using hbefore m hm
    rw [actsOn, hm, Bool.false_and]
  rw [handleIntrs_eq_foldl hhalt, hl, List.foldl_append, hnone, List.foldl_cons]
  exact List.foldlRecOn (motive := fun s : Emu => s.cpu.isHalted = false) _ _
    (intrStep_wakes (bne_iff_ne.mp hb)) fun s hs m _ => intrStep_running hs m

/-- Without one the scan does nothing. -/
theorem handleIntrs_idle {s : Emu} (hhalt : s.cpu.isHalted = true) (hp : pending s = 0) :
    handleIntrs s = s := by
  rw [handleIntrs_eq_foldl hhalt]
  refine Scan.foldl_none intrStep_of_not_actsOn fun m _ => ?_
  have hm : pending s &&& m = 0 := by
    rw [hp]
    exact BitVec.zero_and
  rw [actsOn, hm]
  rfl

/-! ## Idling -/

/-- What a halted CPU does before it looks at the interrupts: the timer may have
requested its own. -/
structure Idled (s t : Emu) : Prop where
  ppu : t.ppu = s.ppu
  raster : t.raster = s.raster
  halted : t.cpu.isHalted = s.cpu.isHalted
  ieReg : t.cpu.ieReg = s.cpu.ieReg
  timaEnabled : t.cpu.timaEnabled = s.cpu.timaEnabled
  ifReg : t.cpu.ifReg = s.cpu.ifReg ∨
    (s.cpu.timaEnabled = true ∧ t.cpu.ifReg = s.cpu.ifReg ||| 0x4)

theorem idled_advanceTima (cycles : Nat) (s : Emu) : Idled s (advanceTima cycles s) := by
  have hraster : ((s.updCpu fun c => { c with timaReg := c.timaReg + 1 }).log .timaTick).raster =
      s.raster := raster_log (by simp [Event.Offscreen]) (s.updCpu _)
  have hintr (s : Emu) : (cpuRequestIntr 0x4 s).raster = s.raster :=
    raster_log (e := .cpuRequestIntr 0x4) (by simp [Event.Offscreen]) (s.updCpu _)
  unfold advanceTima
  cases hon : s.cpu.timaEnabled with
  | false => exact ⟨rfl, rfl, rfl, rfl, rfl, .inl rfl⟩
  | true =>
      rw [if_pos rfl]
      split
      · unfold tickTima
        dsimp only
        split
        · exact ⟨rfl, (hintr _).trans hraster, rfl, rfl, rfl, .inr ⟨hon, rfl⟩⟩
        · exact ⟨rfl, hraster, rfl, rfl, rfl, .inl rfl⟩
      · exact ⟨rfl, rfl, rfl, rfl, rfl, .inl rfl⟩

theorem execInstr_halted {s : Emu} (h : s.cpu.isHalted = true) : execInstr s = (s, 3) := by
  rw [execInstr, h, if_pos rfl]

theorem beforeIntrs_halted {s : Emu} (h : s.cpu.isHalted = true) :
    beforeIntrs s = advanceTima 3 (advanceDiv 3 s) := by
  rw [beforeIntrs, execInstr_halted h]

theorem idled_beforeIntrs {s : Emu} (h : s.cpu.isHalted = true) : Idled s (beforeIntrs s) := by
  rw [beforeIntrs_halted h]
  have hidle := idled_advanceTima 3 (advanceDiv 3 s)
  exact ⟨hidle.ppu, hidle.raster, hidle.halted, hidle.ieReg, hidle.timaEnabled, hidle.ifReg⟩

theorem ppuRefresh_cpu (ticks : U8) (s : Emu) :
    (ppuRefresh ticks s).cpu.isHalted = s.cpu.isHalted ∧
      (ppuRefresh ticks s).cpu.ieReg = s.cpu.ieReg ∧
      SameTimer s.cpu (ppuRefresh ticks s).cpu := by
  have h : RefreshClosed fun s' => s'.cpu.isHalted = s.cpu.isHalted ∧
      s'.cpu.ieReg = s.cpu.ieReg ∧ SameTimer s.cpu s'.cpu :=
    { ppu := fun _ _ h => h
      request := fun _ _ _ h => ⟨h.1, h.2.1, ⟨h.2.2.timaEnabled, h.2.2.timaReg, h.2.2.tmaReg,
        h.2.2.tacReg, h.2.2.tacCounter, h.2.2.tacDivider⟩⟩
      call := fun _ _ _ h => h }
  exact h.ppuRefresh ⟨rfl, rfl, rfl, rfl, rfl, rfl, rfl, rfl⟩ ticks

/-- **A step that finds nothing** is three cycles for the timer and the PPU. -/
theorem execNext_idle {s : Emu} (h : s.cpu.isHalted = true) (hp : pending (beforeIntrs s) = 0) :
    execNext s = ppuRefresh 3 (beforeIntrs s) := by
  have hcpu : (cpuExecNext s).1 = beforeIntrs s := by
    rw [cpuExecNext_intrs]
    exact handleIntrs_idle ((idled_beforeIntrs h).halted.trans h) hp
  have hcycles : (cpuExecNext s).2 = 3 := by
    show (execInstr s).2 = 3
    rw [execInstr_halted h]
  show ppuRefresh (BitVec.ofNat 8 (cpuExecNext s).2) (cpuExecNext s).1 = _
  rw [hcycles, hcpu]
  rfl

/-- **A step that finds something** wakes the CPU. -/
theorem execNext_wakes {s : Emu} (h : s.cpu.isHalted = true) (hp : pending (beforeIntrs s) ≠ 0) :
    (execNext s).cpu.isHalted = false := by
  show (ppuRefresh _ (cpuExecNext s).1).cpu.isHalted = false
  rw [(ppuRefresh_cpu _ _).1, cpuExecNext_intrs]
  exact handleIntrs_wakes ((idled_beforeIntrs h).halted.trans h) hp

/-! ## Rest -/

/-- Nothing goes on but the PPU: the CPU is halted, no interrupt enabled and the timer
off. -/
structure Resting (s : Emu) : Prop where
  halted : s.cpu.isHalted = true
  ieReg : s.cpu.ieReg = 0
  timer : s.cpu.timaEnabled = false

/-- No bus write has been made since `s₀`. -/
def NoWrites (s₀ s : Emu) : Prop := ∃ es, s.events = s₀.events ++ es ∧ ∀ e ∈ es, ¬ e.IsWrite

theorem NoWrites.log {s₀ s : Emu} (h : NoWrites s₀ s) {e : Event} (he : ¬ e.IsWrite) :
    NoWrites s₀ (s.log e) := by
  obtain ⟨es, hes, hno⟩ := h
  refine ⟨es ++ [e], ?_, List.forall_mem_append.mpr ⟨hno, List.forall_mem_singleton.mpr he⟩⟩
  rw [log_events, hes, List.append_assoc]

/-- The clock of the PPU makes none. -/
theorem noWrites_refreshClosed (s₀ : Emu) : RefreshClosed (NoWrites s₀) where
  ppu _ _ h := h
  request s _ _ h := NoWrites.log (s := s.updCpu _) h id
  call _ _ he h := h.log he

theorem Resting.execNext_eq {s : Emu} (h : Resting s) :
    execNext s = ppuRefresh 3 (advanceDiv 3 s) := by
  have hp : pending (beforeIntrs s) = 0 := by
    rw [pending, (idled_beforeIntrs h.halted).ieReg, h.ieReg]
    exact BitVec.and_zero
  have hoff : ¬ (advanceDiv 3 s).cpu.timaEnabled = true := by
    show ¬ s.cpu.timaEnabled = true
    rw [h.timer]
    exact Bool.false_ne_true
  rw [execNext_idle h.halted hp, beforeIntrs_halted h.halted, advanceTima, if_neg hoff]

theorem Resting.execNext {s : Emu} (h : Resting s) : Resting (execNext s) := by
  obtain ⟨hhalt, hie, htimer⟩ := ppuRefresh_cpu 3 (advanceDiv 3 s)
  rw [h.execNext_eq]
  exact ⟨hhalt.trans h.halted, hie.trans h.ieReg, htimer.timaEnabled.trans h.timer⟩

/-- **At rest** the PPU runs by itself, by three cycles a step, and nothing is
written. -/
theorem Resting.passes {s : Emu} (h : Resting s) (hon : s.raster.on = true) (n : Nat) :
    (s.passes (List.replicate n .execNext)).raster = (Raster.tick 3)^[n] s.raster ∧
      NoWrites s (s.passes (List.replicate n .execNext)) := by
  induction n generalizing s with
  | zero => exact ⟨rfl, [], (List.append_nil _).symm, nofun⟩
  | succ n ih =>
      have hraster : (RealBoy.execNext s).raster = s.raster.tick 3 := by
        rw [h.execNext_eq, ppuRefresh_raster (by decide)]
        exact if_pos hon
      obtain ⟨es, hes, hno⟩ : NoWrites s (RealBoy.execNext s) := by
        rw [h.execNext_eq]
        have hstart : NoWrites s (advanceDiv 3 s) := ⟨[], (List.append_nil _).symm, nofun⟩
        exact (noWrites_refreshClosed s).ppuRefresh hstart 3
      have hon' : (RealBoy.execNext s).raster.on = true := by
        rw [hraster, Raster.tick_on]
        exact hon
      obtain ⟨ihraster, es', hes', hno'⟩ := ih h.execNext hon'
      constructor
      · rw [Function.iterate_succ_apply, ← hraster, ← ihraster]
        rfl
      · refine ⟨es ++ es', ?_, List.forall_mem_append.mpr ⟨hno, hno'⟩⟩
        rw [← List.append_assoc, ← hes, ← hes']
        rfl

/-! ## The bits of IF and IE -/

/-- The interrupts the emulator requests. -/
def Requestable (mask : U8) : Prop := mask = 0x1 ∨ mask = 0x2 ∨ mask = 0x4

/-- An interrupt that is requested and enabled is pending. -/
theorem pending_ne_zero {s : Emu} {mask : U8} (hmask : Requestable mask)
    (hif : bit s.cpu.ifReg mask = true) (hie : bit s.cpu.ieReg mask = true) : pending s ≠ 0 := by
  have hbit (i : Nat) (hi : i < 8) (hif : bit s.cpu.ifReg ((1 : U8) <<< i) = true)
      (hie : bit s.cpu.ieReg ((1 : U8) <<< i) = true) : pending s ≠ 0 := by
    have h₁ := (and_mask_bne s.cpu.ifReg hi).symm.trans hif
    have h₂ := (and_mask_bne s.cpu.ieReg hi).symm.trans hie
    intro hzero
    have hp : (pending s).getLsbD i = true := by
      rw [pending, BitVec.getLsbD_and, h₁, h₂]
      rfl
    rw [hzero] at hp
    simp at hp
  rcases hmask with rfl | rfl | rfl
  · exact hbit 0 (by decide) hif hie
  · exact hbit 1 (by decide) hif hie
  · exact hbit 2 (by decide) hif hie

theorem bit_or_left {x mask : U8} (h : bit x mask = true) (y : U8) : bit (x ||| y) mask = true := by
  refine bne_iff_ne.mpr fun hzero => bne_iff_ne.mp h ?_
  rw [BitVec.and_or_distrib_right] at hzero
  exact (BitVec.or_eq_zero_iff.mp hzero).1

/-- The timer withdraws no request. -/
theorem Idled.bit {s t : Emu} (h : Idled s t) {mask : U8} (hif : bit s.cpu.ifReg mask = true) :
    bit t.cpu.ifReg mask = true := by
  rcases h.ifReg with he | ⟨-, he⟩
  · rwa [he]
  · rw [he]
    exact bit_or_left hif 0x4

/-! ## Refreshes of a halted machine -/

theorem phaseEnds_iff {ticks : U8} (h : ticks ≠ 0) (s : Emu) :
    PhaseEnds ticks s ↔ (s.raster.spend ticks).Ends := by
  rw [PhaseEnds, dotsLeft, if_neg h]
  rfl

/-- The refresh that begins vblank requests its interrupt. -/
theorem vblank_requested {s : Emu} (hon : s.raster.on = true)
    (h : s.raster.EntersLine 3 144) : bit (ppuRefresh 3 s).cpu.ifReg 0x1 = true := by
  obtain ⟨hm, hends, hly⟩ := h
  have hm : s.status.mode = .hblank := hm
  have hly : s.status.ly + 1 = 144 := hly
  have hrefresh := ppuRefresh_status 3 s
  have hends := (phaseEnds_iff (by decide) s).mpr hends
  show bit (ppuRefresh 3 s).status.ifReg 0x1 = true
  generalize (ppuRefresh 3 s).status = r at hrefresh ⊢
  cases hrefresh with
  | off hoff => exact absurd (hoff.symm.trans hon) Bool.false_ne_true
  | same hno => exact absurd hends hno
  | line hno => exact absurd hends hno
  | next =>
      rw [Status.next, hm]
      dsimp only
      rw [if_pos (by rw [hly]; decide)]
      exact bit_or_self _ (by decide)

/-! ## By vblank -/

/-- How many steps a halted CPU has at most before it wakes up for vblank. -/
def stepsToVblank (s : Emu) : Nat :=
  if bit s.cpu.ifReg 0x1 = true then 0 else (s.raster.untilLine 144 - 1).toNat / 12 + 1

/-- The clock runs as it should, and the vblank interrupt is enabled. -/
structure AwaitsVblank (s : Emu) : Prop where
  inv : RasterInv s.raster
  on : s.raster.on = true
  enabled : bit s.cpu.ieReg 0x1 = true

theorem RasterInv.before_vblank {q : Raster} (h : RasterInv q) : q.Before 144 := by
  by_cases hm : q.mode = .vblank
  · exact .inl hm
  · exact .inr (h.ly_lt hm)

/-- A step of a halted CPU brings it nearer to vblank. -/
theorem AwaitsVblank.execNext {s : Emu} (h : AwaitsVblank s) (hhalt : s.cpu.isHalted = true)
    (hp : pending (beforeIntrs s) = 0) :
    AwaitsVblank (execNext s) ∧ stepsToVblank (execNext s) + 1 ≤ stepsToVblank s := by
  have hidle := idled_beforeIntrs hhalt
  obtain ⟨-, hie, -⟩ := ppuRefresh_cpu 3 (beforeIntrs s)
  have hinv : RasterInv (beforeIntrs s).raster := hidle.raster.symm ▸ h.inv
  have hon : (beforeIntrs s).raster.on = true := hidle.raster.symm ▸ h.on
  have hraster : (RealBoy.execNext s).raster = s.raster.tick 3 := by
    rw [execNext_idle hhalt hp, ppuRefresh_raster (by decide), if_pos hon, hidle.raster]
  have hnot : ¬ bit s.cpu.ifReg 0x1 = true := fun hif =>
    pending_ne_zero (.inl rfl) (hidle.bit hif) (hidle.ieReg.symm ▸ h.enabled) hp
  have hrank : stepsToVblank s = (s.raster.untilLine 144 - 1).toNat / 12 + 1 := if_neg hnot
  refine ⟨⟨?_, ?_, ?_⟩, ?_⟩
  · rw [hraster]
    exact h.inv.tick (by decide) (by decide)
  · rw [hraster, Raster.tick_on]
    exact h.on
  · rw [execNext_idle hhalt hp, hie, hidle.ieReg]
    exact h.enabled
  · rw [hrank]
    by_cases henters : s.raster.EntersLine 3 144
    · have hreq : bit (RealBoy.execNext s).cpu.ifReg 0x1 = true := by
        rw [execNext_idle hhalt hp]
        exact vblank_requested hon (hidle.raster.symm ▸ henters)
      rw [stepsToVblank, if_pos hreq]
      omega
    · obtain ⟨-, hdots, hlt⟩ := h.inv.tick_untilLine h.inv.before_vblank (by decide) (by decide)
        (by decide) (by decide) henters
      have hticks : ((3 : U8).toNat : Int) = 3 := rfl
      rw [hticks] at hdots hlt
      unfold stepsToVblank
      rw [hraster, hdots]
      split
      · omega
      · omega

/-- **The vblank interrupt wakes the CPU within a frame.**  In any run that stores no
line to LY beyond the screen, with the LCD on and the interrupt enabled, a CPU that
is halted is awake after no more than 5841 steps, whichever keys are pressed. -/
theorem halt_wakes_by_vblank (rom boot : Array U8) (pre steps : List LoopStep) (s : Emu)
    (hs : s = (powerOn rom boot).passes pre) (hly : ∀ e ∈ s.events, ¬ e.LeavesScreen)
    (hon : bit s.ppu.regs.lcdc 0x80 = true) (hie : bit s.cpu.ieReg 0x1 = true)
    (hn : 5841 ≤ steps.count .execNext) :
    ∃ s' ∈ Runs.states Emu.pass s steps, s'.cpu.isHalted = false := by
  have hinv : RasterInv s.raster := hs ▸ rasterInv_passes rom boot pre (hs ▸ hly)
  refine Runs.exists_mem_states (I := AwaitsVblank) (· == .execNext) stepsToVblank
    (fun s a h hhalt => ?_) ⟨hinv, hon, hie⟩ ?_
  · have hhalt : s.cpu.isHalted = true := by simpa using hhalt
    cases a with
    | execNext =>
        by_cases hp : pending (beforeIntrs s) = 0
        · obtain ⟨hnext, hrank⟩ := h.execNext hhalt hp
          exact .inr ⟨hnext, hrank⟩
        · exact .inl (execNext_wakes hhalt hp)
    | key isFocus ev =>
        obtain ⟨k, hk⟩ := monitorSetKey_eq isFocus ev s
        rw [Emu.pass, hk]
        exact .inr ⟨⟨h.inv, h.on, h.enabled⟩, Nat.le_refl _⟩
  · have hle := hinv.untilLine_le (v := 144) (by decide)
    refine Nat.lt_of_lt_of_le ?_ hn
    unfold stepsToVblank
    split
    · decide
    · omega

/-- IE and LCDC are written, and the CPU halts. -/
def haltProgram : Array U8 := #[0x3e, 0x01, 0xe0, 0xff, 0x3e, 0x80, 0xe0, 0x40, 0x76]

def halting : Emu := (powerOn haltProgram #[]).passes (List.replicate 5 .execNext)

theorem halting_onScreen : ∀ e ∈ halting.events, ¬ e.LeavesScreen := by
  have hevents : halting.events = [.monitorWrMem 0xffff 0x01, .monitorWrMem 0xff40 0x80] := by
    decide
  rintro e he ⟨value, -, hv⟩
  rw [hevents, hv] at he
  simp at he

theorem halt_wakes_by_vblank_halting :
    halting.cpu.isHalted = true ∧
      ∃ s' ∈ Runs.states Emu.pass halting (List.replicate 5841 .execNext),
        s'.cpu.isHalted = false := by
  exact ⟨by decide, halt_wakes_by_vblank haltProgram #[] (List.replicate 5 .execNext) _ _ rfl
    halting_onScreen (by decide) (by decide) (by rw [List.count_replicate_self])⟩

end RealBoy
