/-
# `RealBoy.Cpu.Sleep` — the CPU that nobody wakes

Where LY has been kept on the screen, a halted CPU sleeps for ever just if nothing that
goes on beside it can request an interrupt it has enabled (`sleeps_forever_iff`).  One
way round, the timer comes to the end of its count, and the beam to every line,
whatever the state they start from; each of them would have woken the CPU.  The other
way round nothing that is enabled is ever requested: the keys request nothing, and of
the LCD's interrupts hblank's does not either.
-/
import RealBoy.Cpu.Halt
import RealBoy.Cpu.TimerSafe

namespace RealBoy

open Emu
open Logic (Leads)

/-- The CPU is never awake again. -/
def SleepsForever (s : Emu) : Prop := ∀ steps, (s.passes steps).cpu.isHalted = true

namespace SleepsForever

variable {s : Emu} (h : SleepsForever s)

include h

theorem halted : s.cpu.isHalted = true := h []

theorem execNext : SleepsForever (execNext s) := fun steps => h (.execNext :: steps)

/-- It finds nothing. -/
theorem idle : pending (beforeIntrs s) = 0 := by
  by_contra hp
  have hawake := execNext_wakes h.halted hp
  rw [h.execNext.halted] at hawake
  cases hawake

/-- No interrupt is both requested and enabled. -/
theorem not_requested {mask : U8} (hmask : Requestable mask) (hif : bit s.cpu.ifReg mask = true) :
    bit s.cpu.ieReg mask = false := by
  have hidle := idled_beforeIntrs h.halted
  by_contra hie
  refine pending_ne_zero hmask (hidle.bit hif) ?_ h.idle
  rw [hidle.ieReg]
  exact Bool.not_eq_false _ ▸ hie

end SleepsForever

/-! ## STAT and LYC stay -/

theorem and_of_mask {y mask : U8} (hy : y &&& 7 = y) (h : mask &&& 7 = 0) : y &&& mask = 0 := by
  rw [← hy, BitVec.and_assoc, BitVec.and_comm 7 mask, h]
  exact BitVec.and_zero

theorem Status.toLy_kept (r : Status) (value : U8) {mask : U8} (h : mask &&& 7 = 0) :
    bit (r.toLy value).stat mask = bit r.stat mask :=
  r.toLy_bit_of value mask (and_of_mask (by decide) h)

/-- The end of a phase leaves what STAT enables. -/
theorem Status.next_kept (r : Status) {mask : U8} (h : mask &&& 7 = 0) :
    bit r.next.stat mask = bit r.stat mask := by
  have hor (x : U8) {y : U8} (hy : y &&& 7 = y) : bit (x ||| y) mask = bit x mask :=
    bit_or _ _ _ (and_of_mask hy h)
  have handNot (x : U8) {y : U8} (hy : y &&& 7 = y) : bit (x &&& ~~~y) mask = bit x mask :=
    bit_andNot _ _ _ (and_of_mask hy h)
  unfold Status.next
  split
  · exact hor _ (by decide)
  · exact handNot _ (by decide)
  · split
    · simp only [intr_stat, enter_stat]
      rw [hor _ (by decide), r.toLy_kept _ h]
    · simp only [intr_stat, enter_stat]
      rw [hor _ (by decide), r.toLy_kept _ h]
  · dsimp only
    rw [hor _ (by decide), handNot _ (by decide), r.toLy_kept _ h]

theorem Status.next_lyc (r : Status) : r.next.lyc = r.lyc := by
  unfold Status.next
  split
  · rfl
  · rfl
  · split <;> simp
  · simp

theorem StatusRefresh.kept {ticks : U8} {s : Emu} {r : Status} (h : StatusRefresh ticks s r)
    {mask : U8} (hmask : mask &&& 7 = 0) :
    bit r.stat mask = bit s.status.stat mask ∧ r.lyc = s.status.lyc := by
  cases h with
  | off | same => exact ⟨rfl, rfl⟩
  | next => exact ⟨s.status.next_kept hmask, s.status.next_lyc⟩
  | line => exact ⟨s.status.toLy_kept _ hmask, Status.toLy_lyc ..⟩

/-! ## The beam goes on -/

/-- A CPU that sleeps for ever beside a PPU that is on: what is enabled stays as in
`s₀`. -/
structure Sleeper (s₀ s : Emu) : Prop where
  sleeps : SleepsForever s
  inv : RasterInv s.raster
  on : s.raster.on = true
  ieReg : s.cpu.ieReg = s₀.cpu.ieReg
  lyc : s.ppu.regs.lyc = s₀.ppu.regs.lyc
  stat : ∀ mask, mask &&& 7 = 0 → bit s.ppu.regs.stat mask = bit s₀.ppu.regs.stat mask

namespace Sleeper

variable {s₀ s : Emu} (h : Sleeper s₀ s)

include h

theorem raster_execNext : (execNext s).raster = s.raster.tick 3 := by
  have hidle := idled_beforeIntrs h.sleeps.halted
  rw [execNext_idle h.sleeps.halted h.sleeps.idle, ppuRefresh_raster (by decide), hidle.raster,
    if_pos h.on]

theorem status_execNext : StatusRefresh 3 (beforeIntrs s) (execNext s).status := by
  rw [execNext_idle h.sleeps.halted h.sleeps.idle]
  exact ppuRefresh_status 3 _

theorem execNext : Sleeper s₀ (execNext s) := by
  have hidle := idled_beforeIntrs h.sleeps.halted
  obtain ⟨-, hie, -⟩ := ppuRefresh_cpu 3 (beforeIntrs s)
  have hstatus := h.status_execNext
  refine ⟨h.sleeps.execNext, ?_, ?_, ?_, ?_, fun mask hmask => ?_⟩
  · rw [h.raster_execNext]
    exact h.inv.tick (by decide) (by decide)
  · rw [h.raster_execNext, Raster.tick_on]
    exact h.on
  · rw [execNext_idle h.sleeps.halted h.sleeps.idle, hie, hidle.ieReg]
    exact h.ieReg
  · refine (hstatus.kept (by decide : (0 : U8) &&& 7 = 0)).2.trans ?_
    show (beforeIntrs s).ppu.regs.lyc = _
    rw [hidle.ppu]
    exact h.lyc
  · refine (hstatus.kept hmask).1.trans ?_
    show bit (beforeIntrs s).ppu.regs.stat mask = _
    rw [hidle.ppu]
    exact h.stat mask hmask

/-- **Where the beam gets, a sleeping machine gets.** -/
theorem along {Q : Raster → Prop} (hQ : BeamLeads 3 Q s.raster) : ∃ s', Sleeper s₀ s' ∧ Q s'.raster := by
  generalize hq : s.raster = q at hQ
  induction hQ generalizing s with
  | here hQ => exact ⟨s, h, hq ▸ hQ⟩
  | step _ _ ih => exact ih h.execNext (h.raster_execNext.trans (by rw [hq]))

/-- It comes to the end of the hblank before each line. -/
theorem entersLine {v : U8} (hv₁ : 1 ≤ v) (hv : v ≤ 144) :
    ∃ s', Sleeper s₀ s' ∧ s'.raster.EntersLine 3 v := by
  obtain ⟨s₁, h₁, hinv, henters⟩ := h.along (leads_vblank h.inv (by decide) (by decide))
  have hfresh := freshVblank_tick hinv henters (by decide) (by decide)
  have hnext := h₁.execNext
  obtain ⟨s', h', -, hline⟩ := hnext.along (leads_line hnext.inv
    (.inl (h₁.raster_execNext ▸ hfresh.mode)) (by decide) (by decide) hv₁ hv)
  exact ⟨s', h', hline⟩

/-- And to each line of vblank. -/
theorem countsLine {v : U8} (hv₁ : 144 < v) (hv : v ≤ 153) :
    ∃ s', Sleeper s₀ s' ∧ s'.raster.CountsLine 3 v := by
  obtain ⟨s₁, h₁, hinv, henters⟩ := h.along (leads_vblank h.inv (by decide) (by decide))
  have hfresh := freshVblank_tick hinv henters (by decide) (by decide)
  rw [← h₁.raster_execNext] at hfresh
  have hly : (RealBoy.execNext s₁).raster.ly = 144 := by
    obtain ⟨hm, hends, hly⟩ := henters
    have hly : (s₁.raster.spend 3).ly + 1 = 144 := hly
    rw [h₁.raster_execNext, Raster.tick, if_pos hends, Raster.next,
      show (s₁.raster.spend 3).mode = .hblank from hm]
    dsimp only
    rw [hly]
    rfl
  obtain ⟨s', h', -, hline⟩ := h₁.execNext.along
    (leads_vblankLine (v := v) hfresh (hly ▸ hv₁) (by decide) (by decide) hv)
  exact ⟨s', h', hline⟩

/-- And to the end of vblank. -/
theorem endsFrame : ∃ s', Sleeper s₀ s' ∧ s'.raster.mode = .vblank ∧ (s'.raster.spend 3).Ends := by
  obtain ⟨s₁, h₁, hinv, henters⟩ := h.along (leads_vblank h.inv (by decide) (by decide))
  have hfresh := freshVblank_tick hinv henters (by decide) (by decide)
  have hnext := h₁.execNext
  obtain ⟨s', h', -, hend⟩ := hnext.along (leads_frame hnext.inv
    (h₁.raster_execNext ▸ hfresh.mode) (by decide) (by decide))
  exact ⟨s', h', hend⟩

/-- What the LCD asks for is not enabled. -/
theorem not_asks (hasks : (RealBoy.execNext s).status.Asks) : bit s₀.cpu.ieReg 0x2 = false := by
  have hoff := h.execNext.sleeps.not_requested (.inr (.inl rfl)) hasks
  rwa [h.execNext.ieReg] at hoff

/-- The end of a phase, and what it asks for. -/
theorem status_ends (hends : (s.raster.spend 3).Ends) :
    (RealBoy.execNext s).status = (beforeIntrs s).status.next := by
  have hidle := idled_beforeIntrs h.sleeps.halted
  have hends : PhaseEnds 3 (beforeIntrs s) :=
    (phaseEnds_iff (by decide) _).mpr (hidle.raster.symm ▸ hends)
  have hrefresh := h.status_execNext
  generalize (RealBoy.execNext s).status = r at hrefresh ⊢
  cases hrefresh with
  | off hoff =>
      have hon : (beforeIntrs s).raster.on = true := hidle.raster.symm ▸ h.on
      exact absurd (hoff.symm.trans hon) Bool.false_ne_true
  | same hno => exact absurd hends hno
  | line hno => exact absurd hends hno
  | next => rfl

/-- What the refresh of a step finds. -/
theorem status_before : (beforeIntrs s).status.mode = s.raster.mode ∧
    (beforeIntrs s).status.ly = s.raster.ly ∧
    (beforeIntrs s).status.lyc = s₀.ppu.regs.lyc ∧
    ∀ mask, mask &&& 7 = 0 → bit (beforeIntrs s).status.stat mask = bit s₀.ppu.regs.stat mask := by
  have hidle := idled_beforeIntrs h.sleeps.halted
  refine ⟨congrArg Raster.mode hidle.raster, congrArg Raster.ly hidle.raster, ?_, fun mask hmask => ?_⟩
  · exact (congrArg (·.regs.lyc) hidle.ppu).trans h.lyc
  · exact (congrArg (fun p => bit p.regs.stat mask) hidle.ppu).trans (h.stat mask hmask)

/-- Vblank comes, so its interrupt is not enabled. -/
theorem vblank_disabled : bit s₀.cpu.ieReg 0x1 = false := by
  obtain ⟨s', h', henters⟩ := h.entersLine (v := 144) (by decide) (by decide)
  have hidle := idled_beforeIntrs h'.sleeps.halted
  have hreq : bit (RealBoy.execNext s').cpu.ifReg 0x1 = true := by
    rw [execNext_idle h'.sleeps.halted h'.sleeps.idle]
    exact vblank_requested (hidle.raster.symm ▸ h'.on) (hidle.raster.symm ▸ henters)
  rw [← h'.execNext.ieReg]
  exact h'.execNext.sleeps.not_requested (.inl rfl) hreq

/-- The end of each hblank comes: OAM's interrupt or vblank's, and that of LYC. -/
theorem line_disabled {v : U8} (hv₁ : 1 ≤ v) (hv : v ≤ 144)
    (hen : (s₀.ppu.regs.lyc = v ∧ bit s₀.ppu.regs.stat 0x40 = true) ∨
      bit s₀.ppu.regs.stat (if v ≥ 144 then 0x10 else 0x20) = true) :
    bit s₀.cpu.ieReg 0x2 = false := by
  obtain ⟨s', h', hm, hends, hly⟩ := h.entersLine hv₁ hv
  obtain ⟨hmode, hline, hlyc, hstat⟩ := h'.status_before
  refine h'.not_asks ?_
  rw [h'.status_ends hends, Status.next, hmode, hm]
  dsimp only
  rw [hline, hly]
  split at hen
  case isTrue hlast =>
    rw [if_pos hlast, Status.asks_vblank, Status.asks_intr, Status.enter_stat,
      bit_or _ _ _ (by decide), Status.toLy_bit_of _ _ (by decide), hstat _ (by decide)]
    rcases hen with ⟨hc, hb⟩ | hb
    · exact .inr ((Status.asks_toLy v _).mpr (.inl ⟨hlyc.trans hc, (hstat _ (by decide)).trans hb⟩))
    · exact .inl hb
  case isFalse hlast =>
    rw [if_neg hlast, Status.asks_intr, Status.enter_stat, bit_or _ _ _ (by decide),
      Status.toLy_bit_of _ _ (by decide), hstat _ (by decide)]
    rcases hen with ⟨hc, hb⟩ | hb
    · exact .inr ((Status.asks_toLy v _).mpr (.inl ⟨hlyc.trans hc, (hstat _ (by decide)).trans hb⟩))
    · exact .inl hb

/-- Every value LY takes is compared. -/
theorem lyc_disabled (hlyc : s₀.ppu.regs.lyc ≤ 153) (hb : bit s₀.ppu.regs.stat 0x40 = true) :
    bit s₀.cpu.ieReg 0x2 = false := by
  have htoLy (s' : Emu) (h' : Sleeper s₀ s') (value : U8) (hc : s₀.ppu.regs.lyc = value) :
      ((beforeIntrs s').status.toLy value).Asks := by
    obtain ⟨-, -, hlyc, hstat⟩ := h'.status_before
    exact (Status.asks_toLy value _).mpr (.inl ⟨hlyc.trans hc, (hstat _ (by decide)).trans hb⟩)
  by_cases h₀ : s₀.ppu.regs.lyc = 0
  · obtain ⟨s', h', hm, hends⟩ := h.endsFrame
    refine h'.not_asks ?_
    rw [h'.status_ends hends, Status.next, h'.status_before.1, hm]
    exact htoLy s' h' 0 h₀
  · by_cases hle : s₀.ppu.regs.lyc ≤ 144
    · exact h.line_disabled (by bv_omega) hle (.inl ⟨rfl, hb⟩)
    · obtain ⟨s', h', hm, hno, hly, hne⟩ := h.countsLine (BitVec.not_le.mp hle) hlyc
      refine h'.not_asks ?_
      -- the refresh counts a line, or LY would be as before
      have hidle := idled_beforeIntrs h'.sleeps.halted
      have hno : ¬ PhaseEnds 3 (beforeIntrs s') := fun hends =>
        hno (hidle.raster ▸ (phaseEnds_iff (by decide) _).mp hends)
      have hbefore := h'.status_before.2.1
      have hafter : (RealBoy.execNext s').status.ly = s₀.ppu.regs.lyc :=
        (congrArg Raster.ly h'.raster_execNext).trans hly
      have hrefresh := h'.status_execNext
      generalize (RealBoy.execNext s').status = r at hrefresh hafter ⊢
      cases hrefresh with
      | off => exact absurd (hbefore.symm.trans hafter) hne
      | same => exact absurd (hbefore.symm.trans hafter) hne
      | next hends => exact absurd hends hno
      | line =>
          rw [Status.toLy_ly] at hafter
          exact htoLy s' h' _ hafter.symm

end Sleeper

/-! ## The timer goes on -/

/-- TIMA wraps, and requests its interrupt. -/
theorem advanceTima_requests {s : Emu} (hon : s.cpu.timaEnabled = true) {cycles : Nat}
    (hq : tacQuotient cycles s.cpu ≠ 0) (hwrap : s.cpu.timaReg = 0xff) :
    bit (advanceTima cycles s).cpu.ifReg 0x4 = true := by
  have hzero : ((s.updCpu fun c => { c with timaReg := c.timaReg + 1 }).log .timaTick).cpu.timaReg
      = 0 := (add_one_eq_zero _).mpr hwrap
  unfold advanceTima
  rw [if_pos hon, if_pos hq, tickTima, if_pos hzero]
  exact bit_or_self s.cpu.ifReg (by decide)

/-- The TIMA ticks that are left, and what is left of the first. -/
def timaLeft (c : CpuState) : Nat := 256 * (255 - c.timaReg.toNat) + (256 - c.tacCounter.toNat)

/-- A timer that runs beside a CPU that sleeps for ever has its interrupt disabled. -/
theorem SleepsForever.timer_disabled {s : Emu} (h : SleepsForever s) (hset : TimerSet s)
    (hon : s.cpu.timaEnabled = true) : bit s.cpu.ieReg 0x4 = false := by
  by_contra hie
  have hie : bit s.cpu.ieReg 0x4 = true := Bool.not_eq_false _ ▸ hie
  have hway : Leads RealBoy.execNext (fun _ => True) (fun s => (SleepsForever s ∧ Divided s.cpu ∧
      s.cpu.timaEnabled = true ∧ bit s.cpu.ieReg 0x4 = true) ∧ False) s := by
    refine Leads.of_rank (fun s => timaLeft s.cpu) (fun s hs _ => ?_) ⟨h, hset hon, hon, hie⟩
    obtain ⟨h, hdiv, hon, hie⟩ := hs
    have hidle := idled_beforeIntrs h.halted
    have hbefore := beforeIntrs_halted h.halted
    obtain ⟨-, hie', htimer⟩ := ppuRefresh_cpu 3 (beforeIntrs s)
    obtain ⟨hstep, -⟩ := advanceTima_step (s := advanceDiv 3 s) hon hdiv.bounds 3
    rw [← hbefore] at hstep
    have hcounter : (beforeIntrs s).cpu.tacCounter.toNat =
      (s.cpu.tacCounter.toNat + 3) % s.cpu.tacDivider.toNat := hstep.tacCounter
    refine ⟨trivial, ⟨h.execNext, ?_, ?_, ?_⟩, ?_⟩
    · rw [execNext_idle h.halted h.idle]
      exact hdiv.congr (htimer.tacDivider.trans hstep.tacDivider)
    · rw [execNext_idle h.halted h.idle]
      exact htimer.timaEnabled.trans (hstep.timaEnabled.trans hon)
    · rw [execNext_idle h.halted h.idle, hie', hidle.ieReg]
      exact hie
    · rw [execNext_idle h.halted h.idle, timaLeft, timaLeft, htimer.timaReg, htimer.tacCounter,
        hcounter]
      have hbounds := hdiv.bounds
      have hlt := s.cpu.tacCounter.isLt
      have hmod := Nat.mod_lt (s.cpu.tacCounter.toNat + 3) hbounds.1
      by_cases hq : tacQuotient 3 s.cpu = 0
      · have hsame : (beforeIntrs s).cpu.timaReg = s.cpu.timaReg :=
          hstep.timaReg.trans (if_pos hq)
        have hsum : s.cpu.tacCounter.toNat + 3 < s.cpu.tacDivider.toNat := by
          by_contra hge
          exact absurd hq (Nat.div_pos (Nat.not_lt.mp hge) hbounds.1).ne'
        rw [hsame, Nat.mod_eq_of_lt hsum]
        omega
      · have hno : s.cpu.timaReg ≠ 0xff := fun hwrap => by
          have hreq := advanceTima_requests (s := advanceDiv 3 s) hon hq hwrap
          rw [← hbefore] at hreq
          exact pending_ne_zero (.inr (.inr rfl)) hreq (hidle.ieReg.symm ▸ hie) h.idle
        have hnext : (beforeIntrs s).cpu.timaReg = s.cpu.timaReg + 1 :=
          hstep.timaReg.trans ((if_neg hq).trans (if_neg hno))
        have hsucc : (s.cpu.timaReg + 1).toNat = s.cpu.timaReg.toNat + 1 := by bv_omega
        have hle : s.cpu.timaReg.toNat < 255 := by bv_omega
        rw [hnext, hsucc]
        omega
  obtain ⟨n, -, hfalse⟩ := Logic.leads_iff.mp hway
  exact hfalse.2

/-! ## Nothing wakes it -/

/-- Nothing beside a halted CPU requests an interrupt it has enabled. -/
structure NoWaker (s : Emu) : Prop where
  pending_eq : pending s = 0
  timer : s.cpu.timaEnabled = true → bit s.cpu.ieReg 0x4 = false
  vblank : bit s.ppu.regs.lcdc 0x80 = true → bit s.cpu.ieReg 0x1 = false
  lcd : bit s.ppu.regs.lcdc 0x80 = true → bit s.cpu.ieReg 0x2 = true →
    bit s.ppu.regs.stat 0x10 = false ∧ bit s.ppu.regs.stat 0x20 = false ∧
      (bit s.ppu.regs.stat 0x40 = true → 153 < s.ppu.regs.lyc)

/-- All it could have enabled would have woken it. -/
theorem SleepsForever.noWaker {s : Emu} (h : SleepsForever s) (hinv : RasterInv s.raster)
    (hset : TimerSet s) : NoWaker s := by
  have hsleeper (hon : bit s.ppu.regs.lcdc 0x80 = true) : Sleeper s s :=
    ⟨h, hinv, hon, rfl, rfl, fun _ _ => rfl⟩
  refine ⟨?_, h.timer_disabled hset, fun hon => (hsleeper hon).vblank_disabled,
    fun hon hie => ⟨?_, ?_, fun hb => ?_⟩⟩
  · have hidle := idled_beforeIntrs h.halted
    have hnone := h.idle
    rw [pending, hidle.ieReg] at hnone
    rcases hidle.ifReg with hif | ⟨-, hif⟩
    · rwa [hif] at hnone
    · rw [hif, BitVec.and_or_distrib_right] at hnone
      exact (BitVec.or_eq_zero_iff.mp hnone).1
  · by_contra hb
    have hoff := (hsleeper hon).line_disabled (v := 144) (by decide) (by decide)
      (.inr (Bool.not_eq_false _ ▸ hb))
    exact absurd (hie.symm.trans hoff) Bool.true_eq_false.mp
  · by_contra hb
    have hoff := (hsleeper hon).line_disabled (v := 1) (by decide) (by decide)
      (.inr (Bool.not_eq_false _ ▸ hb))
    exact absurd (hie.symm.trans hoff) Bool.true_eq_false.mp
  · by_contra hle
    have hoff := (hsleeper hon).lyc_disabled (BitVec.not_lt.mp hle) hb
    exact absurd (hie.symm.trans hoff) Bool.true_eq_false.mp

/-- No interrupt that is enabled is requested. -/
def Status.Silent (ie : U8) (r : Status) : Prop := r.ifReg &&& ie = 0

theorem or_and_eq_zero {x y ie : U8} (hx : x &&& ie = 0) (hy : y &&& ie = 0) :
    (x ||| y) &&& ie = 0 := by
  rw [or_and_mask x hy]
  exact hx

theorem and_eq_zero_of_bit {ie mask : U8} (h : bit ie mask = false) : mask &&& ie = 0 := by
  rw [BitVec.and_comm]
  exact bne_eq_false_iff_eq.mp h

namespace Status

variable {ie : U8} {r : Status}

theorem Silent.intr (h : r.Silent ie) {mask : U8}
    (hen : bit ie 0x2 = true → bit r.stat mask = false) : (r.intr mask).Silent ie := by
  unfold Status.intr
  split
  case isFalse => exact h
  case isTrue hb =>
    refine or_and_eq_zero h (and_eq_zero_of_bit (Bool.eq_false_iff.mpr fun hie => ?_))
    exact absurd (hb.symm.trans (hen hie)) Bool.true_eq_false.mp

theorem Silent.toLy (h : r.Silent ie) {value : U8} (hv : value ≤ 153)
    (hen : bit ie 0x2 = true → bit r.stat 0x40 = true → 153 < r.lyc) :
    (r.toLy value).Silent ie := by
  unfold Status.toLy
  split
  case isFalse => exact h
  case isTrue hc =>
    have h' : Status.Silent ie { r with ly := value, stat := r.stat ||| 0x4 } := h
    refine h'.intr fun hie => Bool.eq_false_iff.mpr fun hb => ?_
    have hb : bit (r.stat ||| 0x4) 0x40 = true := hb
    rw [bit_or _ _ _ (by decide)] at hb
    exact absurd (hc ▸ hen hie hb) (BitVec.not_lt.mpr hv)

/-- The end of a phase requests nothing. -/
theorem Silent.next (h : r.Silent ie) (hly : r.mode ≠ .vblank → r.ly < 144)
    (hvblank : bit ie 0x1 = false)
    (hlcd : bit ie 0x2 = true → bit r.stat 0x10 = false ∧ bit r.stat 0x20 = false ∧
      (bit r.stat 0x40 = true → 153 < r.lyc)) : r.next.Silent ie := by
  have hkept (value : U8) {bits mask : U8} (hb : bits &&& mask = 0) (hm : 0x4 &&& mask = 0)
      (mode : PpuMode) : bit ((r.toLy value).enter mode bits).stat mask = bit r.stat mask := by
    rw [enter_stat, bit_or _ _ _ hb, toLy_bit_of _ _ hm]
  unfold Status.next
  split
  case h_1 => exact h
  case h_2 => exact h
  case h_3 hm =>
    have hlt := hly (by rw [hm]; nofun)
    have hline : (r.toLy (r.ly + 1)).Silent ie :=
      h.toLy (by bv_omega) fun hie => (hlcd hie).2.2
    split
    · have hv : ((r.toLy (r.ly + 1)).enter .vblank 1).Silent ie := hline
      refine or_and_eq_zero (hv.intr fun hie => ?_) (and_eq_zero_of_bit hvblank)
      rw [hkept _ (by decide) (by decide)]
      exact (hlcd hie).1
    · have ho : ((r.toLy (r.ly + 1)).enter .oam 2).Silent ie := hline
      refine ho.intr fun hie => ?_
      rw [hkept _ (by decide) (by decide)]
      exact (hlcd hie).2.1
  case h_4 => exact h.toLy (by decide) fun hie => (hlcd hie).2.2

end Status

/-- Nor does a refresh. -/
theorem ppuRefresh_silent {ticks ie : U8} {s : Emu} (hs : s.status.Silent ie)
    (hinv : RasterInv s.raster) (hvblank : s.status.on = true → bit ie 0x1 = false)
    (hlcd : s.status.on = true → bit ie 0x2 = true → bit s.status.stat 0x10 = false ∧
      bit s.status.stat 0x20 = false ∧ (bit s.status.stat 0x40 = true → 153 < s.status.lyc)) :
    (ppuRefresh ticks s).status.Silent ie := by
  by_cases hon : s.status.on = true
  · have hrefresh := ppuRefresh_status ticks s
    generalize (ppuRefresh ticks s).status = r at hrefresh ⊢
    cases hrefresh with
    | off | same => exact hs
    | next => exact hs.next hinv.ly_lt (hvblank hon) (hlcd hon)
    | line hno =>
        have hle : s.status.ly ≤ 153 := hinv.ly_le
        have hne : s.status.ly ≠ 0x99 := fun he => hno (.inr he)
        exact hs.toLy (by bv_omega) fun hie => (hlcd hon hie).2.2
  · have hoff : ppuRefresh ticks s = s := if_neg hon
    rw [hoff]
    exact hs

/-- A halted CPU, and nothing to wake it. -/
structure Asleep (s : Emu) : Prop where
  halted : s.cpu.isHalted = true
  noWaker : NoWaker s
  inv : RasterInv s.raster

/-- **Nothing comes up**: a step idles, and leaves everything as it was for the next. -/
theorem Asleep.execNext {s : Emu} (hs : Asleep s) : Asleep (execNext s) := by
  obtain ⟨hhalt, h, hinv⟩ := hs
  have hidle := idled_beforeIntrs hhalt
  have hnone : pending (beforeIntrs s) = 0 := by
    rw [pending, hidle.ieReg]
    rcases hidle.ifReg with hif | ⟨hon, hif⟩
    · rw [hif]
      exact h.pending_eq
    · rw [hif]
      exact or_and_eq_zero h.pending_eq (and_eq_zero_of_bit (h.timer hon))
  obtain ⟨hhalt', hie, htimer⟩ := ppuRefresh_cpu 3 (beforeIntrs s)
  have hrefresh := ppuRefresh_status 3 (beforeIntrs s)
  have hraster := ppuRefresh_raster (by decide : (3 : U8) ≠ 0) (beforeIntrs s)
  rw [hidle.raster] at hraster
  have hon' : (ppuRefresh 3 (beforeIntrs s)).raster.on = s.raster.on := by
    rw [hraster]
    split
    · exact Raster.tick_on ..
    · rfl
  have hinv' : RasterInv (ppuRefresh 3 (beforeIntrs s)).raster := by
    rw [hraster]
    split
    · exact hinv.tick (by decide) (by decide)
    · exact hinv
  have hregs : (beforeIntrs s).status.stat = s.ppu.regs.stat ∧
      (beforeIntrs s).status.lyc = s.ppu.regs.lyc := by
    rw [← hidle.ppu]
    exact ⟨rfl, rfl⟩
  have hstat (mask : U8) (hmask : mask &&& 7 = 0) :
      bit (ppuRefresh 3 (beforeIntrs s)).ppu.regs.stat mask = bit s.ppu.regs.stat mask :=
    (hrefresh.kept hmask).1.trans (by rw [hregs.1])
  have hlyc : (ppuRefresh 3 (beforeIntrs s)).ppu.regs.lyc = s.ppu.regs.lyc :=
    (hrefresh.kept (by decide : (0 : U8) &&& 7 = 0)).2.trans hregs.2
  rw [execNext_idle hhalt hnone]
  refine ⟨hhalt'.trans (hidle.halted.trans hhalt),
    ⟨?_, fun hon => ?_, fun hon => ?_, fun hon hie' => ?_⟩, hinv'⟩
  · have hsilent : (beforeIntrs s).status.Silent s.cpu.ieReg := by
      rw [pending, hidle.ieReg] at hnone
      exact hnone
    rw [pending, hie, hidle.ieReg]
    refine ppuRefresh_silent hsilent (hidle.raster.symm ▸ hinv) (fun hon => ?_) fun hon => ?_
    · exact h.vblank ((congrArg Raster.on hidle.raster).symm.trans hon)
    · rw [hregs.1, hregs.2]
      exact h.lcd ((congrArg Raster.on hidle.raster).symm.trans hon)
  · rw [hie, hidle.ieReg]
    exact h.timer (hidle.timaEnabled.symm.trans (htimer.timaEnabled.symm.trans hon))
  · rw [hie, hidle.ieReg]
    exact h.vblank (hon'.symm.trans hon)
  · rw [hie, hidle.ieReg] at hie'
    rw [hstat _ (by decide), hstat _ (by decide), hstat _ (by decide), hlyc]
    exact h.lcd (hon'.symm.trans hon) hie'

theorem Asleep.pass {s : Emu} (h : Asleep s) (a : LoopStep) : Asleep (s.pass a) := by
  cases a with
  | execNext => exact h.execNext
  | key isFocus ev =>
      obtain ⟨k, hk⟩ := monitorSetKey_eq isFocus ev s
      obtain ⟨hhalt, hno, hinv⟩ := h
      rw [Emu.pass, hk]
      exact ⟨hhalt, ⟨hno.pending_eq, hno.timer, hno.vblank, hno.lcd⟩, hinv⟩

/-- **Who wakes the CPU.**  After any run that has stored no line to LY beyond the
screen, a CPU that is halted sleeps for ever, whatever is run and pressed, if and only if

- none of its interrupts is both requested and enabled,
- the timer is off, or its interrupt disabled,
- the LCD is off, or vblank's interrupt is disabled, and the LCD's interrupt is
  either disabled too or enabled by STAT neither for vblank nor for OAM, and for LYC
  only if that is no line. -/
theorem sleeps_forever_iff (rom boot : Array U8) (pre : List LoopStep) (s : Emu)
    (hs : s = (powerOn rom boot).passes pre) (hly : ∀ e ∈ s.events, ¬ e.LeavesScreen)
    (hhalt : s.cpu.isHalted = true) : SleepsForever s ↔ NoWaker s := by
  have hinv : RasterInv s.raster := hs ▸ rasterInv_passes rom boot pre (hs ▸ hly)
  have hset : TimerSet s := hs ▸ ((Reachable.powerOn rom boot).passes pre).timerSet
  refine ⟨fun h => h.noWaker hinv hset, fun h steps => ?_⟩
  have hrun : Asleep (Runs.run Emu.pass s steps) :=
    Runs.inv_run (C := fun _ _ => True) (fun _ a hI _ => hI.pass a) ⟨hhalt, h, hinv⟩
      (Runs.steps_of_forall fun _ _ _ => trivial)
  exact hrun.halted

/-- With vblank's interrupt enabled and the LCD on the CPU does not. -/
theorem sleeps_forever_iff_halting : halting.cpu.isHalted = true ∧ ¬ SleepsForever halting := by
  refine ⟨by decide, fun h => ?_⟩
  have hno := (sleeps_forever_iff haltProgram #[] (List.replicate 5 .execNext) halting rfl
    halting_onScreen (by decide)).mp h
  exact absurd (hno.vblank (by decide)) (by decide)

end RealBoy
