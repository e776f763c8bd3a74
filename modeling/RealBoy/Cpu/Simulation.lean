/-
# `RealBoy.Cpu.Simulation` — whole runs are runs of the SM83

`cpuMachine` is the emulator as a bus with a clock: an instruction costs what
its handler returns, and time is the DIV and the TIMA counter.  A step of the
CPU is then a step of the machine, interrupts and HALT included
(`cpuExecNext_refines`), and so is every run, with PPU refreshes and bus writes of
others between the steps (`run_refines`), as long as it executes defined opcodes
only, and neither of the two deviations.
-/
import Mathlib.Data.List.Find
import RealBoy.Cpu.Refines

namespace RealBoy

open Emu
open Sm83 (Instr State)

-- as in the handlers, a write is not to be computed
attribute [local irreducible] monitorWrMem

/-! ## The clock and the PPU do not see the register file -/

section

variable (s : Emu)

-- no `rfl` lemmas: in a test they are to take its instance along
@[simp] theorem bare_cpu : (bare s).cpu = s.cpu := id rfl
@[simp] theorem bare_ppu : (bare s).ppu = s.ppu := id rfl
@[simp] theorem bare_updCpu (f : CpuState → CpuState) : (bare s).updCpu f = bare (s.updCpu f) := rfl
@[simp] theorem bare_log (e : Event) : (bare s).log e = bare (s.log e) := rfl
@[simp] theorem bare_request (im : U8) :
    cpuRequestIntr im (bare s) = bare (cpuRequestIntr im s) := rfl
@[simp] theorem bare_updPpuRegs (f : PpuRegs → PpuRegs) :
    (bare s).updPpuRegs f = bare (s.updPpuRegs f) := rfl
@[simp] theorem bare_updDots (f : Int → Int) : (bare s).updDots f = bare (s.updDots f) := rfl
@[simp] theorem bare_updStat (f : U8 → U8) : (bare s).updStat f = bare (s.updStat f) := rfl
@[simp] theorem bare_updVblankDots (f : U32 → U32) :
    (bare s).updVblankDots f = bare (s.updVblankDots f) := rfl
@[simp] theorem bare_setMode (mode : PpuMode) : (bare s).setMode mode = bare (s.setMode mode) := rfl
@[simp] theorem bare_countFrame : (bare s).countFrame = bare s.countFrame := rfl

/-- A choice between two states. -/
theorem ite_bare (c : Prop) {_ : Decidable c} (t : Emu) :
    (if c then bare s else bare t) = bare (if c then s else t) := (apply_ite bare c s t).symm

@[simp] theorem bare_advanceDiv (cycles : Nat) :
    advanceDiv cycles (bare s) = bare (advanceDiv cycles s) := rfl

@[simp] theorem bare_tickTima : tickTima (bare s) = bare (tickTima s) := by
  simp only [tickTima, bare_updCpu, bare_log, bare_cpu, bare_request, ite_bare]

theorem bare_advanceTima (cycles : Nat) :
    advanceTima cycles (bare s) = bare (advanceTima cycles s) := by
  simp only [advanceTima, bare_cpu, bare_tickTima, bare_updCpu, ite_bare]

@[simp] theorem bare_statIntr (mask : U8) : statIntr mask (bare s) = bare (statIntr mask s) := by
  simp only [statIntr, bare_ppu, bare_request, ite_bare]

@[simp] theorem bare_setLy (value : U8) : setLy value (bare s) = bare (setLy value s) := by
  simp only [setLy, checkLyLyc, bare_updPpuRegs, bare_ppu, bare_updStat, bare_statIntr, ite_bare]

/-- A loop whose body does not see the registers. -/
theorem bare_foldl {α : Type} {f : Emu → α → Emu} (h : ∀ s a, f (bare s) a = bare (f s a))
    (l : List α) : l.foldl f (bare s) = bare (l.foldl f s) := by
  induction l generalizing s with
  | nil => rfl
  | cons a l ih =>
      rw [List.foldl_cons, List.foldl_cons, h]
      exact ih (f s a)

@[simp] theorem bare_ppuRenderLine : ppuRenderLine (bare s) = bare (ppuRenderLine s) := by
  unfold ppuRenderLine
  rw [bare_ppu, bare_log]
  refine bare_foldl _ (fun s block => ?_) _
  refine bare_foldl s (fun s j => ?_) _
  rw [bare_ppu, bare_log]

@[simp] theorem bare_changePhase : changePhase (bare s) = bare (changePhase s) := by
  unfold changePhase
  rw [bare_ppu]
  cases s.ppu.mode with
  | hblank =>
      simp only [hblankEndCycle, bare_ppu, bare_setLy, bare_updVblankDots, bare_updDots,
        bare_setMode, bare_updStat, bare_statIntr, bare_request, ite_bare]
  | vblank =>
      simp only [vblankEndCycle, bare_log, bare_updDots, bare_setLy, bare_setMode, bare_updStat,
        bare_countFrame]
  | oam => rfl
  | draw => simp

@[simp] theorem bare_countVblankDots (ticks : U8) :
    countVblankDots ticks (bare s) = bare (countVblankDots ticks s) := by
  simp only [countVblankDots, bare_ppu, bare_updVblankDots, bare_setLy, ite_bare]

@[simp] theorem bare_refreshTicks (ticks : U8) :
    refreshTicks ticks (bare s) = bare (refreshTicks ticks s) := by
  simp only [refreshTicks, bare_ppu, bare_updDots, bare_changePhase, bare_countVblankDots, ite_bare]

theorem bare_ppuRefresh (ticks : U8) : ppuRefresh ticks (bare s) = bare (ppuRefresh ticks s) := by
  simp only [ppuRefresh, bare_ppu, bare_updDots, bare_refreshTicks, ite_bare]

end

theorem regs_refreshClosed (r : Registers) : RefreshClosed fun s => s.regs = r where
  ppu _ _ h := h
  request _ _ _ h := h
  call _ _ _ h := h

theorem view_ppuRefresh (ticks : U8) (s : Emu) :
    view (ppuRefresh ticks s) = (view s).onEnv (ppuRefresh ticks) := by
  have hregs := (regs_refreshClosed s.regs).ppuRefresh (s := s) rfl ticks
  show State.mk (cpuOf (ppuRefresh ticks s).regs) (bare (ppuRefresh ticks s)) = _
  rw [hregs, ← bare_ppuRefresh]
  rfl

theorem view_advance (cycles : Nat) (s : Emu) :
    view (advanceTima cycles (advanceDiv cycles s)) =
      (view s).onEnv fun e => advanceTima cycles (advanceDiv cycles e) := by
  have hregs : (advanceTima cycles (advanceDiv cycles s)).regs = s.regs := advanceTima_regs _ _
  show State.mk (cpuOf (advanceTima cycles (advanceDiv cycles s)).regs)
    (bare (advanceTima cycles (advanceDiv cycles s))) = _
  rw [hregs, ← bare_advanceTima, ← bare_advanceDiv]
  rfl

theorem view_updCpu (f : CpuState → CpuState) (s : Emu) :
    view (s.updCpu f) = (view s).onEnv (Emu.updCpu · f) := rfl

/-! ## The interrupt scan, onto any stack -/

/-- A bus write leaves IME and HALT alone. -/
theorem imeHalt_writeClosed (i h : Bool) :
    WriteClosed fun s => s.cpu.imeEnabled = i ∧ s.cpu.isHalted = h where
  call _ _ _ hs := hs
  cpu s addr value hs := by
    unfold cpuWr
    iterate 9 refine iteInduction (motive := fun s : Emu =>
      s.cpu.imeEnabled = i ∧ s.cpu.isHalted = h) (fun _ => hs) fun _ => ?_
    exact hs
  ppu _ _ hs := hs
  mbc1 _ _ hs := hs
  ioreg _ _ hs := hs

theorem processIntr_imeHalt (m : U8) (s : Emu) :
    (processIntr m s).cpu.imeEnabled = s.cpu.imeEnabled ∧
      (processIntr m s).cpu.isHalted = s.cpu.isHalted := by
  have h := imeHalt_writeClosed s.cpu.imeEnabled s.cpu.isHalted
  unfold processIntr push wrWord
  exact h.monitorWrMem _ _ (h.monitorWrMem _ _ ⟨rfl, rfl⟩)

/-- Acting on a mask leaves nothing to act on, wherever the push went. -/
theorem intrStep_done {s : Emu} {m : U8} (hm : actsOn s m = true) (n : U8) :
    actsOn (intrStep s m) n = false := by
  have quiet {s' : Emu} (hime : s'.cpu.imeEnabled = false) (hhalt : s'.cpu.isHalted = false) :
      actsOn s' n = false := by
    rw [actsOn, hime, hhalt, Bool.or_false, Bool.and_false]
  obtain ⟨hp, -⟩ := (Bool.and_eq_true _ _).mp hm
  cases hime : s.cpu.imeEnabled with
  | true =>
      have htakes : takes s m = true := by rw [takes, hp, hime, Bool.and_true]
      obtain ⟨hkeep, hhalt⟩ := processIntr_imeHalt m (acknowledge m s)
      rw [intrStep_of_takes htakes]
      exact quiet hkeep hhalt
  | false =>
      rw [intrStep_of_masked (bne_iff_ne.mp hp) hime]
      exact quiet hime rfl

theorem handleIntrs_find (s : Emu) :
    handleIntrs s = (intrMasks.find? (actsOn s)).elim s (intrStep s) := by
  have hfold := Scan.foldl_first (s := s) intrStep_of_not_actsOn
    (fun m hm n => intrStep_done hm n) intrMasks
  unfold handleIntrs
  cases hg : s.cpu.imeEnabled || s.cpu.isHalted with
  | true =>
      rw [if_pos rfl, ← hfold, intrMasks, List.foldl_map]
  | false =>
      have hnone : intrMasks.find? (actsOn s) = none := by
        refine List.find?_eq_none.mpr fun m _ => ?_
        rw [actsOn, hg, Bool.and_false]
        exact Bool.false_ne_true
      rw [hnone]
      rfl

/-- The masks in order are the bits in order. -/
theorem find_lowest (p : U8) :
    (intrMasks.find? fun m => p &&& m != 0) = (Sm83.Bus.lowest p).map ((1 : U8) <<< ·) := by
  rw [intrMasks, List.find?_map, Sm83.Bus.lowest]
  refine congrArg _ (List.find?_congr fun b hb => ?_)
  exact and_mask_bne p (List.mem_range.mp hb)

theorem lowest_lt {p : U8} {b : Nat} (h : Sm83.Bus.lowest p = some b) (hp : p ≤ 0x1f) : b < 5 :=
  lt_of_getLsbD (List.find?_some h) hp

/-- **The interrupts are the machine's.** -/
theorem handleIntrs_refines {s : Emu} (h : IfLow s) :
    view (handleIntrs s) = cpuBus.interrupt (view s) := by
  have hpend : cpuBus.pending (view s).env = pending s := rfl
  rw [handleIntrs_find, Sm83.Bus.interrupt, hpend]
  cases hg : s.cpu.imeEnabled || s.cpu.isHalted with
  | true =>
      rw [find_actsOn hg, find_lowest]
      cases hlow : Sm83.Bus.lowest (pending s) with
      | none => rfl
      | some b =>
          have hb : b < 5 := lowest_lt hlow (and_le_low h s.cpu.ieReg)
          have hbit : pending s &&& (1 : U8) <<< b ≠ 0 := by
            rw [← bne_iff_ne, and_mask_bne _ (Nat.lt_trans hb (by decide))]
            exact List.find?_some (p := fun b => (pending s).getLsbD b) hlow
          show view (intrStep s ((1 : U8) <<< b)) = if s.cpu.imeEnabled then _ else _
          rw [intrStep_eq, if_pos hbit]
          cases hime : s.cpu.imeEnabled with
          | false => rfl
          | true =>
              have hpush := view_push (f := fun s => s.regs.pc) (w := s.regs.pc)
                (s := acknowledge ((1 : U8) <<< b) s) fun s' hs' => by rw [hs']; rfl
              rw [if_pos rfl, if_pos rfl, processIntr, view_setPc, hpush,
                interruptHandlerAddr_bit hb]
              rfl
  | false =>
      obtain ⟨hime, hhalt⟩ := (Bool.or_eq_false_iff ..).mp hg
      have hnone : intrMasks.find? (actsOn s) = none := by
        refine List.find?_eq_none.mpr fun m _ => ?_
        rw [actsOn, hg, Bool.and_false]
        exact Bool.false_ne_true
      have hwake : (view s).onEnv (cpuBus.setHalted false) = view s :=
        congrArg (State.mk (cpuOf s.regs)) (congrArg bare (wake_of_running hhalt))
      have himeView : cpuBus.ime (view s).env = false := hime
      rw [hnone]
      cases Sm83.Bus.lowest (pending s) with
      | none => rfl
      | some b =>
          dsimp only
          rw [hwake, himeView]
          rfl

/-! ## A step -/

/-- The emulator as an SM83 with its time. -/
def cpuMachine : Sm83.Machine Emu where
  toBus := cpuBus
  cost i fl := i.cycles fl.byte - shortfall i
  elapse n e := advanceTima n (advanceDiv n (e.updCpu fun c =>
    { c with cycles := c.cycles + BitVec.ofNat 64 n }))
  idle e := advanceTima 3 (advanceDiv 3 e)

/-- A defined instruction takes what its handler returns. -/
theorem handler_cost {i : Instr} (hi : i.defined = true) {s : Emu} (hf : FlagsLow s) :
    (handler i s).2 = cpuMachine.cost i (view s).cpu.flags := by
  have hbyte : (view s).cpu.flags.byte = s.regs.f := flagsOf_byte hf
  show _ = i.cycles (view s).cpu.flags.byte - shortfall i
  rw [hbyte]
  by_cases ht : i.timed = true
  · have h := handler_cycles i s ht
    omega
  · cases i with
    | halt => rfl
    | stop | prefixByte | undefined => cases hi
    | ld dst src =>
        cases dst <;> cases src <;> first | exact absurd rfl ht | cases hi
    | _ => exact absurd rfl ht

theorem fetch_fetched (s : Emu) : nextInstr s = instrAt s ∧ (fetch s).2.2 = fetched s := by
  by_cases h : monitorRdMem s s.regs.pc = 0xcb
  · have hat : instrAt s = Sm83.decodePrefix (monitorRdMem s (s.regs.pc + 1)) := if_pos h
    have hfetch : fetch s = (monitorRdMem s (s.regs.pc + 1), true, advancePc 1 (advancePc 1 s)) :=
      if_pos h
    rw [nextInstr, hfetch, fetched, hat, (Sm83.decodePrefix_opcodeBytes _).1, ← advancePc_two]
    exact ⟨rfl, rfl⟩
  · have hat : instrAt s = Sm83.decode (monitorRdMem s s.regs.pc) := if_neg h
    have hfetch : fetch s = (monitorRdMem s s.regs.pc, false, advancePc 1 s) := if_neg h
    rw [nextInstr, hfetch, fetched, hat, Sm83.decode_opcodeBytes]
    exact ⟨rfl, rfl⟩

/-- The instruction of the next step, if it executes one, is the SM83's: a defined
opcode, and not where it deviates. -/
def Faithful (s : Emu) : Prop :=
  s.cpu.isHalted = false → (instrAt s).defined = true ∧ ¬ DeviatesAt s

instance : DecidablePred Faithful := fun _ => inferInstanceAs (Decidable (_ → _ ∧ _))

/-- **A step of the CPU** is a step of the machine. -/
theorem cpuExecNext_refines {s : Emu} (hf : FlagsLow s) (hi : IfLow s) (h : Faithful s) :
    view (cpuExecNext s).1 = cpuMachine.next (view s) := by
  have hbefore : IfLow (beforeIntrs s) := hi.beforeIntrs
  rw [cpuExecNext_intrs, handleIntrs_refines hbefore, Sm83.Machine.next]
  show _ = if s.cpu.isHalted then _ else _
  cases hhalt : s.cpu.isHalted with
  | true =>
      have hidle : execInstr s = (s, 3) := if_pos hhalt
      rw [if_pos rfl, beforeIntrs, hidle, view_advance]
      rfl
  | false =>
      obtain ⟨hdef, hdev⟩ := h hhalt
      obtain ⟨hnext, hfetch⟩ := fetch_fetched s
      have hfetched : FlagsLow (fetched s) := hf
      have hcost := handler_cost hdef hfetched
      have hrun : execInstr s = ((fetchDispatch s).updCpu fun c =>
          { c with cycles := c.cycles + BitVec.ofNat 64 (handler (instrAt s) (fetched s)).2 },
          (handler (instrAt s) (fetched s)).2) := by
        rw [← hnext, ← hfetch]
        unfold execInstr fetchDispatch
        rw [hhalt, if_neg Bool.false_ne_true]
        dsimp only
        rw [dispatch_eq]
        rfl
      have hstep : view (fetchDispatch s) = cpuBus.step (view s) := by
        rw [fetchDispatch_fetched]
        exact handler_refines hfetched hdef hdev
      rw [if_neg Bool.false_ne_true, beforeIntrs, hrun, view_advance, view_updCpu, hstep, hcost]
      rfl

/-! ## Runs -/

/-- What the machine makes of an action; what is not the CPU's is its
environment's. -/
def nextOf (t : State Emu) : Action → State Emu
  | .exec => cpuMachine.next t
  | .refresh ticks => t.onEnv (ppuRefresh ticks)
  | .write addr value => t.onEnv (monitorWrMem addr value)

/-- The CPU steps of a run are the SM83's. -/
def FaithfulStep (s : Emu) (a : Action) : Prop := a = .exec → Faithful s

instance (s : Emu) (a : Action) : Decidable (FaithfulStep s a) :=
  inferInstanceAs (Decidable (_ → _))

/-- **Every run is a run of the SM83**, from any reachable state, whatever the
PPU and other writers do between its instructions, as long as no STOP, no undefined
opcode and neither of the two deviations is executed. -/
theorem run_refines {s : Emu} (h : Reachable s) (acts : List Action)
    (hacts : Runs.Steps Emu.act FaithfulStep s acts) :
    view (s.run acts) = Runs.run nextOf (view s) acts := by
  refine Runs.run_map (I := Reachable) (fun s a hs => .act a hs) (fun s a hs ha => ?_) h hacts
  cases a with
  | exec => exact cpuExecNext_refines hs.flagsLow hs.ifLow (ha rfl)
  | refresh ticks => exact view_ppuRefresh ticks s
  | write addr value => exact view_write addr value s

/-- The LCD is switched on, vblank's interrupt enabled, and the CPU halts. -/
def awaitVblank : Array U8 := #[0x3e, 0x91, 0xe0, 0x40, 0x3e, 0x01, 0xe0, 0xff, 0xfb, 0x76]

/-- The PPU goes on beside it, and another writer requests the interrupt. -/
def wokenByRequest : List Action :=
  [.exec, .refresh 2, .exec, .refresh 3, .exec, .refresh 2, .exec, .refresh 3, .exec, .refresh 1,
    .exec, .refresh 1, .exec, .refresh 3, .exec, .refresh 3, .write 0xff0f 0x01, .exec, .refresh 3]

/-- It is halted for two steps and dispatched in the third. -/
theorem run_refines_awaitVblank :
    let s := powerOn awaitVblank #[]
    view (s.run wokenByRequest) = Runs.run nextOf (view s) wokenByRequest ∧
      (s.run wokenByRequest).regs.pc = 0x40 := by
  exact ⟨run_refines (.powerOn _ _) _ (by decide +kernel), by decide +kernel⟩

end RealBoy
