/-
# `RealBoy.Cpu.TimerSafe` — the arithmetic of the timer

`tac_divider` is 0 at power-on, and one write sets it together with the enable
bit: a write to TAC.  So a timer that is enabled has one of the four dividers
(`Reachable.timerSet`), and `cpu_exec_next` divides by nothing else.  What has
been counted need not fit a divider that was just selected; but the sum is
either below the divider, and stored as it is, or reduced to a remainder, and
fits after the update in both cases (`timer_safe`).
-/
import RealBoy.Cpu.Interrupts
import RealBoy.Cpu.Timer

namespace RealBoy

open Emu

/-- The divider is one that TAC can select. -/
def Divided (c : CpuState) : Prop :=
  c.tacDivider = 4 ∨ c.tacDivider = 16 ∨ c.tacDivider = 64 ∨ c.tacDivider = 256

/-- An enabled timer has a divider. -/
def TimerSet (s : Emu) : Prop := s.cpu.timaEnabled = true → Divided s.cpu

theorem Divided.bounds {c : CpuState} (h : Divided c) :
    0 < c.tacDivider.toNat ∧ c.tacDivider.toNat ≤ 256 := by
  rcases h with h | h | h | h <;> rw [h] <;> decide

theorem Divided.congr {c c' : CpuState} (h : Divided c) (hd : c'.tacDivider = c.tacDivider) :
    Divided c' := by
  rw [Divided, hd]
  exact h

theorem TimerSet.congr {s s' : Emu} (h : TimerSet s) (hs : SameTimer s.cpu s'.cpu) :
    TimerSet s' := by
  intro hon
  exact (h (hs.timaEnabled.symm.trans hon)).congr hs.tacDivider

/-- A write to TAC sets the divider with the enable bit. -/
theorem divided_tac (c : CpuState) (value : U8) : Divided { c with
    tacReg := value &&& 7, timaEnabled := bit value 0x4, tacDivider := tacDividerOf value } := by
  rcases tacDividerOf_cases value with h | h | h | h
  · exact .inr (.inr (.inr h))
  · exact .inl h
  · exact .inr (.inl h)
  · exact .inr (.inr (.inl h))

theorem TimerSet.cpuWr {s : Emu} (h : TimerSet s) (addr : U16) (value : U8) :
    TimerSet (cpuWr addr value s) := by
  unfold RealBoy.cpuWr
  iterate 7 refine iteInduction (motive := TimerSet) (fun _ => h) fun _ => ?_
  refine iteInduction (motive := TimerSet) (fun _ _ => divided_tac s.cpu value) fun _ => ?_
  exact iteInduction (motive := TimerSet) (fun _ => h) fun _ => h

/-- A bus write, one to TAC included. -/
theorem timerSet_writeClosed : WriteClosed TimerSet where
  call _ _ _ h := h
  cpu _ addr value h := h.cpuWr addr value
  ppu _ _ h := h
  mbc1 _ _ h := h
  ioreg _ _ h := h

theorem TimerSet.monitorWrMem {s : Emu} (h : TimerSet s) (addr : U16) (value : U8) :
    TimerSet (monitorWrMem addr value s) := timerSet_writeClosed.monitorWrMem addr value h

theorem timerSet_closed : CpuClosed TimerSet where
  regs _ _ h := h
  cpu _ _ hc h := h.congr hc
  write _ addr value h := h.monitorWrMem addr value

theorem timerSet_refreshClosed : RefreshClosed TimerSet where
  ppu _ _ h := h
  request _ _ _ h := h
  call _ _ _ h := h

/-- The timer itself changes neither. -/
theorem TimerSet.advanceTima {s : Emu} (h : TimerSet s) (cycles : Nat) :
    TimerSet (advanceTima cycles s) := by
  cases hon : s.cpu.timaEnabled with
  | true =>
      obtain ⟨hstep, -⟩ := advanceTima_step hon (h hon).bounds cycles
      intro _
      exact (h hon).congr hstep.tacDivider
  | false =>
      unfold RealBoy.advanceTima
      rw [hon]
      exact h

theorem TimerSet.beforeTima {s : Emu} (h : TimerSet s) : TimerSet (beforeTima s) :=
  timerSet_closed.advanceDiv (timerSet_closed.execInstr h) _

/-- **The divider in every run.** -/
theorem Reachable.timerSet {s : Emu} (h : Reachable s) : TimerSet s := by
  induction h with
  | powerOn rom boot => exact nofun
  | act a _ ih =>
      cases a with
      | exec => exact timerSet_closed.handleIntrs (ih.beforeTima.advanceTima _)
      | refresh ticks => exact timerSet_refreshClosed.ppuRefresh ih ticks
      | write addr value => exact ih.monitorWrMem addr value
  | keys k _ ih => exact ih

/-- **The arithmetic of the timer is safe.**  In every reachable state an enabled
timer has a divider; so has it when the next step comes to it, the instruction
may have written TAC.  Where the cycles are added to `tac_counter` in 8 bits they
do not carry, and after the update the counter is below the divider. -/
theorem timer_safe {s : Emu} (h : Reachable s) :
    (s.cpu.timaEnabled = true → Divided s.cpu) ∧
      ((beforeTima s).cpu.timaEnabled = true →
        Divided (beforeTima s).cpu ∧
        (tacQuotient (cpuExecNext s).2 (beforeTima s).cpu = 0 →
          (beforeTima s).cpu.tacCounter.toNat + (cpuExecNext s).2 < 256) ∧
        (advanceTima (cpuExecNext s).2 (beforeTima s)).cpu.tacCounter.toNat <
          (advanceTima (cpuExecNext s).2 (beforeTima s)).cpu.tacDivider.toNat) := by
  refine ⟨h.timerSet, ?_⟩
  intro hon
  have hdivided := h.timerSet.beforeTima hon
  obtain ⟨hpos, hle⟩ := hdivided.bounds
  obtain ⟨hstep, -⟩ := advanceTima_step hon hdivided.bounds (cpuExecNext s).2
  refine ⟨hdivided, ?_, ?_⟩
  · intro hq
    exact Nat.lt_of_lt_of_le ((Nat.div_eq_zero_iff_lt hpos).mp hq) hle
  · rw [hstep.tacCounter, hstep.tacDivider]
    exact Nat.mod_lt _ hpos

/-- Five cycles counted under the divider 64, and TAC selects 4. -/
def switched : Emu :=
  [Action.write 0xff07 7, .exec, .exec, .exec, .exec, .exec, .write 0xff07 5].foldl Emu.act
    (powerOn #[] #[])

theorem timer_safe_switched :
    switched.cpu.tacDivider.toNat ≤ switched.cpu.tacCounter.toNat ∧ Divided switched.cpu ∧
      (advanceTima (cpuExecNext switched).2 (beforeTima switched)).cpu.tacCounter.toNat <
        (advanceTima (cpuExecNext switched).2 (beforeTima switched)).cpu.tacDivider.toNat := by
  have hreachable : Reachable switched :=
    List.foldlRecOn _ _ (.powerOn #[] #[]) fun _ hs a _ => .act a hs
  obtain ⟨hset, hupdate⟩ := timer_safe hreachable
  exact ⟨by decide +kernel, hset (by decide +kernel), (hupdate (by decide +kernel)).2.2⟩

end RealBoy
