/-
# `RealBoy.Cpu.Clock` — the time that passes

`cpu_exec_next` returns the cycles of a step, and `exec_next` feeds them to the
PPU: what it returns is the time that has passed.  Two counters of the CPU are
to follow it.  `cycles` is added to in the branch that executes an instruction,
not in the branch that idles, so it is the time since power-on in the runs in
which no step starts halted and in no others (`totalCycles_iff`).  DIV is
advanced in both; it counts the wraps of a counter of six bits, and no step is as
long as 64 cycles, so no wrap is missed (`div_accounting`).

Nothing else counts: an instruction, the interrupt scan, TIMA, a bus write and
a refresh leave both alone, a write to DIV apart (`Counts`).
-/
import RealBoy.Cpu.Timer
import RealBoy.Lib.Ledger
import RealBoy.Ppu.Frame

namespace RealBoy

open Emu

/-! ## What leaves the clock alone -/

/-- A bus write to DIV. -/
def Event.WritesDiv : Event → Prop
  | .monitorWrMem addr _ => addr = 0xff04
  | _ => False

instance : DecidablePred Event.WritesDiv
  | .monitorWrMem _ _ => inferInstanceAs (Decidable (_ = _))
  | .cpuRequestIntr _ | .timaTick | .ppuRenderLine _ | .renderDrawPixel _ _ _
  | .renderDrawFramebuffer | .monitorThrottleFps => inferInstanceAs (Decidable False)

/-- From `s` to `s'`, `n` is added to `cycles`, and DIV is as it was unless it
was written. -/
structure Counts (n : Nat) (s s' : Emu) : Prop where
  cycles : s'.cpu.cycles = s.cpu.cycles + BitVec.ofNat 64 n
  divCounter : s'.cpu.divCounter = s.cpu.divCounter
  isPrefix : s.events <+: s'.events
  divReg : (∀ e ∈ eventsSince s s', ¬ e.WritesDiv) → s'.cpu.divReg = s.cpu.divReg

namespace Counts

variable {s s' s'' : Emu} {n m : Nat}

/-- No call is made, and the rest of the CPU does not matter. -/
theorem of_same (hc : s'.cpu.cycles = s.cpu.cycles) (hd : s'.cpu.divCounter = s.cpu.divCounter)
    (hr : s'.cpu.divReg = s.cpu.divReg) (he : s'.events = s.events) : Counts 0 s s' where
  cycles := hc.trans (BitVec.add_zero _).symm
  divCounter := hd
  isPrefix := he ▸ List.prefix_rfl
  divReg _ := hr

theorem refl (s : Emu) : Counts 0 s s := .of_same rfl rfl rfl rfl

/-- A call is made that is no write to DIV. -/
theorem log (s : Emu) (e : Event) : Counts 0 s (s.log e) where
  cycles := (BitVec.add_zero _).symm
  divCounter := rfl
  isPrefix := List.prefix_append _ _
  divReg _ := rfl

theorem trans (h : Counts n s s') (h' : Counts m s' s'') : Counts (n + m) s s'' where
  cycles := by rw [h'.cycles, h.cycles, BitVec.ofNat_add, BitVec.add_assoc]
  divCounter := h'.divCounter.trans h.divCounter
  isPrefix := h.isPrefix.trans h'.isPrefix
  divReg hw := by
    rw [eventsSince_trans h.isPrefix h'.isPrefix] at hw
    exact (h'.divReg fun e he => hw e (List.mem_append_right _ he)).trans
      (h.divReg fun e he => hw e (List.mem_append_left _ he))

/-- A step that counts nothing. -/
theorem snoc (h : Counts n s s') (h' : Counts 0 s' s'') : Counts n s s'' := h.trans h'

end Counts

/-- A write to the CPU's part of the address space counts nothing, and only a
write to DIV resets it. -/
structure ClockKept (addr : U16) (c c' : CpuState) : Prop where
  cycles : c'.cycles = c.cycles
  divCounter : c'.divCounter = c.divCounter
  divReg : addr ≠ 0xff04 → c'.divReg = c.divReg

theorem cpuWr_clock (addr : U16) (value : U8) (s : Emu) :
    ClockKept addr s.cpu (cpuWr addr value s).cpu := by
  unfold cpuWr
  iterate 4
    refine iteInduction (motive := fun s' : Emu => ClockKept addr s.cpu s'.cpu)
      (fun _ => ⟨rfl, rfl, fun _ => rfl⟩) fun _ => ?_
  -- DIV itself
  refine iteInduction (motive := fun s' : Emu => ClockKept addr s.cpu s'.cpu)
    (fun h => ⟨rfl, rfl, fun hn => absurd h hn⟩) fun _ => ?_
  iterate 4
    refine iteInduction (motive := fun s' : Emu => ClockKept addr s.cpu s'.cpu)
      (fun _ => ⟨rfl, rfl, fun _ => rfl⟩) fun _ => ?_
  exact ⟨rfl, rfl, fun _ => rfl⟩

theorem WriteTo.clock {addr : U16} {value : U8} {s s' : Emu} (hw : WriteTo addr value s s')
    (hdma : addr ≠ 0xff46) : ClockKept addr s.cpu s'.cpu := by
  cases hw with
  | cpu => exact cpuWr_clock addr value s
  | unmap => exact cpuWr_clock addr value s
  | ppu hp =>
      rw [(ppuWr_cases hp value s).frame hdma]
      exact ⟨rfl, rfl, fun _ => rfl⟩
  | mbc1 => exact ⟨rfl, rfl, fun _ => rfl⟩
  | ioreg => exact ⟨rfl, rfl, fun _ => rfl⟩

/-- One bus write, the transfer of DMA apart. -/
theorem counts_write {addr : U16} (hdma : addr ≠ 0xff46) (value : U8) (s : Emu) :
    Counts 0 s (monitorWrMem addr value s) := by
  have hw := monitorWrMem_cases addr value s
  have hk := hw.clock hdma
  have he := hw.events hdma
  refine ⟨hk.cycles.trans (BitVec.add_zero _).symm, hk.divCounter, ⟨_, he.symm⟩, fun hno => ?_⟩
  rw [eventsSince_append s _ [.monitorWrMem addr value] he] at hno
  exact hk.divReg (hno _ (List.mem_singleton_self _))

theorem counts_monitorWrMem (addr : U16) (value : U8) (s : Emu) :
    Counts 0 s (monitorWrMem addr value s) := by
  refine monitorWrMem_induct (P := Counts 0 s) ?_ ?_ addr value s (.refl s)
  · exact fun s' value hs => hs.snoc (.log s' _)
  · exact fun s' addr value hdma hs => hs.snoc (counts_write hdma value s')

/-- **Instructions and the interrupt scan** count nothing. -/
theorem counts_closed (s₀ : Emu) : ScanClosed (Counts 0 s₀) where
  regs _ _ hs := hs.snoc (.of_same rfl rfl rfl rfl)
  ime _ _ hs := hs.snoc (.of_same rfl rfl rfl rfl)
  halt _ hs := hs.snoc (.of_same rfl rfl rfl rfl)
  write s addr value hs := hs.snoc (counts_monitorWrMem addr value s)
  wake _ hs := hs.snoc (.of_same rfl rfl rfl rfl)
  acknowledge _ _ hs := hs.snoc (.of_same rfl rfl rfl rfl)

theorem counts_request (im : U8) (s : Emu) : Counts 0 s (cpuRequestIntr im s) :=
  (Counts.log s (.cpuRequestIntr im)).snoc (.of_same rfl rfl rfl rfl)

/-- **A refresh** counts nothing. -/
theorem counts_refreshClosed (s₀ : Emu) : RefreshClosed (Counts 0 s₀) where
  ppu _ _ hs := hs.snoc (.of_same rfl rfl rfl rfl)
  request s im _ hs := hs.snoc (counts_request im s)
  call s e _ hs := hs.snoc (.log s e)

/-- **TIMA** counts for itself. -/
theorem counts_advanceTima (cycles : Nat) (s : Emu) : Counts 0 s (advanceTima cycles s) := by
  have htick : Counts 0 s (tickTima s) := by
    have hlog :
      Counts 0 s ((s.updCpu fun c => { c with timaReg := c.timaReg + 1 }).log .timaTick) :=
      (Counts.log s .timaTick).snoc (.of_same rfl rfl rfl rfl)
    unfold tickTima
    dsimp only
    split
    · refine Counts.snoc ?_ (counts_request 0x4 _)
      exact hlog.snoc (.of_same rfl rfl rfl rfl)
    · exact hlog
  unfold advanceTima
  split
  · split
    · exact htick.snoc (.of_same rfl rfl rfl rfl)
    · exact .of_same rfl rfl rfl rfl
  · exact .refl s

/-! ## One step -/

/-- The cycles a step adds to `cycles`. -/
def executed (s : Emu) : Nat := if s.cpu.isHalted then 0 else (cpuExecNext s).2

theorem counts_cycles (n : Nat) (s : Emu) :
    Counts n s (s.updCpu fun c => { c with cycles := c.cycles + BitVec.ofNat 64 n }) :=
  ⟨rfl, rfl, List.prefix_rfl, fun _ => rfl⟩

/-- `state.cycles += cycles` is in the branch that executes. -/
theorem counts_execInstr (s : Emu) : Counts (executed s) s (execInstr s).1 := by
  have hexec : executed s = if s.cpu.isHalted then 0 else (execInstr s).2 := rfl
  rw [hexec]
  unfold execInstr
  cases s.cpu.isHalted with
  | true => exact .refl s
  | false =>
      have hop : Counts 0 s (opsTableDispatch (fetch s).1 (fetch s).2.1 (fetch s).2.2).1 := by
        rw [dispatch_eq]
        exact (counts_closed s).handler ((counts_closed s).fetch (.refl s)) _
      have hadd := hop.trans
        (counts_cycles (opsTableDispatch (fetch s).1 (fetch s).2.1 (fetch s).2.2).2 _)
      rw [Nat.zero_add] at hadd
      exact hadd

/-- **A step of `cpu_exec_next` and the clock.**  DIV is advanced where its
counter wraps. -/
structure ClockStep (s s' : Emu) (time : Nat) : Prop where
  cycles : s'.cpu.cycles = s.cpu.cycles + BitVec.ofNat 64 (executed s)
  div : (∀ e ∈ eventsSince s s', ¬ e.WritesDiv) →
    s'.cpu.divReg = (if s.cpu.divCounter + BitVec.ofNat 6 time < s.cpu.divCounter then
      s.cpu.divReg + 1 else s.cpu.divReg) ∧
    s'.cpu.divCounter = s.cpu.divCounter + BitVec.ofNat 6 time

theorem cpuExecNext_clock (s : Emu) :
    ClockStep s (cpuExecNext s).1 (cpuExecNext s).2 := by
  have h₁ := counts_execInstr s
  have h₂ : Counts 0 (beforeTima s) (cpuExecNext s).1 :=
    (counts_closed _).handleIntrs (counts_advanceTima _ _)
  have hbefore : beforeTima s = advanceDiv (cpuExecNext s).2 (execInstr s).1 := rfl
  rw [hbefore] at h₂
  generalize (cpuExecNext s).2 = time at h₂ ⊢
  generalize (cpuExecNext s).1 = s' at h₂ ⊢
  generalize (execInstr s).1 = s₁ at h₁ h₂
  refine ⟨?_, fun hno => ?_⟩
  · exact (h₂.cycles.trans (BitVec.add_zero _)).trans h₁.cycles
  · have hpast := eventsSince_trans h₁.isPrefix h₂.isPrefix
    have hreg : s₁.cpu.divReg = s.cpu.divReg := by
      refine h₁.divReg fun e he => hno e ?_
      rw [hpast]
      exact List.mem_append_left _ he
    have hlast := h₂.divReg fun e he => hno e (by
      rw [hpast]
      exact List.mem_append_right _ he)
    rw [hlast, h₂.divCounter, advanceDiv, ← hreg, ← h₁.divCounter]
    exact ⟨rfl, rfl⟩

/-! ## The time of a run -/

/-- The time an action takes: what `cpu_exec_next` returns. -/
def timeOf (s : Emu) : Action → Nat
  | .exec => (cpuExecNext s).2
  | _ => 0

/-- The time a run takes. -/
def elapsed (s : Emu) (acts : List Action) : Nat := Runs.total Emu.act timeOf s acts

/-- The step executes an instruction. -/
def Awake (s : Emu) (a : Action) : Prop := a = .exec → s.cpu.isHalted = false

instance (s : Emu) (a : Action) : Decidable (Awake s a) := inferInstanceAs (Decidable (_ → _))

theorem act_cycles_eq_iff (s : Emu) (a : Action) :
    (s.act a).cpu.cycles = s.cpu.cycles + BitVec.ofNat 64 (timeOf s a) ↔ Awake s a := by
  cases a with
  | exec =>
      have hstep : (s.act .exec).cpu.cycles = s.cpu.cycles + BitVec.ofNat 64 (executed s) :=
        (cpuExecNext_clock s).cycles
      have htime : timeOf s .exec = (cpuExecNext s).2 := rfl
      rw [hstep, BitVec.add_right_inj, htime, executed, cpuExecNext_cycles]
      cases hh : s.cpu.isHalted with
      | true => simp [Awake, hh]
      | false => simp [Awake, hh]
  | refresh ticks =>
      have h := ((counts_refreshClosed s).ppuRefresh (.refl s) ticks).cycles
      exact ⟨fun _ => nofun, fun _ => h⟩
  | write addr value => exact ⟨fun _ => nofun, fun _ => (counts_monitorWrMem addr value s).cycles⟩

theorem ofNat_elapsed (s : Emu) (acts : List Action) :
    BitVec.ofNat 64 (elapsed s acts) =
      Runs.total Emu.act (fun s a => BitVec.ofNat 64 (timeOf s a)) s acts := by
  have h : Nat.castAddMonoidHom U64 (Runs.total Emu.act timeOf s acts) =
      Runs.total Emu.act (fun s a => Nat.castAddMonoidHom U64 (timeOf s a)) s acts :=
    Runs.map_total _ timeOf acts s
  simpa [elapsed] using h

/-- **The total of cycles.**  From power-on, whatever is done, `cycles` is the
time that has passed in every state of a run exactly when no step of it starts
halted. -/
theorem totalCycles_iff (rom boot : Array U8) (acts : List Action) :
    (∀ past, past <+: acts → ((powerOn rom boot).run past).cpu.cycles =
        BitVec.ofNat 64 (elapsed (powerOn rom boot) past)) ↔
      Runs.Steps Emu.act Awake (powerOn rom boot) acts := by
  have hstep : Awake =
      fun s a => (s.act a).cpu.cycles = s.cpu.cycles + BitVec.ofNat 64 (timeOf s a) := by
    funext s a
    exact propext (act_cycles_eq_iff s a).symm
  rw [hstep, ← Runs.forall_prefix_iff fun s : Emu => s.cpu.cycles]
  refine forall_congr' fun past => imp_congr_right fun _ => ?_
  have hzero : (powerOn rom boot).cpu.cycles = 0 := rfl
  rw [ofNat_elapsed, hzero, zero_add]
  rfl

/-- HALT at address 0, and the idle step after it: one cycle is counted, four
have passed. -/
theorem not_totalCycles_halt :
    ¬ ∀ (rom boot : Array U8) (n : Nat),
      ((powerOn rom boot).run (List.replicate n .exec)).cpu.cycles =
        BitVec.ofNat 64 (elapsed (powerOn rom boot) (List.replicate n .exec)) := by
  intro h
  exact absurd (h #[] #[0x76] 2) (by decide +kernel)

/-! ## DIV -/

/-- DIV and the counter under it, as one counter. -/
def divTime (c : CpuState) : Nat := 64 * c.divReg.toNat + c.divCounter.toNat

/-- No instruction is as long as a period of `div_counter`. -/
theorem cpuExecNext_cycles_lt (s : Emu) : (cpuExecNext s).2 < 64 := by
  have hret := handler_cycles_cases (nextInstr s) (fetch s).2.2
  have hle := (nextInstr s).cycles_le (fetch s).2.2.regs.f
  rw [cpuExecNext_cycles]
  split <;> omega

/-- The step and the two counters. -/
theorem ClockStep.divTime {s s' : Emu} {time : Nat} (h : ClockStep s s' time) (htime : time < 64)
    (hno : ∀ e ∈ eventsSince s s', ¬ e.WritesDiv) :
    divTime s'.cpu ≡ divTime s.cpu + time [MOD 16384] := by
  obtain ⟨hreg, hcounter⟩ := h.div hno
  have hlow : s'.cpu.divCounter.toNat = (s.cpu.divCounter.toNat + time) % 64 := by
    rw [hcounter, BitVec.toNat_add, BitVec.toNat_ofNat, Nat.mod_eq_of_lt htime]
  have hhigh : s'.cpu.divReg.toNat = (s.cpu.divReg.toNat +
      if (s.cpu.divCounter.toNat + time) % 64 < s.cpu.divCounter.toNat then 1 else 0) % 256 := by
    rw [hreg, ← hlow, ← hcounter]
    by_cases hwrap : s'.cpu.divCounter < s.cpu.divCounter
    · rw [if_pos hwrap, if_pos (BitVec.lt_def.mp hwrap)]
      exact BitVec.toNat_add _ _
    · rw [if_neg hwrap, if_neg fun h => hwrap (BitVec.lt_def.mpr h)]
      exact (Nat.mod_eq_of_lt s.cpu.divReg.isLt).symm
  rw [RealBoy.divTime, RealBoy.divTime, hlow, hhigh]
  exact Prescaler.pair_modEq s.cpu.divCounter.isLt htime

/-- The action makes no write to DIV. -/
def DivUnwritten (s : Emu) (a : Action) : Prop := ∀ e ∈ eventsSince s (s.act a), ¬ e.WritesDiv

theorem act_divTime {s : Emu} {a : Action} (hno : DivUnwritten s a) :
    divTime (s.act a).cpu ≡ divTime s.cpu + timeOf s a [MOD 16384] := by
  have kept (h : Counts 0 s (s.act a)) : divTime (s.act a).cpu = divTime s.cpu := by
    rw [divTime, h.divCounter, h.divReg hno]
    rfl
  cases a with
  | exec => exact (cpuExecNext_clock s).divTime (cpuExecNext_cycles_lt s) hno
  | refresh ticks =>
      exact congrArg (· % 16384) (kept ((counts_refreshClosed s).ppuRefresh (.refl s) ticks))
  | write addr value => exact congrArg (· % 16384) (kept (counts_monitorWrMem addr value s))

theorem act_isPrefix (s : Emu) (a : Action) : s.events <+: (s.act a).events := by
  cases a with
  | exec => exact cpuExecNext_isPrefix s
  | refresh ticks => exact ((counts_refreshClosed s).ppuRefresh (.refl s) ticks).isPrefix
  | write addr value => exact (counts_monitorWrMem addr value s).isPrefix

theorem run_isPrefix (s : Emu) (acts : List Action) : s.events <+: (s.run acts).events := by
  induction acts generalizing s with
  | nil => exact List.prefix_rfl
  | cons a acts ih => exact (act_isPrefix s a).trans (ih (s.act a))

/-- What is true of the calls of a run is true of those of each action. -/
theorem steps_of_eventsSince {W : Event → Prop} (acts : List Action) :
    ∀ s : Emu, (∀ e ∈ eventsSince s (s.run acts), W e) →
      Runs.Steps Emu.act (fun s a => ∀ e ∈ eventsSince s (s.act a), W e) s acts := by
  induction acts with
  | nil => exact fun _ _ => trivial
  | cons a acts ih =>
      intro s hall
      have hsplit : eventsSince s (s.run (a :: acts)) = eventsSince s (s.act a) ++
          eventsSince (s.act a) ((s.act a).run acts) :=
        eventsSince_trans (act_isPrefix s a) (run_isPrefix (s.act a) acts)
      rw [hsplit] at hall
      exact ⟨fun e he => hall e (List.mem_append_left _ he),
        ih _ fun e he => hall e (List.mem_append_right _ he)⟩

/-- **The accounting of DIV.**  Over any run, of any program and from any state,
in which nothing writes DIV, it counts the time that passes. -/
theorem div_accounting (s : Emu) (acts : List Action)
    (hno : ∀ e ∈ eventsSince s (s.run acts), ¬ e.WritesDiv) :
    divTime (s.run acts).cpu ≡ divTime s.cpu + elapsed s acts [MOD 16384] :=
  Runs.total_modEq (q := fun s : Emu => divTime s.cpu) (fun _ _ h => act_divTime h)
    (steps_of_eventsSince acts s hno)

/-- HALT, and idle steps for more than a period. -/
theorem div_accounting_halt :
    divTime ((powerOn #[] #[0x76]).run (List.replicate 28 .exec)).cpu ≡
      divTime (powerOn #[] #[0x76]).cpu +
        elapsed (powerOn #[] #[0x76]) (List.replicate 28 .exec) [MOD 16384] :=
  div_accounting (powerOn #[] #[0x76]) (List.replicate 28 .exec) (by decide +kernel)

end RealBoy
