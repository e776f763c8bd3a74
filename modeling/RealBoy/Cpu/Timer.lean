/-
# `RealBoy.Cpu.Timer` — the rate of TIMA

`cpu_exec_next` adds the cycles of a step to `tac_counter`, ticks `tima_reg`
once if the sum reaches `tac_divider`, and keeps the remainder.  Over a run
that is a division of all the cycles by the divider, as long as no step is
longer than what is left of one period and the whole of the next.  Only the
divider 4 is that short: a CALL that is taken is 6 cycles, a conditional RET
that is taken and LD (a16),SP are 5, and they complete two periods when they
start with 3 (or, for the CALL, 2) cycles already counted.  `LosesTick` is that
condition, and `timaExact_iff` says that nothing else loses a tick.
-/
import RealBoy.Cpu.Cycles
import RealBoy.Cpu.Frame
import RealBoy.Lib.Prescaler

namespace RealBoy

open Emu
open Sm83 (Instr)

/-! ## What leaves the timer alone -/

theorem SameTimer.refl (c : CpuState) : SameTimer c c := ⟨rfl, rfl, rfl, rfl, rfl, rfl⟩

theorem SameTimer.trans {a b c : CpuState} (h : SameTimer a b) (h' : SameTimer b c) :
    SameTimer a c where
  timaEnabled := h'.timaEnabled.trans h.timaEnabled
  timaReg := h'.timaReg.trans h.timaReg
  tmaReg := h'.tmaReg.trans h.tmaReg
  tacReg := h'.tacReg.trans h.tacReg
  tacCounter := h'.tacCounter.trans h.tacCounter
  tacDivider := h'.tacDivider.trans h.tacDivider

/-- A bus write to TIMA, TMA or TAC. -/
def Event.WritesTimer : Event → Prop
  | .monitorWrMem addr _ => addr = 0xff05 ∨ addr = 0xff06 ∨ addr = 0xff07
  | _ => False

instance : DecidablePred Event.WritesTimer
  | .monitorWrMem _ _ => inferInstanceAs (Decidable (_ ∨ _ ∨ _))
  | .cpuRequestIntr _ | .timaTick | .ppuRenderLine _ | .renderDrawPixel _ _ _
  | .renderDrawFramebuffer | .monitorThrottleFps => inferInstanceAs (Decidable False)

/-- Between `s₀` and `s` there are bus writes only, and the timer is as it was
if none of them is to its registers. -/
def Quiet (s₀ s : Emu) : Prop :=
  ∃ es, s.events = s₀.events ++ es ∧ (∀ e ∈ es, e.IsWrite) ∧
    ((∀ e ∈ es, ¬ e.WritesTimer) → SameTimer s₀.cpu s.cpu)

theorem quiet_refl (s : Emu) : Quiet s s :=
  ⟨[], (List.append_nil _).symm, fun _ h => absurd h List.not_mem_nil, fun _ => .refl _⟩

/-- One more write. -/
theorem Quiet.snoc {s₀ s s' : Emu} (h : Quiet s₀ s) {addr : U16} {value : U8}
    (he : s'.events = s.events ++ [.monitorWrMem addr value])
    (ht : ¬ (Event.monitorWrMem addr value).WritesTimer → SameTimer s.cpu s'.cpu) :
    Quiet s₀ s' := by
  obtain ⟨es, hes, hw, hsame⟩ := h
  refine ⟨es ++ [.monitorWrMem addr value], by rw [he, hes, List.append_assoc], ?_, ?_⟩
  · intro e hmem
    rcases List.mem_append.mp hmem with hmem | hmem
    · exact hw e hmem
    · rw [List.mem_singleton.mp hmem]
      trivial
  · intro hall
    have hlast := hall (.monitorWrMem addr value) (List.mem_append_right _ (List.mem_singleton_self _))
    exact (hsame fun e hmem => hall e (List.mem_append_left _ hmem)).trans (ht hlast)

theorem cpuWr_sameTimer {addr : U16} (value : U8) (s : Emu)
    (h : ¬ (Event.monitorWrMem addr value).WritesTimer) : SameTimer s.cpu (cpuWr addr value s).cpu := by
  have hc := cpuWr_cases addr value s
  generalize cpuWr addr value s = s' at hc ⊢
  cases hc with
  | mem => exact .refl _
  | reg f hf => exact hf s.cpu
  | timer f h₁ h₂ =>
      refine absurd ?_ h
      show addr = 0xff05 ∨ addr = 0xff06 ∨ addr = 0xff07
      bv_omega

theorem WriteTo.sameTimer {addr : U16} {value : U8} {s s' : Emu} (hw : WriteTo addr value s s')
    (hdma : addr ≠ 0xff46) (h : ¬ (Event.monitorWrMem addr value).WritesTimer) :
    SameTimer s.cpu s'.cpu := by
  cases hw with
  | cpu => exact cpuWr_sameTimer value s h
  | unmap => exact cpuWr_sameTimer value s h
  | ppu hp =>
      rw [(ppuWr_cases hp value s).frame hdma]
      exact .refl _
  | mbc1 => exact .refl _
  | ioreg => exact .refl _

/-- A bus write, DMA included. -/
theorem Quiet.monitorWrMem {s₀ s : Emu} (h : Quiet s₀ s) (addr : U16) (value : U8) :
    Quiet s₀ (monitorWrMem addr value s) := by
  refine monitorWrMem_induct (P := Quiet s₀) ?_ ?_ addr value s h
  · intro s value hs
    exact hs.snoc rfl fun _ => .refl _
  · intro s addr value hdma hs
    have hw := monitorWrMem_cases addr value s
    exact hs.snoc (hw.events hdma) fun hn => hw.sameTimer hdma hn

theorem quiet_closed (s₀ : Emu) : CpuClosed (Quiet s₀) where
  regs _ _ h := h
  cpu s c hc := by
    rintro ⟨es, hes, hw, hsame⟩
    exact ⟨es, hes, hw, fun hall => (hsame hall).trans hc⟩
  write _ addr value h := h.monitorWrMem addr value

/-! ## One step -/

/-- The state when `cpu_exec_next` comes to the timer. -/
def beforeTima (s : Emu) : Emu := advanceDiv (execInstr s).2 (execInstr s).1

theorem quiet_beforeTima (s : Emu) : Quiet s (beforeTima s) :=
  (quiet_closed s).advanceDiv ((quiet_closed s).execInstr (quiet_refl s)) _

theorem cpuExecNext_eq (s : Emu) :
    cpuExecNext s = (handleIntrs (advanceTima (execInstr s).2 (beforeTima s)), (execInstr s).2) := rfl

/-- The calls of the timer itself. -/
def timaEvents (c : CpuState) (cycles : Nat) : List Event :=
  if tacQuotient cycles c = 0 then []
  else if c.timaReg = 0xff then [.timaTick, .cpuRequestIntr 0x4]
  else [.timaTick]

/-- `tima_reg` after the timer has counted `cycles`. -/
def timaNext (c : CpuState) (cycles : Nat) : U8 :=
  if tacQuotient cycles c = 0 then c.timaReg
  else if c.timaReg = 0xff then c.tmaReg
  else c.timaReg + 1

/-- What the timer does to the CPU's registers. -/
structure TimaStep (c c' : CpuState) (cycles : Nat) : Prop where
  timaEnabled : c'.timaEnabled = c.timaEnabled
  timaReg : c'.timaReg = timaNext c cycles
  tmaReg : c'.tmaReg = c.tmaReg
  tacReg : c'.tacReg = c.tacReg
  tacCounter : c'.tacCounter.toNat = (c.tacCounter.toNat + cycles) % c.tacDivider.toNat
  tacDivider : c'.tacDivider = c.tacDivider

/-- The dividers of `cpu_wr`. -/
theorem tacDividerOf_cases (value : U8) : tacDividerOf value = 256 ∨ tacDividerOf value = 4 ∨
    tacDividerOf value = 16 ∨ tacDividerOf value = 64 := by
  unfold tacDividerOf
  split
  · exact .inl rfl
  split
  · exact .inr (.inl rfl)
  split
  · exact .inr (.inr (.inl rfl))
  · exact .inr (.inr (.inr rfl))

/-- The timer is set as TAC selects, and has counted less than a period. -/
structure TacSelected (c : CpuState) : Prop where
  divider : c.tacDivider = tacDividerOf c.tacReg
  counter : c.tacCounter.toNat < c.tacDivider.toNat

theorem TacSelected.divider_le {c : CpuState} (h : TacSelected c) :
    0 < c.tacDivider.toNat ∧ c.tacDivider.toNat ≤ 256 := by
  rw [h.divider]
  rcases tacDividerOf_cases c.tacReg with hd | hd | hd | hd <;> rw [hd] <;> decide

theorem add_one_eq_zero (v : U8) : v + 1 = 0 ↔ v = 0xff := by
  constructor <;> intro h <;> bv_omega

/-- **The TIMA part of `cpu_exec_next`**, whatever has been counted. -/
theorem advanceTima_step {s : Emu} (hon : s.cpu.timaEnabled = true)
    (h : 0 < s.cpu.tacDivider.toNat ∧ s.cpu.tacDivider.toNat ≤ 256) (cycles : Nat) :
    TimaStep s.cpu (advanceTima cycles s).cpu cycles ∧
      (advanceTima cycles s).events = s.events ++ timaEvents s.cpu cycles := by
  obtain ⟨hpos, hle⟩ := h
  have hmod := Nat.mod_lt (s.cpu.tacCounter.toNat + cycles) hpos
  have hcount : (BitVec.ofNat 8 ((s.cpu.tacCounter.toNat + cycles) % s.cpu.tacDivider.toNat)).toNat =
      (s.cpu.tacCounter.toNat + cycles) % s.cpu.tacDivider.toNat := by
    rw [BitVec.toNat_ofNat]
    exact Nat.mod_eq_of_lt (by omega)
  unfold advanceTima
  rw [if_pos hon]
  by_cases hq : tacQuotient cycles s.cpu = 0
  · have hlt : s.cpu.tacCounter.toNat + cycles < s.cpu.tacDivider.toNat := by
      by_contra hge
      exact absurd hq (Nat.div_pos (Nat.not_lt.mp hge) hpos).ne'
    rw [if_neg (not_not.mpr hq)]
    refine ⟨⟨rfl, ?_, rfl, rfl, ?_, rfl⟩, ?_⟩
    · rw [timaNext, if_pos hq]
      rfl
    · rw [Nat.mod_eq_of_lt hlt]
      show (s.cpu.tacCounter + BitVec.ofNat 8 cycles).toNat = _
      rw [BitVec.toNat_add, BitVec.toNat_ofNat]
      omega
    · rw [timaEvents, if_pos hq, List.append_nil]
      rfl
  · rw [if_pos hq, timaEvents, if_neg hq, tickTima]
    by_cases hwrap : s.cpu.timaReg = 0xff
    · have hzero : ((s.updCpu fun c => { c with timaReg := c.timaReg + 1 }).log .timaTick).cpu.timaReg
          = 0 := (add_one_eq_zero _).mpr hwrap
      rw [if_pos hzero, if_pos hwrap]
      refine ⟨⟨rfl, ?_, rfl, rfl, hcount, rfl⟩, ?_⟩
      · rw [timaNext, if_neg hq, if_pos hwrap]
        rfl
      · exact List.append_assoc _ _ _
    · have hzero : ((s.updCpu fun c => { c with timaReg := c.timaReg + 1 }).log .timaTick).cpu.timaReg
          ≠ 0 := fun hz => hwrap ((add_one_eq_zero _).mp hz)
      rw [if_neg hzero, if_neg hwrap]
      refine ⟨⟨rfl, ?_, rfl, rfl, hcount, rfl⟩, rfl⟩
      rw [timaNext, if_neg hq, if_neg hwrap]
      rfl

/-! ## A step of the CPU -/

theorem Quiet.isPrefix {s s' : Emu} (h : Quiet s s') : s.events <+: s'.events := by
  obtain ⟨es, hes, -⟩ := h
  exact ⟨es, hes.symm⟩

theorem tickTima_isPrefix (s : Emu) : s.events <+: (tickTima s).events := by
  unfold tickTima
  dsimp only
  split
  · exact (List.prefix_append s.events [.timaTick]).trans (List.prefix_append _ _)
  · exact List.prefix_append s.events [.timaTick]

theorem advanceTima_isPrefix (cycles : Nat) (s : Emu) :
    s.events <+: (advanceTima cycles s).events := by
  unfold advanceTima
  split
  · split
    · exact tickTima_isPrefix s
    · exact List.prefix_rfl
  · exact List.prefix_rfl

theorem mem_eventsSince {s s' : Emu} {es es' : List Event} (h : s'.events = s.events ++ (es ++ es'))
    {e : Event} (he : e ∈ es) : e ∈ eventsSince s s' := by
  rw [eventsSince_append s s' _ h]
  exact List.mem_append_left _ he

theorem Quiet.sameTimer {s s' s'' : Emu} (h : Quiet s s') (hle : s'.events <+: s''.events)
    (hw : ∀ e ∈ eventsSince s s'', ¬ e.WritesTimer) : SameTimer s.cpu s'.cpu := by
  obtain ⟨es, hes, -, hsame⟩ := h
  obtain ⟨es', hes'⟩ := hle
  have hall : s''.events = s.events ++ (es ++ es') := by
    rw [← hes', hes, List.append_assoc]
  exact hsame fun e he => hw e (mem_eventsSince hall he)

/-- What one step of `cpu_exec_next` does to the timer, and the calls it makes:
bus writes, the timer's own calls between them. -/
structure CpuTimerStep (s s' : Emu) (cycles : Nat) : Prop extends TimaStep s.cpu s'.cpu cycles where
  events : ∃ es es', s'.events = s.events ++ (es ++ timaEvents s.cpu cycles ++ es') ∧
    (∀ e ∈ es, e.IsWrite) ∧ ∀ e ∈ es', e.IsWrite

theorem TacSelected.congr {c c' : CpuState} (h : TacSelected c) (hs : SameTimer c c') :
    TacSelected c' where
  divider := by rw [hs.tacDivider, hs.tacReg, h.divider]
  counter := by rw [hs.tacDivider, hs.tacCounter]; exact h.counter

theorem tacQuotient_congr {c c₁ : CpuState} (h : SameTimer c c₁) (cycles : Nat) :
    tacQuotient cycles c₁ = tacQuotient cycles c := by
  rw [tacQuotient, tacQuotient, h.tacCounter, h.tacDivider]

theorem TimaStep.congr {c c₁ c₂ c' : CpuState} {cycles : Nat} (h₁ : SameTimer c c₁)
    (h : TimaStep c₁ c₂ cycles) (h₂ : SameTimer c₂ c') : TimaStep c c' cycles where
  timaEnabled := by rw [h₂.timaEnabled, h.timaEnabled, h₁.timaEnabled]
  timaReg := by
    rw [h₂.timaReg, h.timaReg, timaNext, tacQuotient_congr h₁, h₁.timaReg, h₁.tmaReg]
    rfl
  tmaReg := by rw [h₂.tmaReg, h.tmaReg, h₁.tmaReg]
  tacReg := by rw [h₂.tacReg, h.tacReg, h₁.tacReg]
  tacCounter := by rw [h₂.tacCounter, h.tacCounter, h₁.tacCounter, h₁.tacDivider]
  tacDivider := by rw [h₂.tacDivider, h.tacDivider, h₁.tacDivider]

theorem timaEvents_congr {c c₁ : CpuState} (h : SameTimer c c₁) (cycles : Nat) :
    timaEvents c₁ cycles = timaEvents c cycles := by
  rw [timaEvents, tacQuotient_congr h, h.timaReg]
  rfl

/-- **A step of `cpu_exec_next`**, the timer on and its registers not written. -/
theorem cpuExecNext_timer {s : Emu} (hon : s.cpu.timaEnabled = true) (h : TacSelected s.cpu)
    (hw : ∀ e ∈ eventsSince s (cpuExecNext s).1, ¬ e.WritesTimer) :
    CpuTimerStep s (cpuExecNext s).1 (cpuExecNext s).2 := by
  rw [cpuExecNext_eq] at hw ⊢
  dsimp only at hw ⊢
  generalize hcycles : (execInstr s).2 = cycles at hw ⊢
  -- the instruction, the timer, the interrupts
  have h₁ := quiet_beforeTima s
  generalize beforeTima s = s₁ at h₁ hw ⊢
  have h₃ : Quiet (advanceTima cycles s₁) (handleIntrs (advanceTima cycles s₁)) :=
    (quiet_closed _).handleIntrs (quiet_refl _)
  generalize handleIntrs (advanceTima cycles s₁) = s₃ at h₃ hw ⊢
  have hle : s₁.events <+: s₃.events := (advanceTima_isPrefix cycles s₁).trans h₃.isPrefix
  have same₁ := h₁.sameTimer hle hw
  obtain ⟨hstep, hevents⟩ := advanceTima_step (same₁.timaEnabled.trans hon)
    (h.congr same₁).divider_le cycles
  generalize advanceTima cycles s₁ = s₂ at h₃ hstep hevents
  rw [timaEvents_congr same₁] at hevents
  obtain ⟨es, hes, hwrites, -⟩ := h₁
  obtain ⟨es', hes', hwrites', hsame₃⟩ := h₃
  have hall : s₃.events = s.events ++ (es ++ timaEvents s.cpu cycles ++ es') := by
    rw [hes', hevents, hes]
    simp only [List.append_assoc]
  have same₃ : SameTimer s₂.cpu s₃.cpu := by
    refine hsame₃ fun e he => hw e ?_
    rw [eventsSince_append s s₃ _ hall]
    exact List.mem_append_right _ he
  exact ⟨hstep.congr same₁ same₃, es, es', hall, hwrites, hwrites'⟩

/-! ## Ticks and reloads -/

/-- A tick that takes TIMA from 0xff reloads it from TMA and requests the timer
interrupt; no other tick does, and no step ticks twice. -/
structure TickExact (s s' : Emu) : Prop where
  once : (eventsSince s s').count .timaTick ≤ 1
  reload : .timaTick ∈ eventsSince s s' → s.cpu.timaReg = 0xff →
    s'.cpu.timaReg = s.cpu.tmaReg ∧ .cpuRequestIntr 0x4 ∈ eventsSince s s'
  tick : .timaTick ∈ eventsSince s s' → s.cpu.timaReg ≠ 0xff →
    s'.cpu.timaReg = s.cpu.timaReg + 1 ∧ .cpuRequestIntr 0x4 ∉ eventsSince s s'
  idle : .timaTick ∉ eventsSince s s' →
    s'.cpu.timaReg = s.cpu.timaReg ∧ .cpuRequestIntr 0x4 ∉ eventsSince s s'

theorem not_mem_of_isWrite {es : List Event} (h : ∀ e ∈ es, e.IsWrite) {e : Event}
    (he : ¬ e.IsWrite) : e ∉ es := fun hm => he (h e hm)

variable {s s' : Emu} {cycles : Nat}

theorem CpuTimerStep.mem_iff (h : CpuTimerStep s s' cycles) {e : Event} (he : ¬ e.IsWrite) :
    e ∈ eventsSince s s' ↔ e ∈ timaEvents s.cpu cycles := by
  obtain ⟨es, es', hall, hw, hw'⟩ := h.events
  rw [eventsSince_append s s' _ hall, List.mem_append, List.mem_append]
  constructor
  · rintro ((hm | hm) | hm)
    · exact absurd hm (not_mem_of_isWrite hw he)
    · exact hm
    · exact absurd hm (not_mem_of_isWrite hw' he)
  · exact fun hm => .inl (.inr hm)

theorem CpuTimerStep.count (h : CpuTimerStep s s' cycles) :
    (eventsSince s s').count .timaTick = if tacQuotient cycles s.cpu ≠ 0 then 1 else 0 := by
  obtain ⟨es, es', hall, hw, hw'⟩ := h.events
  have hz : es.count .timaTick = 0 := List.count_eq_zero.mpr (not_mem_of_isWrite hw id)
  have hz' : es'.count .timaTick = 0 := List.count_eq_zero.mpr (not_mem_of_isWrite hw' id)
  rw [eventsSince_append s s' _ hall, List.count_append, List.count_append, hz, hz', timaEvents]
  by_cases hq : tacQuotient cycles s.cpu = 0
  · rw [if_pos hq, if_neg (not_not.mpr hq)]
    rfl
  · rw [if_neg hq, if_pos hq]
    split <;> rfl

theorem CpuTimerStep.tickExact (h : CpuTimerStep s s' cycles) : TickExact s s' := by
  have htick := h.mem_iff (e := .timaTick) id
  have hreq := h.mem_iff (e := .cpuRequestIntr 0x4) id
  have hreg := h.timaReg
  have hcount := h.count
  by_cases hq : tacQuotient cycles s.cpu = 0
  · rw [timaEvents, if_pos hq] at htick hreq
    rw [timaNext, if_pos hq] at hreg
    have hno : Event.timaTick ∉ eventsSince s s' := fun hm => nomatch htick.mp hm
    refine ⟨?_, fun hm => absurd hm hno, fun hm => absurd hm hno, fun _ => ⟨hreg, ?_⟩⟩
    · rw [hcount, if_neg (not_not.mpr hq)]
      exact Nat.zero_le _
    · exact fun hm => nomatch hreq.mp hm
  · rw [timaEvents, if_neg hq] at htick hreq
    rw [timaNext, if_neg hq] at hreg
    have honce : (eventsSince s s').count .timaTick ≤ 1 := by
      rw [hcount, if_pos hq]
    by_cases hff : s.cpu.timaReg = 0xff
    · rw [if_pos hff] at htick hreq hreg
      have hyes : Event.timaTick ∈ eventsSince s s' := htick.mpr (by decide)
      exact ⟨honce, fun _ _ => ⟨hreg, hreq.mpr (by decide)⟩, fun _ hn => absurd hff hn,
        fun hn => absurd hyes hn⟩
    · rw [if_neg hff] at htick hreq hreg
      have hyes : Event.timaTick ∈ eventsSince s s' := htick.mpr (by decide)
      exact ⟨honce, fun _ he => absurd he hff, fun _ _ => ⟨hreg, fun hm => absurd (hreq.mp hm) (by decide)⟩,
        fun hn => absurd hyes hn⟩

/-! ## The cycles of a step -/

/-- A handler that returns too little is not of the long ones. -/
theorem shortfall_cycles {i : Instr} (h : shortfall i ≠ 0) (f : U8) : i.cycles f ≤ 4 := by
  cases i with
  | ld dst src =>
      have hd := dst.data_le
      have hs := src.data_le
      show 1 + (dst.data + src.data) + 0 ≤ 4
      omega
  | alu k o =>
      have ho := o.data_le
      show 1 + o.data + 0 ≤ 4
      omega
  | aluImm k => exact (by decide : 2 ≤ 4)
  | ldhA8A => exact (by decide : 3 ≤ 4)
  | ldSpHl => exact (by decide : 2 ≤ 4)
  | push rr => exact (by decide : 4 ≤ 4)
  | _ => exact absurd rfl h

/-- What a handler returns is the instruction's cycles where they are more than
four. -/
theorem handler_cycles_cases (i : Instr) (s : Emu) :
    (handler i s).2 = i.cycles s.regs.f ∨ ((handler i s).2 ≤ 4 ∧ i.cycles s.regs.f ≤ 4) := by
  by_cases ht : i.timed
  · have h := handler_cycles i s ht
    by_cases hs : shortfall i = 0
    · exact .inl (by omega)
    · have hle := shortfall_cycles hs s.regs.f
      exact .inr (by omega)
  · cases i with
    | ld dst src =>
        have hh : dst = .indHl ∧ src = .indHl := by
          cases dst <;> cases src <;> first | exact ⟨rfl, rfl⟩ | exact absurd rfl ht
        obtain ⟨rfl, rfl⟩ := hh
        exact .inr ⟨(by decide : 1 ≤ 4), (by decide : 3 ≤ 4)⟩
    | stop => exact .inl rfl
    | halt => exact .inl rfl
    | prefixByte => exact .inl rfl
    | undefined => exact .inl rfl
    | _ => exact absurd rfl ht

/-- The instruction a step executes. -/
def nextInstr (s : Emu) : Instr := instrOf (fetch s).1 (fetch s).2.1

theorem fetch_f (s : Emu) : (fetch s).2.2.regs.f = s.regs.f := by
  unfold fetch
  dsimp only
  split <;> rfl

/-- The cycles `cpu_exec_next` returns. -/
theorem cpuExecNext_cycles (s : Emu) :
    (cpuExecNext s).2 = if s.cpu.isHalted then 3 else (handler (nextInstr s) (fetch s).2.2).2 := by
  show (execInstr s).2 = _
  unfold execInstr
  rw [apply_ite Prod.snd]
  dsimp only
  rw [dispatch_eq]
  rfl

/-- The step completes two periods and ticks once. -/
def LosesTick (s : Emu) : Prop :=
  s.cpu.tacDivider = 4 ∧ s.cpu.isHalted = false ∧
    8 ≤ s.cpu.tacCounter.toNat + (nextInstr s).cycles s.regs.f

instance (s : Emu) : Decidable (LosesTick s) := inferInstanceAs (Decidable (_ ∧ _ ∧ _))

/-- **Which steps complete two periods.** -/
theorem losesTick_iff {s : Emu} (h : TacSelected s.cpu) :
    tacQuotient (cpuExecNext s).2 s.cpu ≤ 1 ↔ ¬ LosesTick s := by
  obtain ⟨hpos, -⟩ := h.divider_le
  have hc := h.counter
  have hq : tacQuotient (cpuExecNext s).2 s.cpu ≤ 1 ↔
      s.cpu.tacCounter.toNat + (cpuExecNext s).2 < 2 * s.cpu.tacDivider.toNat := by
    rw [tacQuotient, ← Nat.lt_succ_iff, Nat.div_lt_iff_lt_mul hpos]
  have hret := handler_cycles_cases (nextInstr s) (fetch s).2.2
  rw [fetch_f] at hret
  have hle := (nextInstr s).cycles_le s.regs.f
  rw [hq, cpuExecNext_cycles]
  unfold LosesTick
  generalize (nextInstr s).cycles s.regs.f = k at hret hle ⊢
  generalize (handler (nextInstr s) (fetch s).2.2).2 = k' at hret ⊢
  have hdiv := tacDividerOf_cases s.cpu.tacReg
  rw [← h.divider] at hdiv
  rcases hdiv with hd | hd | hd | hd
  all_goals
    rw [hd] at hc ⊢
    cases s.cpu.isHalted with
    | true => simp at hc ⊢; omega
    | false => simp at hc ⊢; omega

/-! ## Runs -/

/-- The state after `n` steps of `cpu_exec_next`. -/
def cpuAfter (s : Emu) : Nat → Emu
  | 0 => s
  | n + 1 => (cpuExecNext (cpuAfter s n)).1

/-- The cycles the step after the first `k` returns. -/
def cyclesOf (s : Emu) (k : Nat) : Nat := (cpuExecNext (cpuAfter s k)).2

theorem cpuExecNext_isPrefix (s : Emu) : s.events <+: (cpuExecNext s).1.events := by
  have hlast : Quiet (advanceTima (execInstr s).2 (beforeTima s)) (cpuExecNext s).1 :=
    (quiet_closed _).handleIntrs (quiet_refl _)
  exact (quiet_beforeTima s).isPrefix.trans ((advanceTima_isPrefix _ _).trans hlast.isPrefix)

theorem cpuAfter_isPrefix (s : Emu) {k n : Nat} (h : k ≤ n) :
    (cpuAfter s k).events <+: (cpuAfter s n).events := by
  induction h with
  | refl => exact List.prefix_rfl
  | step _ ih => exact ih.trans (cpuExecNext_isPrefix _)

theorem cpuAfter_start (s : Emu) (k : Nat) : s.events <+: (cpuAfter s k).events :=
  cpuAfter_isPrefix s (Nat.zero_le k)

theorem eventsSince_trans {s s' s'' : Emu} (h : s.events <+: s'.events)
    (h' : s'.events <+: s''.events) :
    eventsSince s s'' = eventsSince s s' ++ eventsSince s' s'' := by
  obtain ⟨es, hes⟩ := h
  obtain ⟨es', hes'⟩ := h'
  rw [eventsSince_append s s' es hes.symm, eventsSince_append s' s'' es' hes'.symm,
    eventsSince_append s s'' (es ++ es')]
  rw [← hes', ← hes, List.append_assoc]

/-- A run with the timer on, set as TAC selects, and its registers not written. -/
structure TimerRun (s : Emu) (n : Nat) : Prop where
  enabled : s.cpu.timaEnabled = true
  selected : TacSelected s.cpu
  unwritten : ∀ e ∈ eventsSince s (cpuAfter s n), ¬ e.WritesTimer

/-- What the timer is throughout the run. -/
structure TimerKept (c c' : CpuState) : Prop where
  enabled : c'.timaEnabled = true
  selected : TacSelected c'
  divider : c'.tacDivider = c.tacDivider

theorem TimaStep.kept {c₀ c c' : CpuState} {cycles : Nat} (h : TimaStep c c' cycles)
    (hk : TimerKept c₀ c) : TimerKept c₀ c' where
  enabled := h.timaEnabled.trans hk.enabled
  selected := by
    refine ⟨?_, ?_⟩
    · rw [h.tacDivider, h.tacReg, hk.selected.divider]
    · rw [h.tacDivider, h.tacCounter]
      exact Nat.mod_lt _ hk.selected.divider_le.1
  divider := h.tacDivider.trans hk.divider

section

variable {s : Emu} {n : Nat}

theorem TimerRun.unwritten_step (h : TimerRun s n) {k : Nat} (hk : k < n) :
    ∀ e ∈ eventsSince (cpuAfter s k) (cpuAfter s (k + 1)), ¬ e.WritesTimer := by
  intro e he
  refine h.unwritten e ?_
  rw [eventsSince_trans (cpuAfter_start s k) (cpuAfter_isPrefix s (Nat.le_of_lt hk))]
  refine List.mem_append_right _ ?_
  rw [eventsSince_trans (cpuAfter_isPrefix s (Nat.le_succ k)) (cpuAfter_isPrefix s hk)]
  exact List.mem_append_left _ he

theorem TimerRun.kept (h : TimerRun s n) {k : Nat} (hk : k ≤ n) :
    TimerKept s.cpu (cpuAfter s k).cpu := by
  induction k with
  | zero => exact ⟨h.enabled, h.selected, rfl⟩
  | succ k ih =>
      have hkept := ih (Nat.le_of_lt hk)
      exact (cpuExecNext_timer hkept.enabled hkept.selected (h.unwritten_step hk)).kept hkept

/-- Every step of the run is a timer step. -/
theorem TimerRun.step (h : TimerRun s n) {k : Nat} (hk : k < n) :
    CpuTimerStep (cpuAfter s k) (cpuAfter s (k + 1)) (cyclesOf s k) := by
  have hkept := h.kept (Nat.le_of_lt hk)
  exact cpuExecNext_timer hkept.enabled hkept.selected (h.unwritten_step hk)

/-- `tac_counter` wraps at the divider. -/
theorem TimerRun.wraps (h : TimerRun s n) :
    Prescaler.Wraps s.cpu.tacDivider.toNat (fun k => (cpuAfter s k).cpu.tacCounter.toNat)
      (cyclesOf s) n where
  start := h.selected.counter
  step k hk := by
    rw [(h.step hk).tacCounter, (h.kept (Nat.le_of_lt hk)).divider]

/-- The ticks of the run are the steps that complete a period. -/
theorem TimerRun.count_ticks (h : TimerRun s n) {k : Nat} (hk : k ≤ n) :
    (eventsSince s (cpuAfter s k)).count .timaTick =
      Prescaler.overflows s.cpu.tacDivider.toNat (fun k => (cpuAfter s k).cpu.tacCounter.toNat)
        (cyclesOf s) k := by
  induction k with
  | zero =>
      rw [eventsSince_append s (cpuAfter s 0) [] (List.append_nil _).symm]
      rfl
  | succ k ih =>
      rw [eventsSince_trans (cpuAfter_start s k) (cpuAfter_isPrefix s (Nat.le_succ k)),
        List.count_append, (h.step hk).count]
      rw [ih (Nat.le_of_lt hk), Prescaler.overflows, Prescaler.overflows, Finset.sum_range_succ,
        tacQuotient, (h.kept (Nat.le_of_lt hk)).divider]

end

/-- The ticks of a run are one division of all its cycles, and each reloads and
requests as it should. -/
structure TimaExact (s : Emu) (n : Nat) : Prop where
  ticks : (eventsSince s (cpuAfter s n)).count .timaTick =
    (s.cpu.tacCounter.toNat + ∑ k ∈ Finset.range n, cyclesOf s k) / s.cpu.tacDivider.toNat
  reloads : ∀ k < n, TickExact (cpuAfter s k) (cpuAfter s (k + 1))

/-- **The rate of TIMA.**  It is exact in the runs in which no step completes
two periods, whatever the program. -/
theorem timaExact_iff (s : Emu) (n : Nat) (h : TimerRun s n) :
    TimaExact s n ↔ ∀ k < n, ¬ LosesTick (cpuAfter s k) := by
  have hticks := h.wraps.overflows_eq_iff
  rw [← h.count_ticks (Nat.le_refl n)] at hticks
  have hstep : ∀ k < n, ((cpuAfter s k).cpu.tacCounter.toNat + cyclesOf s k) /
      s.cpu.tacDivider.toNat ≤ 1 ↔ ¬ LosesTick (cpuAfter s k) := by
    intro k hk
    have hkept := h.kept (Nat.le_of_lt hk)
    rw [← losesTick_iff hkept.selected, tacQuotient, hkept.divider]
    rfl
  constructor
  · intro hexact k hk
    exact (hstep k hk).mp (hticks.mp hexact.ticks k hk)
  · intro hnone
    exact ⟨hticks.mpr fun k hk => (hstep k hk).mpr (hnone k hk), fun k hk => (h.step hk).tickExact⟩

/-- TIMA on with divider 4 and three cycles counted, PC in work RAM. -/
def timerOn (code : List U8) : Emu :=
  let s := powerOn #[] #[]
  { s with
    wram := fun i => code.getD i 0
    regs := { s.regs with pc := 0xc000, sp := 0xd000 }
    cpu := { s.cpu with
      timaEnabled := true, tacReg := 5, tacDivider := 4, tacCounter := 3, timaReg := 0xff } }

theorem timerOn_selected (code : List U8) : TacSelected (timerOn code).cpu where
  divider := (by decide : (4 : U32) = tacDividerOf 5)
  counter := (by decide : 3 < 4)

/-- Two NOPs: four cycles counted after the first, and a reload. -/
theorem timaExact_nops : TimaExact (timerOn [0, 0]) 2 :=
  (timaExact_iff (timerOn [0, 0]) 2 ⟨rfl, timerOn_selected _, by decide +kernel⟩).mpr
    (by decide +kernel)

/-- CALL 0xc100: nine cycles counted are two periods, and TIMA ticks once. -/
theorem not_timaExact_call : ¬ ∀ (s : Emu) (n : Nat), TimerRun s n → TimaExact s n := by
  intro h
  have hrun : TimerRun (timerOn [0xcd, 0x00, 0xc1]) 1 :=
    ⟨rfl, timerOn_selected _, by decide +kernel⟩
  exact absurd (h _ 1 hrun).ticks (by decide +kernel)

end RealBoy
