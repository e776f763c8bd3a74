/-
# `RealBoy.Emu.Loop` — the emulator at work

What the emulation is made of once it runs: `exec_next`, which steps the CPU and
hands its cycles to the PPU, and between two of them the keys.  A step never
takes fewer than one cycle or more than six (`cpuExecNext_range`), so the clock of
the PPU is always driven as its bounds ask.

Much is true of a run as long as nothing is written to some place.  `Guarded W G`
says that `G` survives whatever the CPU does but calls of the kind `W`; it then holds
in every state of a run that makes no such call (`Guarded.passes`).
-/
import RealBoy.Cpu.Clock
import RealBoy.Cpu.Interrupts
import RealBoy.Emu.Joypad
import RealBoy.Ppu.Safety

namespace RealBoy

open Emu

/-- What can happen: `exec_next`, or a key event. -/
inductive LoopStep where
  | execNext
  | key (isFocus : Bool) (ev : InputEvent)
deriving DecidableEq

/-- The effect of a step. -/
def Emu.pass (s : Emu) : LoopStep → Emu
  | .execNext => execNext s
  | .key isFocus ev => monitorSetKey isFocus ev s

/-- The state after some steps. -/
def Emu.passes (s : Emu) (steps : List LoopStep) : Emu := Runs.run Emu.pass s steps

theorem monitorSetKey_eq (isFocus : Bool) (ev : InputEvent) (s : Emu) :
    ∃ k, monitorSetKey isFocus ev s = { s with keys := k } := by
  unfold monitorSetKey
  split
  · cases ev.code <;> exact ⟨_, rfl⟩
  · exact ⟨s.keys, rfl⟩

theorem Reachable.pass {s : Emu} (h : Reachable s) (a : LoopStep) : Reachable (s.pass a) := by
  cases a with
  | execNext => exact .act (.refresh _) (.act .exec h)
  | key isFocus ev =>
      obtain ⟨k, hk⟩ := monitorSetKey_eq isFocus ev s
      rw [Emu.pass, hk]
      exact .keys k h

theorem Reachable.passes {s : Emu} (h : Reachable s) (steps : List LoopStep) :
    Reachable (s.passes steps) := by
  induction steps generalizing s with
  | nil => exact h
  | cons a steps ih => exact ih (h.pass a)

/-! ## The cycles of a step -/

/-- What a handler leaves out is never all of the instruction. -/
theorem shortfall_lt (i : Sm83.Instr) (f : U8) : shortfall i < i.cycles f := by
  have hbytes : 0 < i.bytes := by cases i <;> exact Nat.le_of_ble_eq_true rfl
  have hle : i.bytes ≤ i.cycles f := Nat.le_trans (Nat.le_add_right _ _) (bytes_le_cycles i f)
  cases i with
  | ld dst src => cases dst <;> cases src <;> exact Nat.le_of_ble_eq_true rfl
  | alu k o => cases k <;> cases o <;> exact Nat.le_of_ble_eq_true rfl
  | aluImm k => cases k <;> exact Nat.le_of_ble_eq_true rfl
  | ldhA8A | ldSpHl | push rr => exact Nat.le_of_ble_eq_true rfl
  | _ => exact Nat.lt_of_lt_of_le hbytes hle

/-- Every handler returns something. -/
theorem handler_cycles_pos (i : Sm83.Instr) (s : Emu) : 1 ≤ (handler i s).2 := by
  have hlt := shortfall_lt i s.regs.f
  by_cases ht : i.timed = true
  · have h := handler_cycles i s ht
    omega
  · cases i with
    | stop | halt | prefixByte | undefined => exact Nat.le_of_ble_eq_true rfl
    | ld dst src =>
        cases src <;> cases dst <;> first | exact absurd rfl ht | exact Nat.le.refl
    | _ => exact absurd rfl ht

/-- **A step takes one to six cycles.** -/
theorem cpuExecNext_range (s : Emu) : 1 ≤ (cpuExecNext s).2 ∧ (cpuExecNext s).2 ≤ 6 := by
  have hpos := handler_cycles_pos (nextInstr s) (fetch s).2.2
  have hret := handler_cycles_cases (nextInstr s) (fetch s).2.2
  have hle := (nextInstr s).cycles_le (fetch s).2.2.regs.f
  rw [cpuExecNext_cycles]
  split <;> omega

/-- The cycles as `ppu_refresh` gets them. -/
theorem ticks_range (s : Emu) :
    1 ≤ BitVec.ofNat 8 (cpuExecNext s).2 ∧ BitVec.ofNat 8 (cpuExecNext s).2 ≤ 6 := by
  obtain ⟨h₁, h₆⟩ := cpuExecNext_range s
  generalize (cpuExecNext s).2 = n at h₁ h₆ ⊢
  constructor <;> bv_omega

/-! ## As long as nothing is written there -/

/-- A call the CPU makes that is no bus write. -/
def Event.OfTimer (e : Event) : Prop := e = .timaTick ∨ e = .cpuRequestIntr 0x4

/-- The property survives whatever the CPU does, but for bus writes of the kind
`W`. -/
structure Guarded (W : Event → Prop) (G : Emu → Prop) : Prop where
  regs : ∀ s r, G s → G { s with regs := r }
  cpu : ∀ s c, G s → G { s with cpu := c }
  timer : ∀ s e, Event.OfTimer e → G s → G (s.log e)
  write : ∀ s addr value, addr ≠ 0xff46 → ¬ W (.monitorWrMem addr value) → G s →
    G (monitorWrMem addr value s)
  dma : ∀ s value, ¬ W (.monitorWrMem 0xff46 value) → G s →
    G (s.log (.monitorWrMem 0xff46 value))

/-- It holds, unless there was a call of the kind `W` since `s₀`. -/
structure Since (W : Event → Prop) (G : Emu → Prop) (s₀ s : Emu) : Prop where
  isPrefix : s₀.events <+: s.events
  holds : (∀ e ∈ eventsSince s₀ s, ¬ W e) → G s

namespace Since

variable {W : Event → Prop} {G : Emu → Prop} {s₀ s s' : Emu}

theorem refl (h : G s) : Since W G s s := ⟨List.prefix_rfl, fun _ => h⟩

/-- What one more piece of a run keeps. -/
theorem snoc (h : Since W G s₀ s) (hp : s.events <+: s'.events)
    (hG : (∀ e ∈ eventsSince s s', ¬ W e) → G s → G s') : Since W G s₀ s' where
  isPrefix := h.isPrefix.trans hp
  holds hno := by
    rw [eventsSince_trans h.isPrefix hp] at hno
    exact hG (fun e he => hno e (List.mem_append_right _ he))
      (h.holds fun e he => hno e (List.mem_append_left _ he))

/-- No call is made. -/
theorem quiet (h : Since W G s₀ s) (he : s'.events = s.events) (hG : G s → G s') :
    Since W G s₀ s' :=
  h.snoc (he ▸ List.prefix_rfl) fun _ => hG

/-- One call is made. -/
theorem call (h : Since W G s₀ s) {e : Event} (he : s'.events = s.events ++ [e])
    (hG : ¬ W e → G s → G s') : Since W G s₀ s' :=
  h.snoc ⟨_, he.symm⟩ fun hno => hG (hno e (by
    rw [eventsSince_append s s' [e] he]
    exact List.mem_singleton_self e))

end Since

namespace Guarded

variable {W : Event → Prop} {G : Emu → Prop} (h : Guarded W G) {s₀ s : Emu}

include h

theorem monitorWrMem (hs : Since W G s₀ s) (addr : U16) (value : U8) :
    Since W G s₀ (monitorWrMem addr value s) := by
  refine monitorWrMem_induct (P := Since W G s₀) ?_ ?_ addr value s hs
  · exact fun s value hs => hs.call rfl (h.dma s value)
  · intro s addr value hdma hs
    exact hs.call ((monitorWrMem_cases addr value s).events hdma) (h.write s addr value hdma)

theorem cpuClosed : CpuClosed (Since W G s₀) where
  regs s r hs := hs.quiet rfl (h.regs s r)
  cpu s c _ hs := hs.quiet rfl (h.cpu s c)
  write _ addr value hs := h.monitorWrMem hs addr value

theorem updCpu (hs : Since W G s₀ s) (f : CpuState → CpuState) : Since W G s₀ (s.updCpu f) :=
  hs.quiet rfl (h.cpu s _)

theorem log (hs : Since W G s₀ s) {e : Event} (he : e.OfTimer) : Since W G s₀ (s.log e) :=
  hs.call rfl fun _ => h.timer s e he

theorem tickTima (hs : Since W G s₀ s) : Since W G s₀ (tickTima s) := by
  have hinc := h.log (h.updCpu hs fun c => { c with timaReg := c.timaReg + 1 }) (.inl rfl)
  unfold RealBoy.tickTima
  dsimp only
  split
  · exact h.log (h.updCpu (h.updCpu hinc _) _) (.inr rfl)
  · exact hinc

theorem advanceTima (hs : Since W G s₀ s) (cycles : Nat) : Since W G s₀ (advanceTima cycles s) := by
  unfold RealBoy.advanceTima
  split
  · split
    · exact h.updCpu (h.tickTima hs) _
    · exact h.updCpu hs _
  · exact hs

/-- **A step of the CPU.** -/
theorem cpuExecNext (hs : Since W G s₀ s) : Since W G s₀ (cpuExecNext s).1 :=
  h.cpuClosed.handleIntrs (h.advanceTima (h.cpuClosed.advanceDiv (h.cpuClosed.execInstr hs) _) _)

end Guarded

/-- **A run.**  What also survives the refreshes and the keys holds after every run
without a call of the kind `W`. -/
theorem Guarded.passes {W : Event → Prop} {G : Emu → Prop} (h : Guarded W G)
    (hrefresh : ∀ s ticks, 1 ≤ ticks → ticks ≤ 6 → G s → G (ppuRefresh ticks s))
    (hkeys : ∀ s k, G s → G { s with keys := k }) {s₀ s : Emu} (hs : Since W G s₀ s)
    (steps : List LoopStep) : Since W G s₀ (s.passes steps) := by
  induction steps generalizing s with
  | nil => exact hs
  | cons a steps ih =>
      refine ih ?_
      cases a with
      | execNext =>
          obtain ⟨h₁, h₆⟩ := ticks_range s
          exact (h.cpuExecNext hs).snoc (act_isPrefix _ (.refresh _)) fun _ => hrefresh _ _ h₁ h₆
      | key isFocus ev =>
          obtain ⟨k, hk⟩ := monitorSetKey_eq isFocus ev s
          rw [Emu.pass, hk]
          exact hs.quiet rfl (hkeys s k)

/-! ## The bounds of the renderer -/

/-- A store to LY that is no line of the screen. -/
def Event.LeavesScreen (e : Event) : Prop := ∃ value, 144 ≤ value ∧ e = .monitorWrMem 0xff44 value

theorem rasterInv_guarded : Guarded Event.LeavesScreen fun s => RasterInv s.raster where
  regs _ _ h := h
  cpu _ _ h := h
  timer s e he h := by
    have hoff : e.Offscreen := by rcases he with rfl | rfl <;> simp [Event.Offscreen]
    exact (raster_log hoff s).symm ▸ h
  write s addr value _ hW h := by
    refine h.act (a := .write addr value) trivial fun hly => .inl ?_
    by_contra hv
    exact hW ⟨value, BitVec.not_lt.mp hv, by rw [hly]⟩
  dma s value _ h := (logWrite_raster 0xff46 value s).symm ▸ h

theorem RasterInv.refresh {s : Emu} (h : RasterInv s.raster) {ticks : U8} (h₁ : 1 ≤ ticks)
    (h₆ : ticks ≤ 6) : RasterInv (ppuRefresh ticks s).raster :=
  h.act (a := .refresh ticks) ⟨h₁, h₆⟩ trivial

/-- **The bounds hold in every run** that stores no such line. -/
theorem rasterInv_passes (rom boot : Array U8) (steps : List LoopStep)
    (hly : ∀ e ∈ ((powerOn rom boot).passes steps).events, ¬ e.LeavesScreen) :
    RasterInv ((powerOn rom boot).passes steps).raster :=
  (rasterInv_guarded.passes (fun _ _ h₁ h₆ h => h.refresh h₁ h₆) (fun _ _ h => h)
    (.refl (rasterInv_powerOn rom boot)) steps).holds hly

end RealBoy
