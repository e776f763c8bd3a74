/-
# `RealBoy.Cpu.Confined` — programs that keep to memory

A program that reads only the cartridge and the memories, and writes only the
memories, cannot tell the emulator from 64 KiB of bytes: whatever the PPU and
the keys do between its instructions, its registers and its memory are those of
the flat SM83 (`run_confined`).  IME has to be off and stay off, so that EI, RETI and
HALT are left out; so are the opcodes without a meaning, and the two instructions
that deviate where they do (`Plain`).

What the program logic proves of a program on flat memory then holds of the
emulator that runs it (`leads_run`).
-/
import RealBoy.Lib.Flat
import RealBoy.Lib.Logic
import RealBoy.Ppu.Frame
import RealBoy.Cpu.Simulation

namespace RealBoy

open Emu
open Logic (Leads Turns)
open Sm83 (Instr State Mem flatBus Follows Confined)

-- as before, a write is not to be computed
attribute [local irreducible] monitorWrMem

/-! ## Storage -/

/-- The addresses that are storage: the cartridge's ROM, and memory. -/
def IsStored (a : U16) : Prop := a ≤ 0x7fff ∨ IsMemory a

instance (a : U16) : Decidable (IsStored a) := inferInstanceAs (Decidable (_ ∨ _))

/-- Nothing stored has changed. -/
structure SameStore (s s' : Emu) : Prop where
  rom : s'.mbc1.mbc1Rom = s.mbc1.mbc1Rom
  cell : ∀ c, s'.cell c = s.cell c

theorem SameStore.rd {s s' : Emu} (h : SameStore s s') {a : U16} (ha : IsStored a) :
    monitorRdMem s' a = monitorRdMem s a := by
  rcases ha with hrom | hmem
  · rw [monitorRdMem_low hrom, monitorRdMem_low hrom, h.rom]
  · obtain ⟨c, hc⟩ := Option.isSome_iff_exists.mp (cellOf_isSome.mpr hmem)
    rw [monitorRdMem_cell hc, monitorRdMem_cell hc, h.cell]

/-- The CPU's flags are not stored, nor are the log and the keys. -/
theorem SameStore.updCpu {s s' : Emu} (h : SameStore s s') (f : CpuState → CpuState) :
    SameStore s (s'.updCpu f) :=
  ⟨h.rom, fun c => (show (s'.updCpu f).cell c = s'.cell c by cases c <;> rfl).trans (h.cell c)⟩

theorem SameStore.log {s s' : Emu} (h : SameStore s s') (e : Event) : SameStore s (s'.log e) :=
  ⟨h.rom, fun c => (show (s'.log e).cell c = s'.cell c by cases c <;> rfl).trans (h.cell c)⟩

theorem SameStore.keys {s s' : Emu} (h : SameStore s s') (k : Keys) :
    SameStore s { s' with keys := k } :=
  ⟨h.rom, fun c => (show Emu.cell { s' with keys := k } c = s'.cell c by cases c <;> rfl).trans
    (h.cell c)⟩

theorem sameStore_refl (s : Emu) : SameStore s s := ⟨rfl, fun _ => rfl⟩

theorem SameStore.advanceTima {s s' : Emu} (h : SameStore s s') (cycles : Nat) :
    SameStore s (advanceTima cycles s') := by
  have htick : SameStore s (tickTima s') := by
    have hinc := (h.updCpu fun c => { c with timaReg := c.timaReg + 1 }).log .timaTick
    unfold tickTima
    dsimp only
    split
    · exact ((hinc.updCpu fun c => { c with timaReg := c.tmaReg }).updCpu _).log _
    · exact hinc
  unfold RealBoy.advanceTima
  split
  · split
    · exact htick.updCpu _
    · exact h.updCpu _
  · exact h

/-- A refresh stores nothing. -/
theorem sameStore_ppuRefresh (ticks : U8) (s : Emu) : SameStore s (ppuRefresh ticks s) := by
  have hstill := still_ppuRefresh s ticks
  have hrest : RefreshClosed fun s' => s'.mbc1 = s.mbc1 ∧ s'.wram = s.wram ∧ s'.hram = s.hram ∧
      s'.tmpIoregs = s.tmpIoregs :=
    { ppu := fun _ _ h => h
      request := fun _ _ _ h => h
      call := fun _ _ _ h => h }
  obtain ⟨hmbc1, hwram, hhram, hio⟩ := hrest.ppuRefresh ⟨rfl, rfl, rfl, rfl⟩ ticks
  refine ⟨congrArg Mbc1.mbc1Rom hmbc1, fun c => ?_⟩
  cases c with
  | tileData k => exact congrFun (congrArg Ppu.tileData hstill) k
  | tileMap1 k => exact congrFun (congrArg Ppu.tileMap1 hstill) k
  | tileMap2 k => exact congrFun (congrArg Ppu.tileMap2 hstill) k
  | oam k => exact congrFun (congrArg Ppu.oam hstill) k
  | mbc1Ram k => exact congrFun (congrArg Mbc1.mbc1Ram hmbc1) k
  | wram k => exact congrFun hwram k
  | hram k => exact congrFun hhram k
  | tmpIoreg k => exact congrFun hio k

/-! ## The emulator's bus has memory -/

theorem cpuBus_stable : cpuBus.Stable IsStored IsMemory where
  rd_wr ha _ v e := monitorRdMem_monitorWrMem ha v e _
  ime_wr ha v e := congrArg CpuState.imeEnabled (monitorWrMem_regs ha v e).2
  halted_wr ha v e := congrArg CpuState.isHalted (monitorWrMem_regs ha v e).2
  rd_setIme hb e := ((sameStore_refl e).updCpu _).rd hb
  ime_setIme _ := rfl
  halted_setIme _ := rfl
  rd_setHalted hb e := ((sameStore_refl e).updCpu _).rd hb
  ime_setHalted _ := rfl
  halted_setHalted _ := rfl

/-- The timer leaves IME and HALT alone. -/
theorem advanceTima_imeHalt (cycles : Nat) (s : Emu) :
    (advanceTima cycles s).cpu.imeEnabled = s.cpu.imeEnabled ∧
      (advanceTima cycles s).cpu.isHalted = s.cpu.isHalted := by
  have htick : (tickTima s).cpu.imeEnabled = s.cpu.imeEnabled ∧
      (tickTima s).cpu.isHalted = s.cpu.isHalted := by
    unfold tickTima
    dsimp only
    split <;> exact ⟨rfl, rfl⟩
  unfold advanceTima
  split
  · split
    · exact htick
    · exact ⟨rfl, rfl⟩
  · exact ⟨rfl, rfl⟩

theorem elapse_beside (n : Nat) : cpuBus.Beside IsStored (cpuMachine.elapse n) where
  rd hb e := ((((sameStore_refl e).updCpu _).updCpu _).advanceTima n).rd hb
  ime _ := (advanceTima_imeHalt n _).1
  halted _ := (advanceTima_imeHalt n _).2

theorem ppuRefresh_beside (ticks : U8) : cpuBus.Beside IsStored (ppuRefresh ticks) where
  rd hb e := (sameStore_ppuRefresh ticks e).rd hb
  ime e := by
    have h : RefreshClosed fun s => s.cpu.imeEnabled = e.cpu.imeEnabled :=
      ⟨fun _ _ h => h, fun _ _ _ h => h, fun _ _ _ h => h⟩
    exact h.ppuRefresh rfl ticks
  halted e := by
    have h : RefreshClosed fun s => s.cpu.isHalted = e.cpu.isHalted :=
      ⟨fun _ _ h => h, fun _ _ _ h => h, fun _ _ _ h => h⟩
    exact h.ppuRefresh rfl ticks

/-! ## A turn -/

/-- What goes on beside the CPU: refreshes of the PPU, and the keys. -/
inductive Beside (s : Emu) : Emu → Prop where
  | none : Beside s s
  | refresh (ticks : U8) {s' : Emu} : Beside s s' → Beside s (ppuRefresh ticks s')
  | keys (k : Keys) {s' : Emu} : Beside s s' → Beside s { s' with keys := k }

/-- A CPU step, and what goes on until the next one. -/
def Turn (s s' : Emu) : Prop := Beside (cpuExecNext s).1 s'

/-- The next instruction keeps to storage; it is a defined one, none that changes IME or
halts, and none of the deviations. -/
structure Plain (t : State Mem) : Prop extends Confined IsStored IsMemory t where
  defined : (flatBus.instr t).defined = true
  daa : flatBus.instr t = .daa → ¬ (t.cpu.flags.n = true ∧ t.cpu.flags.c = true)
  ldA16Sp : flatBus.instr t = .ldA16Sp →
    ∀ a ∈ Sm83.wordAt (flatBus.fetched t).cpu.pc, a ≠ flatBus.imm16 (flatBus.fetched t)

/-- The instructions that never deviate, and leave IME and HALT as they are. -/
def ordinary : Instr → Bool
  | .daa | .ldA16Sp => false
  | i => i.calm && i.defined

/-- An ordinary instruction whose bytes and data are stored. -/
theorem plain_of {t : State Mem} {i : Instr} (hat : flatBus.instr t = i) (hi : ordinary i = true)
    (hcode : ∀ a ∈ Sm83.Bus.code t.cpu.pc i.bytes, IsStored a)
    (hloads : ∀ a ∈ flatBus.loads (flatBus.fetched t) i, IsStored a)
    (hstores : ∀ a ∈ flatBus.stores (flatBus.fetched t) i, IsMemory a) : Plain t := by
  subst hat
  have hne : flatBus.instr t ≠ .daa ∧ flatBus.instr t ≠ .ldA16Sp := by
    constructor <;> intro h <;> rw [h] at hi <;> cases hi
  have hboth : ((flatBus.instr t).calm && (flatBus.instr t).defined) = true := by
    unfold ordinary at hi
    split at hi
    · cases hi
    · cases hi
    · exact hi
  obtain ⟨hcalm, hdef⟩ := (Bool.and_eq_true _ _).mp hboth
  exact
    { fetches := hcode
      loads := hloads
      stores := hstores
      calm := hcalm
      defined := hdef
      daa := fun h => absurd h hne.1
      ldA16Sp := fun h => absurd h hne.2 }

/-- The next instruction is `i`, at `pc`, with data at these addresses. -/
def NextAt (t : State Mem) (i : Instr) (pc : U16) (loads stores : List U16) : Prop :=
  flatBus.instr t = i ∧ t.cpu.pc = pc ∧ flatBus.loads (flatBus.fetched t) i = loads ∧
    flatBus.stores (flatBus.fetched t) i = stores

instance (t : State Mem) (i : Instr) (pc : U16) (loads stores : List U16) :
    Decidable (NextAt t i pc loads stores) := inferInstanceAs (Decidable (_ ∧ _ ∧ _ ∧ _))

/-- In the cartridge's ROM it is plain, if its data are stored. -/
theorem NextAt.plain {t : State Mem} {i : Instr} {pc : U16} {loads stores : List U16}
    (h : NextAt t i pc loads stores) (hi : ordinary i = true) (hrom : pc.toNat + i.bytes ≤ 0x8000)
    (hloads : ∀ a ∈ loads, IsStored a) (hstores : ∀ a ∈ stores, IsMemory a) : Plain t := by
  obtain ⟨hat, rfl, rfl, rfl⟩ := h
  refine plain_of hat hi (fun a ha => ?_) hloads hstores
  obtain ⟨k, hk, rfl⟩ := List.mem_map.mp ha
  have hk := List.mem_range.mp hk
  exact .inl (by bv_omega)

/-- A state as the flat SM83 sees it. -/
def flatView (s : Emu) : State Mem := ⟨cpuOf s.regs, monitorRdMem s⟩

/-- The flat SM83 runs the program of `s`: what is stored is the same, and there
are no interrupts. -/
abbrev RunsFlat (t : State Mem) (s : Emu) : Prop := Follows cpuBus IsStored t (view s)

theorem runsFlat_flatView {s : Emu} (hime : s.cpu.imeEnabled = false)
    (hhalt : s.cpu.isHalted = false) : RunsFlat (flatView s) s where
  cpu := rfl
  mem _ _ := rfl
  ime := hime
  halted := hhalt

/-- The emulator does not deviate there. -/
theorem Plain.faithful {t : State Mem} {s : Emu} (hok : Plain t) (h : RunsFlat t s) :
    Faithful s := by
  intro _
  have hinstr : instrAt s = flatBus.instr t := h.instr hok.fetches
  refine ⟨hinstr ▸ hok.defined, ?_⟩
  rintro (⟨hi, hn, hc⟩ | ⟨hi, hdev⟩)
  · refine hok.daa (hinstr ▸ hi) ?_
    rw [← h.cpu]
    have hflags := flagsOf_bits s.regs.f
    exact ⟨(congrArg Sm83.Flags.n hflags).trans hn, (congrArg Sm83.Flags.c hflags).trans hc⟩
  · have hi : flatBus.instr t = .ldA16Sp := hinstr ▸ hi
    have hf : RunsFlat (flatBus.fetched t) (fetched s) := by
      rw [Sm83.Bus.fetched, ← hinstr]
      exact h.onCpu rfl
    have hcode : ∀ a ∈ Sm83.Bus.code (flatBus.fetched t).cpu.pc 2, IsStored a := by
      intro a ha
      obtain ⟨k, hk, rfl⟩ := List.mem_map.mp ha
      have hk := List.mem_range.mp hk
      refine hok.fetches _ (Sm83.Bus.mem_code (k := 1 + k) (by rw [hi]; exact Nat.add_lt_add_left hk 1) ?_)
      rw [BitVec.ofNat_add, ← BitVec.add_assoc, Sm83.Bus.fetched, hi]
      rfl
    have himm : rdWord (fetched s) (fetched s).regs.pc = flatBus.imm16 (flatBus.fetched t) :=
      hf.imm16 Nat.le.refl hcode
    have hstore : IsMemory (flatBus.imm16 (flatBus.fetched t)) := by
      refine hok.stores _ ?_
      rw [hi]
      exact List.mem_cons_self
    -- the first write is not to the operand
    refine hdev ?_
    have hkeep : ∀ a ∈ Sm83.wordAt (fetched s).regs.pc, ∀ v,
        monitorRdMem (monitorWrMem (rdWord (fetched s) (fetched s).regs.pc) v (fetched s)) a =
          monitorRdMem (fetched s) a := by
      intro a ha v
      have hpc : (fetched s).regs.pc = (flatBus.fetched t).cpu.pc := congrArg Sm83.Cpu.pc hf.cpu
      rw [himm, monitorRdMem_monitorWrMem hstore, if_neg]
      exact hok.ldA16Sp hi a (hpc ▸ ha)
    rw [operandAfter, rdWord, hkeep _ (by simp [Sm83.wordAt]), hkeep _ (by simp [Sm83.wordAt])]
    rfl

/-- **A turn** is a step of the flat machine. -/
theorem runsFlat_turn (t : State Mem) (s s' : Emu) (h : Reachable s ∧ RunsFlat t s) (hok : Plain t)
    (hturn : Turn s s') : Reachable s' ∧ RunsFlat (flatBus.step t) s' := by
  obtain ⟨hs, hflat⟩ := h
  have hcpu : Reachable (cpuExecNext s).1 := .act .exec hs
  have hstep : RunsFlat (flatBus.step t) (cpuExecNext s).1 := by
    rw [RunsFlat, cpuExecNext_refines hs.flagsLow hs.ifLow (hok.faithful hflat)]
    exact hflat.next (M := cpuMachine) cpuBus_stable elapse_beside hok.toConfined
  induction hturn with
  | none => exact ⟨hcpu, hstep⟩
  | refresh ticks _ ih =>
      refine ⟨.act (.refresh ticks) ih.1, ?_⟩
      rw [RunsFlat, view_ppuRefresh]
      exact ih.2.beside (ppuRefresh_beside ticks)
  | keys k _ ih =>
      have hkeys : cpuBus.Beside IsStored fun e => { e with keys := k } :=
        { rd := fun hb e => ((sameStore_refl e).keys k).rd hb
          ime := fun _ => rfl
          halted := fun _ => rfl }
      exact ⟨.keys k ih.1, ih.2.beside hkeys⟩

/-! ## Runs -/

/-- **A program that keeps to memory runs as on memory alone**: as long as its
instructions are plain, after as many turns as the flat SM83 makes steps the registers
and all that is stored are the same, whatever went on beside. -/
theorem run_confined {s : Emu} (h : Reachable s) (hime : s.cpu.imeEnabled = false)
    (hhalt : s.cpu.isHalted = false) {n : Nat}
    (hok : ∀ k < n, Plain (flatBus.step^[k] (flatView s))) {s' : Emu} (hrun : Turns Turn n s s') :
    cpuOf s'.regs = (flatBus.step^[n] (flatView s)).cpu ∧
      ∀ a, IsStored a → monitorRdMem s' a = (flatBus.step^[n] (flatView s)).env a := by
  have hend := hrun.follow runsFlat_turn ⟨h, runsFlat_flatView hime hhalt⟩ hok
  exact ⟨hend.2.cpu, hend.2.mem⟩

theorem Reachable.run {s : Emu} (h : Reachable s) (acts : List Action) :
    Reachable (s.run acts) := by
  induction acts generalizing s with
  | nil => exact h
  | cons a acts ih => exact ih (h.act a)

/-- The LCD is switched on; then LD HL,0xc000, LD A,5, LD (HL),A and ADD A,(HL). -/
def storeAndAdd : Array U8 :=
  #[0x3e, 0x91, 0xe0, 0x40, 0x21, 0x00, 0xc0, 0x3e, 0x05, 0x77, 0x86]

/-- It is on. -/
def lcdSwitchedOn : Emu :=
  (powerOn storeAndAdd #[]).run [.exec, .refresh 2, .exec, .refresh 3]

/-- START is pressed. -/
def startPressed : Keys := ⟨false, true, true, true, true, true, true, true⟩

/-- A turn with a refresh and a key. -/
def turnWithKey (ticks : U8) (s : Emu) : Emu :=
  { ppuRefresh ticks (cpuExecNext s).1 with keys := startPressed }

/-- Four turns. -/
def afterFour : Emu := (turnWithKey 2)^[4] lcdSwitchedOn

/-- Beside a PPU that is on, and with a key pressed, the byte is stored and added. -/
theorem run_confined_storeAndAdd :
    Turns Turn 4 lcdSwitchedOn afterFour ∧
      cpuOf afterFour.regs = (flatBus.step^[4] (flatView lcdSwitchedOn)).cpu ∧
      (∀ a, IsStored a →
        monitorRdMem afterFour a = (flatBus.step^[4] (flatView lcdSwitchedOn)).env a) ∧
      (cpuOf afterFour.regs).a = 10 ∧ monitorRdMem afterFour 0xc000 = 5 := by
  have hturn (s : Emu) : Turn s (turnWithKey 2 s) := .keys startPressed (.refresh 2 .none)
  have hrun : Turns Turn 4 lcdSwitchedOn afterFour :=
    .turn (hturn _) (.turn (hturn _) (.turn (hturn _) (.turn (hturn _) .none)))
  have hreach : Reachable lcdSwitchedOn := (Reachable.powerOn storeAndAdd #[]).run _
  have h₀ : NextAt (flatBus.step^[0] (flatView lcdSwitchedOn)) (.ldPairImm .hl) 4 [] [] := by
    decide +kernel
  have h₁ : NextAt (flatBus.step^[1] (flatView lcdSwitchedOn)) (.ldImm .a) 7 [] [] := by
    decide +kernel
  have h₂ : NextAt (flatBus.step^[2] (flatView lcdSwitchedOn)) (.ld .indHl .a) 9 [] [0xc000] := by
    decide +kernel
  have h₃ : NextAt (flatBus.step^[3] (flatView lcdSwitchedOn)) (.alu .add .indHl) 10 [0xc000] [] := by
    decide +kernel
  have hok : ∀ k < 4, Plain (flatBus.step^[k] (flatView lcdSwitchedOn)) := by
    intro k hk
    interval_cases k
    · exact h₀.plain rfl (by decide) nofun nofun
    · exact h₁.plain rfl (by decide) nofun nofun
    · exact h₂.plain rfl (by decide) nofun (List.forall_mem_singleton.mpr (by decide))
    · exact h₃.plain rfl (by decide) (List.forall_mem_singleton.mpr (by decide)) nofun
  have ha : (flatBus.step^[4] (flatView lcdSwitchedOn)).cpu.a = 10 := by decide +kernel
  have hc000 : (flatBus.step^[4] (flatView lcdSwitchedOn)).env 0xc000 = 5 := by decide +kernel
  obtain ⟨hcpu, hmem⟩ := run_confined hreach (by decide +kernel) (by decide +kernel) hok hrun
  refine ⟨hrun, hcpu, hmem, ?_, ?_⟩
  · rw [hcpu]
    exact ha
  · rw [hmem 0xc000 (by decide)]
    exact hc000

/-- **What a program leads to** on flat memory, it leads to in the emulator. -/
theorem leads_run {s : Emu} (h : Reachable s) (hime : s.cpu.imeEnabled = false)
    (hhalt : s.cpu.isHalted = false) {Q : State Mem → Prop}
    (hQ : Leads flatBus.step Plain Q (flatView s)) :
    ∃ n, ∀ s', Turns Turn n s s' →
      ∃ t, Q t ∧ cpuOf s'.regs = t.cpu ∧ ∀ a, IsStored a → monitorRdMem s' a = t.env a := by
  obtain ⟨n, hn⟩ := hQ.follow runsFlat_turn ⟨h, runsFlat_flatView hime hhalt⟩
  refine ⟨n, fun s' hs' => ?_⟩
  obtain ⟨t, ht, hend⟩ := hn s' hs'
  exact ⟨t, ht, hend.2.cpu, hend.2.mem⟩

end RealBoy
