/-
# `RealBoy.Cpu.Interrupts` — the interrupt scan

`handle_intrs` walks the eight bits of a mask and changes IME, IF, the halt flag,
the stack and PC on the way.  It acts at most once for all that: where a bit
is pending it leaves IME and halt clear, and then nothing later matters
(`handleIntrs_eq`).  That needs the push to land in memory; a push onto IF or IE
is another matter.

Which bits can come up is a fact about runs: every writer of IF keeps to its low
five bits (`Reachable.ifLow`), so the `switch` of `process_intr` always has
its case.
-/
import RealBoy.Cpu.Stack
import RealBoy.Lib.Scan
import RealBoy.Ppu.Frame

namespace RealBoy

open Emu

/-! ## The bits of IF -/

theorem or_le_low {v m : U8} (hv : v ≤ 0x1f) (hm : m ≤ 0x1f) : v ||| m ≤ 0x1f := by
  have h : (v ||| m).toNat < 2 ^ 5 := by
    rw [BitVec.toNat_or]
    exact Nat.or_lt_two_pow (by bv_omega) (by bv_omega)
  bv_omega

theorem and_le_low {v : U8} (hv : v ≤ 0x1f) (m : U8) : v &&& m ≤ 0x1f := by
  have h : (v &&& m).toNat ≤ v.toNat := by
    rw [BitVec.toNat_and]
    exact Nat.and_le_left
  bv_omega

/-- IF has none but the five interrupts. -/
def IfLow (s : Emu) : Prop := s.cpu.ifReg ≤ 0x1f

theorem IfLow.request {s : Emu} (h : IfLow s) {im : U8} (him : im ≤ 0x1f) :
    IfLow (cpuRequestIntr im s) := or_le_low h him

theorem IfLow.cpuWr {s : Emu} (h : IfLow s) (addr : U16) (value : U8) :
    IfLow (cpuWr addr value s) := by
  have hmask : value &&& 0x1f ≤ 0x1f := by
    rw [BitVec.and_comm]
    exact and_le_low (by decide) value
  unfold RealBoy.cpuWr
  refine iteInduction (motive := IfLow) (fun _ => h) fun _ => ?_
  refine iteInduction (motive := IfLow) (fun _ => h) fun _ => ?_
  refine iteInduction (motive := IfLow) (fun _ => h) fun _ => ?_
  refine iteInduction (motive := IfLow) (fun _ => hmask) fun _ => ?_
  iterate 5 refine iteInduction (motive := IfLow) (fun _ => h) fun _ => ?_
  exact h

/-- A bus write stores no higher bit. -/
theorem ifLow_writeClosed : WriteClosed IfLow where
  call _ _ _ h := h
  cpu _ addr value h := h.cpuWr addr value
  ppu _ _ h := h
  mbc1 _ _ h := h
  ioreg _ _ h := h

theorem IfLow.monitorWrMem {s : Emu} (h : IfLow s) (addr : U16) (value : U8) :
    IfLow (monitorWrMem addr value s) := ifLow_writeClosed.monitorWrMem addr value h

theorem ifLow_closed : ScanClosed IfLow where
  regs _ _ h := h
  ime _ _ h := h
  halt _ h := h
  write _ addr value h := h.monitorWrMem addr value
  wake _ h := h
  acknowledge _ intrMask h := and_le_low h (~~~intrMask)

theorem IfLow.execInstr {s : Emu} (h : IfLow s) : IfLow (execInstr s).1 := by
  unfold RealBoy.execInstr
  split
  · exact h
  · show IfLow (opsTableDispatch _ _ _).1
    rw [dispatch_eq]
    exact ifLow_closed.handler (ifLow_closed.fetch h) _

theorem IfLow.advanceTima {s : Emu} (h : IfLow s) (cycles : Nat) : IfLow (advanceTima cycles s) := by
  have htick : IfLow (tickTima s) := by
    unfold tickTima
    dsimp only
    split
    · exact or_le_low h (by decide)
    · exact h
  unfold RealBoy.advanceTima
  split
  · split
    · exact htick
    · exact h
  · exact h

theorem ifLow_refreshClosed : RefreshClosed IfLow where
  ppu _ _ h := h
  request _ _ him h := h.request (BitVec.le_trans him (by decide))
  call _ _ _ h := h

/-! ## Reachable states -/

/-- The states of the emulator: a power-on, and then CPU steps, refreshes, bus
writes and keys in any order. -/
inductive Reachable : Emu → Prop where
  | powerOn (rom boot : Array U8) : Reachable (powerOn rom boot)
  | act {s : Emu} (a : Action) : Reachable s → Reachable (s.act a)
  | keys {s : Emu} (k : Keys) : Reachable s → Reachable { s with keys := k }

/-- The state `handle_intrs` is called in. -/
def beforeIntrs (s : Emu) : Emu :=
  advanceTima (execInstr s).2 (advanceDiv (execInstr s).2 (execInstr s).1)

theorem cpuExecNext_intrs (s : Emu) : (cpuExecNext s).1 = handleIntrs (beforeIntrs s) := rfl

theorem IfLow.beforeIntrs {s : Emu} (h : IfLow s) : IfLow (beforeIntrs s) :=
  IfLow.advanceTima (s := advanceDiv (RealBoy.execInstr s).2 (RealBoy.execInstr s).1) h.execInstr _

/-- **IF in every run.** -/
theorem Reachable.ifLow {s : Emu} (h : Reachable s) : IfLow s := by
  induction h with
  | powerOn rom boot => exact (by decide : (0 : U8) ≤ 0x1f)
  | act a _ ih =>
      cases a with
      | exec => exact ifLow_closed.handleIntrs ih.beforeIntrs
      | refresh ticks => exact ifLow_refreshClosed.ppuRefresh ih ticks
      | write addr value => exact ih.monitorWrMem addr value
  | keys k _ ih => exact ih

/-! ## The scan -/

/-- The interrupts that are requested and enabled. -/
def pending (s : Emu) : U8 := s.cpu.ifReg &&& s.cpu.ieReg

/-- The values of `intr_mask`. -/
def intrMasks : List U8 := (List.range 8).map fun i => (1 : U8) <<< i

/-- `handle_intrs` has something to do at this mask. -/
def actsOn (s : Emu) (m : U8) : Bool :=
  pending s &&& m != 0 && (s.cpu.imeEnabled || s.cpu.isHalted)

/-- It calls `process_intr` there. -/
def takes (s : Emu) (m : U8) : Bool := pending s &&& m != 0 && s.cpu.imeEnabled

/-- The arguments of the calls of `process_intr`, in order. -/
def intrCalls (s : Emu) : List U8 :=
  if s.cpu.imeEnabled || s.cpu.isHalted then Scan.calls intrStep takes s intrMasks else []

/-- The interrupt is acknowledged. -/
def acknowledge (m : U8) (s : Emu) : Emu :=
  s.updCpu fun c => { c with imeEnabled := false, ifReg := c.ifReg &&& ~~~m, isHalted := false }

/-- The halt flag is cleared. -/
def wake (s : Emu) : Emu := s.updCpu fun c => { c with isHalted := false }

theorem intrStep_eq (s : Emu) (m : U8) :
    intrStep s m =
      if pending s &&& m ≠ 0 then
        if s.cpu.imeEnabled then processIntr m (acknowledge m s) else wake s
      else s := rfl

theorem intrStep_of_takes {s : Emu} {m : U8} (h : takes s m = true) :
    intrStep s m = processIntr m (acknowledge m s) := by
  obtain ⟨hp, hime⟩ := (Bool.and_eq_true _ _).mp h
  rw [intrStep_eq, if_pos (bne_iff_ne.mp hp), if_pos hime]

theorem intrStep_of_masked {s : Emu} {m : U8} (hp : pending s &&& m ≠ 0)
    (hime : s.cpu.imeEnabled = false) : intrStep s m = wake s := by
  rw [intrStep_eq, if_pos hp, hime, if_neg Bool.false_ne_true]

theorem wake_of_running {s : Emu} (h : s.cpu.isHalted = false) : wake s = s := by
  show ({ s with cpu := { s.cpu with isHalted := false } } : Emu) = s
  rw [← h]

theorem intrStep_of_not_actsOn (s : Emu) (m : U8) (h : actsOn s m = false) : intrStep s m = s := by
  rcases Bool.and_eq_false_iff.mp h with hp | hidle
  · rw [intrStep_eq, if_neg (not_not.mpr (bne_eq_false_iff_eq.mp hp))]
  · obtain ⟨hime, hhalt⟩ := (Bool.or_eq_false_iff ..).mp hidle
    by_cases hp : pending s &&& m ≠ 0
    · rw [intrStep_of_masked hp hime, wake_of_running hhalt]
    · rw [intrStep_eq, if_neg hp]

/-- A dispatch into memory. -/
theorem processIntr_spec {s : Emu} (m : U8) (h₁ : IsMemory (s.regs.sp - 1))
    (h₂ : IsMemory (s.regs.sp - 2)) :
    (processIntr m s).regs = { s.regs with
        sp := s.regs.sp - 2, pc := (interruptHandlerAddr m).getD 0 } ∧
      (processIntr m s).cpu = s.cpu ∧ Stores s.regs.pc s (processIntr m s) := by
  have hpush := push_spec h₁ h₂ (f := fun s => s.regs.pc) (v := s.regs.pc) fun s' hs' => by
    rw [hs']
  have hjump {s' : Emu} (hregs : s'.regs = { s.regs with sp := s.regs.sp - 2 }) (addr : U16) :
      (setPc addr s').regs = { s.regs with sp := s.regs.sp - 2, pc := addr } := by
    show ({ s'.regs with pc := addr } : Registers) = _
    rw [hregs]
  have hkeep {s' : Emu} (hcpu : s'.cpu = s.cpu) (addr : U16) : (setPc addr s').cpu = s.cpu := hcpu
  exact ⟨hjump hpush.1 _, hkeep hpush.2.1 _, (push_pc_stores h₁ h₂).setPc _⟩

/-- Acting on a mask leaves nothing to act on. -/
theorem intrStep_quiet {s : Emu} (h : s.cpu.imeEnabled = true →
      IsMemory (s.regs.sp - 1) ∧ IsMemory (s.regs.sp - 2)) (m : U8) (hm : actsOn s m = true)
    (n : U8) : actsOn (intrStep s m) n = false := by
  have quiet {s' : Emu} (hime : s'.cpu.imeEnabled = false) (hhalt : s'.cpu.isHalted = false) :
      actsOn s' n = false := by
    rw [actsOn, hime, hhalt, Bool.or_false, Bool.and_false]
  obtain ⟨hp, -⟩ := (Bool.and_eq_true _ _).mp hm
  cases hime : s.cpu.imeEnabled with
  | true =>
      have htakes : takes s m = true := by rw [takes, hp, hime, Bool.and_true]
      obtain ⟨-, hcpu, -⟩ := processIntr_spec (s := acknowledge m s) m (h hime).1 (h hime).2
      rw [intrStep_of_takes htakes]
      exact quiet (congrArg CpuState.imeEnabled hcpu) (congrArg CpuState.isHalted hcpu)
  | false =>
      rw [intrStep_of_masked (bne_iff_ne.mp hp) hime]
      exact quiet hime rfl

/-- The least set bit. -/
structure LowestBit (p : U8) (b : Nat) : Prop where
  set : p.getLsbD b = true
  clear : ∀ j < b, p.getLsbD j = false

theorem and_mask_bne (p : U8) {i : Nat} (hi : i < 8) :
    (p &&& (1 : U8) <<< i != 0) = p.getLsbD i := by
  have hne : BitVec.twoPow 8 i ≠ 0 := by
    have : ∀ i < 8, BitVec.twoPow 8 i ≠ 0 := by decide
    exact this i hi
  show (p &&& BitVec.twoPow 8 i != 0) = p.getLsbD i
  rw [BitVec.and_twoPow]
  cases p.getLsbD i with
  | true => exact bne_iff_ne.mpr hne
  | false => rfl

theorem find_intrMasks (p : U8) (hp : p ≠ 0) :
    ∃ b, LowestBit p b ∧ (intrMasks.find? fun m => p &&& m != 0) = some ((1 : U8) <<< b) := by
  rw [intrMasks, List.find?_map]
  cases h : (List.range 8).find? ((fun m => p &&& m != 0) ∘ fun i => (1 : U8) <<< i) with
  | none =>
      refine absurd (BitVec.eq_of_getLsbD_eq fun i hi => ?_) hp
      have := List.find?_range_eq_none.mp h i hi
      rw [Function.comp_apply, and_mask_bne p hi, Bool.not_eq_true'] at this
      exact this.trans BitVec.getLsbD_zero.symm
  | some b =>
      obtain ⟨hset, hb, hclear⟩ := List.find?_range_eq_some.mp h
      have hb := List.mem_range.mp hb
      refine ⟨b, ⟨?_, fun j hj => ?_⟩, rfl⟩
      · rwa [Function.comp_apply, and_mask_bne p hb] at hset
      · have := hclear j hj
        rwa [Function.comp_apply, and_mask_bne p (hj.trans hb), Bool.not_eq_true'] at this

/-- **The scan is one step.** -/
theorem handleIntrs_eq {s : Emu} (h : s.cpu.imeEnabled = true →
      IsMemory (s.regs.sp - 1) ∧ IsMemory (s.regs.sp - 2)) :
    handleIntrs s = (intrMasks.find? (actsOn s)).elim s (intrStep s) ∧
      intrCalls s = (intrMasks.find? (actsOn s)).toList.filter (takes s) := by
  have hquiet := intrStep_quiet h
  have hcall (s : Emu) (m : U8) (h : actsOn s m = false) : takes s m = false := by
    rcases Bool.and_eq_false_iff.mp h with hp | hidle
    · rw [takes, hp, Bool.false_and]
    · rw [takes, ((Bool.or_eq_false_iff ..).mp hidle).1, Bool.and_false]
  have hfold := Scan.foldl_first intrStep_of_not_actsOn hquiet intrMasks
  have hcalls := Scan.calls_first intrStep_of_not_actsOn hcall hquiet intrMasks
  unfold handleIntrs intrCalls
  cases hg : s.cpu.imeEnabled || s.cpu.isHalted with
  | true =>
      rw [if_pos rfl, if_pos rfl, ← hfold, ← hcalls, intrMasks, List.foldl_map]
      exact ⟨rfl, rfl⟩
  | false =>
      have hnone : intrMasks.find? (actsOn s) = none := by
        refine List.find?_eq_none.mpr fun m _ => ?_
        rw [actsOn, hg, Bool.and_false]
        exact Bool.false_ne_true
      rw [hnone]
      exact ⟨rfl, rfl⟩

theorem find_actsOn {s : Emu} (h : (s.cpu.imeEnabled || s.cpu.isHalted) = true) :
    intrMasks.find? (actsOn s) = intrMasks.find? fun m => pending s &&& m != 0 := by
  congr 1
  funext m
  rw [actsOn, h, Bool.and_true]

/-- Without IME the scan wakes the CPU. -/
theorem handleIntrs_masked {s : Emu} (hime : s.cpu.imeEnabled = false) :
    intrCalls s = [] ∧ handleIntrs s =
      s.updCpu fun c => { c with isHalted := c.isHalted && pending s == 0 } := by
  obtain ⟨hscan, hcalls⟩ := handleIntrs_eq (s := s) fun h => nomatch hime.symm.trans h
  have hnone : takes s = fun _ => false := by
    funext m
    rw [takes, hime, Bool.and_false]
  refine ⟨?_, ?_⟩
  · rw [hcalls, hnone, List.filter_false]
  rw [hscan]
  have same {b : Bool} (hb : s.cpu.isHalted = b) :
      (s.updCpu fun c => { c with isHalted := b }) = s := by
    show ({ s with cpu := { s.cpu with isHalted := b } } : Emu) = s
    rw [← hb]
  show _ = s.updCpu fun c => { c with isHalted := s.cpu.isHalted && pending s == 0 }
  cases hhalt : s.cpu.isHalted with
  | false =>
      have hidle (m : U8) : actsOn s m = false := by
        rw [actsOn, hime, hhalt, Bool.or_false, Bool.and_false]
      rw [List.find?_eq_none.mpr fun m _ => Bool.not_eq_true _ ▸ hidle m, Bool.false_and, same hhalt]
      rfl
  | true =>
      rw [find_actsOn (by rw [hhalt, Bool.or_true]), Bool.true_and]
      by_cases hp : pending s = 0
      · have hzero : (fun m => pending s &&& m != 0) = fun _ : U8 => false := by
          funext m
          rw [hp]
          exact bne_eq_false_iff_eq.mpr BitVec.zero_and
        rw [hzero, hp, beq_self_eq_true, same hhalt]
        rfl
      · obtain ⟨b, _, hfind⟩ := find_intrMasks (pending s) hp
        rw [hfind, beq_false_of_ne hp]
        have hbit := List.find?_some (p := fun m => pending s &&& m != 0) hfind
        exact intrStep_of_masked (bne_iff_ne.mp hbit) hime

/-! ## Dispatch -/

/-- The interrupt of bit `b` has been taken. -/
structure Dispatched (b : Nat) (t t' : Emu) : Prop where
  regs : t'.regs = { t.regs with sp := t.regs.sp - 2, pc := 0x40 + 8 * BitVec.ofNat 16 b }
  low : monitorRdMem t' (t.regs.sp - 2) = t.regs.pc.extractLsb' 0 8
  high : monitorRdMem t' (t.regs.sp - 1) = t.regs.pc.extractLsb' 8 8
  cpu : t'.cpu = { t.cpu with
    ifReg := t.cpu.ifReg &&& ~~~((1 : U8) <<< b), imeEnabled := false, isHalted := false }

theorem interruptHandlerAddr_bit {b : Nat} (h : b < 5) :
    interruptHandlerAddr ((1 : U8) <<< b) = some (0x40 + 8 * BitVec.ofNat 16 b) := by
  have : ∀ b < 5, interruptHandlerAddr ((1 : U8) <<< b) = some (0x40 + 8 * BitVec.ofNat 16 b) := by decide
  exact this b h

theorem lt_of_getLsbD {v : U8} {b : Nat} (hset : v.getLsbD b = true) (hv : v ≤ 0x1f) : b < 5 := by
  by_contra hb
  have hlt : v.toNat < 2 ^ 5 := by bv_omega
  have hset : v.toNat.testBit b = true := hset
  rw [Nat.testBit_lt_two_pow (hlt.trans_le (Nat.pow_le_pow_right (by omega) (by omega)))] at hset
  exact Bool.false_ne_true hset

/-- **With IME one interrupt is taken**, the one of the lowest bit. -/
theorem handleIntrs_dispatch {s : Emu} (hlow : IfLow s) (hime : s.cpu.imeEnabled = true)
    (hp : pending s ≠ 0) (h₁ : IsMemory (s.regs.sp - 1)) (h₂ : IsMemory (s.regs.sp - 2)) :
    ∃ b, LowestBit (pending s) b ∧ intrCalls s = [(1 : U8) <<< b] ∧ Dispatched b s (handleIntrs s) := by
  obtain ⟨hscan, hcalls⟩ := handleIntrs_eq fun _ => ⟨h₁, h₂⟩
  obtain ⟨b, hb, hfind⟩ := find_intrMasks (pending s) hp
  have hlt : b < 5 := lt_of_getLsbD hb.set (and_le_low hlow _)
  rw [find_actsOn (by rw [hime, Bool.true_or]), hfind] at hscan hcalls
  have htakes : takes s ((1 : U8) <<< b) = true := by
    rw [takes, hime, Bool.and_true]
    exact List.find?_some (p := fun m => pending s &&& m != 0) hfind
  refine ⟨b, hb, ?_, ?_⟩
  · rw [hcalls, Option.toList_some, List.filter_cons_of_pos htakes, List.filter_nil]
  obtain ⟨hregs, hcpu, -, hread⟩ := processIntr_spec (s := acknowledge ((1 : U8) <<< b) s)
    ((1 : U8) <<< b) h₁ h₂
  have hsp : (acknowledge ((1 : U8) <<< b) s).regs = s.regs := rfl
  rw [hsp] at hregs hread
  rw [hscan, Option.elim_some, intrStep_of_takes htakes]
  refine ⟨?_, ?_, ?_, hcpu⟩
  · rw [hregs, interruptHandlerAddr_bit hlt]
    rfl
  · rw [hread, if_neg (by bv_omega), if_pos rfl]
  · rw [hread, if_pos rfl]

/-- The `switch` of `process_intr` has a case for every call. -/
theorem interruptHandlerAddr_isSome {s : Emu} (h : IfLow s) {m : U8} (hm : m ∈ intrCalls s) :
    (interruptHandlerAddr m).isSome := by
  have hcalls : m ∈ Scan.calls intrStep takes s intrMasks := by
    unfold intrCalls at hm
    split at hm
    · exact hm
    · exact absurd hm List.not_mem_nil
  obtain ⟨hmem, s', hlow, htakes⟩ := Scan.calls_inv (I := IfLow)
    (fun _ m hs => ifLow_closed.intrStep hs m) h hcalls
  obtain ⟨i, hi, rfl⟩ := List.mem_map.mp hmem
  have hi := List.mem_range.mp hi
  have hset := ((Bool.and_eq_true _ _).mp htakes).1
  rw [and_mask_bne _ hi] at hset
  rw [interruptHandlerAddr_bit (lt_of_getLsbD hset (and_le_low hlow _))]
  rfl

/-- **Interrupt dispatch**, in every run. -/
theorem interrupt_dispatch (s : Emu) (h : Reachable s) :
    s.cpu.ifReg ≤ 0x1f ∧
      (∀ m ∈ intrCalls (beforeIntrs s), (interruptHandlerAddr m).isSome) ∧
      ((beforeIntrs s).cpu.imeEnabled = false →
        intrCalls (beforeIntrs s) = [] ∧ (cpuExecNext s).1 = (beforeIntrs s).updCpu fun c =>
          { c with isHalted := c.isHalted && pending (beforeIntrs s) == 0 }) ∧
      (IsMemory ((beforeIntrs s).regs.sp - 1) → IsMemory ((beforeIntrs s).regs.sp - 2) →
        ((beforeIntrs s).cpu.imeEnabled = true → pending (beforeIntrs s) ≠ 0 →
          ∃ b, LowestBit (pending (beforeIntrs s)) b ∧ intrCalls (beforeIntrs s) = [(1 : U8) <<< b] ∧
            Dispatched b (beforeIntrs s) (cpuExecNext s).1) ∧
        ((cpuExecNext s).1.cpu.imeEnabled = true ∨ (cpuExecNext s).1.cpu.isHalted = true →
          pending (beforeIntrs s) = 0)) := by
  have hlow : IfLow (beforeIntrs s) := h.ifLow.beforeIntrs
  rw [cpuExecNext_intrs]
  generalize beforeIntrs s = t at hlow ⊢
  refine ⟨h.ifLow, fun m hm => interruptHandlerAddr_isSome hlow hm, handleIntrs_masked,
    fun h₁ h₂ => ⟨fun hime hp => handleIntrs_dispatch hlow hime hp h₁ h₂, fun hafter => ?_⟩⟩
  by_contra hp
  cases hime : t.cpu.imeEnabled with
  | true =>
      obtain ⟨b, -, -, hd⟩ := handleIntrs_dispatch hlow hime hp h₁ h₂
      rw [hd.cpu] at hafter
      exact hafter.elim nofun nofun
  | false =>
      rw [(handleIntrs_masked hime).2] at hafter
      rcases hafter with hafter | hafter
      · exact nomatch hime.symm.trans hafter
      · exact hp (beq_iff_eq.mp ((Bool.and_eq_true _ _).mp hafter).2)

/-- LD SP,0xfffe has been executed, EI is next, and a VBlank interrupt is
requested and enabled. -/
def eiNext : Emu :=
  (powerOn #[] #[0x31, 0xfe, 0xff, 0xfb]).run [.write 0xffff 0x1, .write 0xff0f 0x1, .exec]

/-- The interrupt is taken in the step of EI. -/
theorem interrupt_dispatch_ei :
    ∃ b, LowestBit (pending (beforeIntrs eiNext)) b ∧
      intrCalls (beforeIntrs eiNext) = [(1 : U8) <<< b] ∧
      Dispatched b (beforeIntrs eiNext) (cpuExecNext eiNext).1 := by
  have hstart : Reachable (powerOn #[] #[0x31, 0xfe, 0xff, 0xfb]) := .powerOn _ _
  have hreach : Reachable eiNext :=
    ((hstart.act (.write 0xffff 0x1)).act (.write 0xff0f 0x1)).act .exec
  have h := (interrupt_dispatch eiNext hreach).2.2.2 (by decide +kernel) (by decide +kernel)
  exact h.1 (by decide +kernel) (by decide +kernel)

end RealBoy
