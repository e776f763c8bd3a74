/-
# `RealBoy.Cpu.Stack` — the stack in memory

`push_spec` is the one fact about a push: in memory it stores the word at SP - 2,
low byte first, and changes nothing else.  With it the words between SP and
where it began are a stack (`Holds`), the handlers that push and pop refine
it, and well-nested runs of them are last in, first out (`stack_discipline`).
-/
import RealBoy.Cpu.Cycles
import RealBoy.Cpu.Frame
import RealBoy.Emu.Cells
import RealBoy.Lib.Nesting

namespace RealBoy

open Emu

/-! ## One push -/

/-- The two bytes of a word. -/
theorem word_bytes (v : U16) : v.extractLsb' 8 8 ++ v.extractLsb' 0 8 = v :=
  @BitVec.extractLsb'_append_extractLsb' 8 8 v

theorem addReg16_sp (x : U16) (s : Emu) :
    (addReg16 .sp x s).regs = { s.regs with sp := s.regs.sp + x } ∧
      (addReg16 .sp x s).cpu = s.cpu ∧
      ∀ b, monitorRdMem (addReg16 .sp x s) b = monitorRdMem s b :=
  ⟨rfl, rfl, fun _ => rfl⟩

/-- **A push into memory.** -/
theorem push_spec {s : Emu} {f : Emu → U16} {v : U16} (h₁ : IsMemory (s.regs.sp - 1))
    (h₂ : IsMemory (s.regs.sp - 2))
    (hv : ∀ s', s'.regs = { s.regs with sp := s.regs.sp - 2 } → f s' = v) :
    (push f s).regs = { s.regs with sp := s.regs.sp - 2 } ∧ (push f s).cpu = s.cpu ∧
      ∀ b, monitorRdMem (push f s) b =
        if b = s.regs.sp - 1 then v.extractLsb' 8 8
        else if b = s.regs.sp - 2 then v.extractLsb' 0 8
        else monitorRdMem s b := by
  have hhigh : s.regs.sp - 2 + 1 = s.regs.sp - 1 := by bv_omega
  -- the stack pointer moves first
  obtain ⟨hmove, hcpu, hread⟩ := addReg16_sp (-2) s
  rw [← BitVec.sub_eq_add_neg] at hmove
  rw [push]
  generalize addReg16 .sp (-2) s = m at hmove hcpu hread ⊢
  have hlow := monitorWrMem_regs h₂ (v.extractLsb' 0 8) m
  have hwr : wrWord (fun s => s.regs.sp) f m = monitorWrMem (s.regs.sp - 1)
      (v.extractLsb' 8 8) (monitorWrMem (s.regs.sp - 2) (v.extractLsb' 0 8) m) := by
    rw [wrWord, hv _ hmove, hmove, hv _ (hlow.1.trans hmove), hlow.1, hmove, hhigh]
  rw [hwr]
  have hhigh := monitorWrMem_regs h₁ (v.extractLsb' 8 8)
    (monitorWrMem (s.regs.sp - 2) (v.extractLsb' 0 8) m)
  refine ⟨hhigh.1.trans (hlow.1.trans hmove), hhigh.2.trans (hlow.2.trans hcpu), fun b => ?_⟩
  rw [monitorRdMem_monitorWrMem h₁, monitorRdMem_monitorWrMem h₂, hread]

/-! ## Pushes and pops -/

/-- What puts a word on the stack; the opcode has been fetched. -/
inductive Pushes : U16 → Emu → Emu → Prop where
  | push {op : U8} {rr : Sm83.StackPair} {s : Emu} : Sm83.decode op = .push rr →
      Pushes (s.regs.get16 (stackPairOf rr)) s (opsTableDispatch op false s).1
  | call {op : U8} {cc : Option Sm83.Cond} {s : Emu} : Sm83.decode op = .call cc →
      Sm83.condTaken s.regs.f cc = true →
      Pushes (s.regs.pc + 2) s (opsTableDispatch op false s).1
  | rst {op : U8} {n : Nat} {s : Emu} : Sm83.decode op = .rst n →
      Pushes s.regs.pc s (opsTableDispatch op false s).1
  | intr {bit : U8} {s : Emu} : Pushes s.regs.pc s (processIntr bit s)

/-- What a pop leaves in its register. -/
inductive Popped where
  | word (w : U16)
  | af (w : U16)

/-- What takes a word off the stack. -/
inductive Pops : Popped → Emu → Emu → Prop where
  | pop {op : U8} {rr : Sm83.StackPair} {s : Emu} : Sm83.decode op = .pop rr → rr ≠ .af →
      Pops (.word ((opsTableDispatch op false s).1.regs.get16 (stackPairOf rr))) s
        (opsTableDispatch op false s).1
  | popAf {op : U8} {s : Emu} : Sm83.decode op = .pop .af →
      Pops (.af ((opsTableDispatch op false s).1.regs.get16 .af)) s
        (opsTableDispatch op false s).1
  | ret {op : U8} {cc : Option Sm83.Cond} {s : Emu} : Sm83.decode op = .ret cc →
      Sm83.condTaken s.regs.f cc = true →
      Pops (.word (opsTableDispatch op false s).1.regs.pc) s (opsTableDispatch op false s).1
  | reti {op : U8} {s : Emu} : Sm83.decode op = .reti →
      Pops (.word (opsTableDispatch op false s).1.regs.pc) s (opsTableDispatch op false s).1

/-- What popping the word `v` is to leave: the word, but for AF without the low
nibble of F. -/
def Delivers (v : U16) : Popped → Prop
  | .word w => w = v
  | .af w => w = v &&& 0xfff0

/-- The word `v` has gone on the stack. -/
structure Stores (v : U16) (s m : Emu) : Prop where
  sp : m.regs.sp = s.regs.sp - 2
  read : ∀ b, monitorRdMem m b =
    if b = s.regs.sp - 1 then v.extractLsb' 8 8
    else if b = s.regs.sp - 2 then v.extractLsb' 0 8
    else monitorRdMem s b

theorem push_stores {s : Emu} {f : Emu → U16} {v : U16} (h₁ : IsMemory (s.regs.sp - 1))
    (h₂ : IsMemory (s.regs.sp - 2))
    (hv : ∀ s', s'.regs = { s.regs with sp := s.regs.sp - 2 } → f s' = v) :
    Stores v s (push f s) :=
  have h := push_spec h₁ h₂ hv
  ⟨congrArg Registers.sp h.1, h.2.2⟩

theorem Stores.setPc {v : U16} {s m : Emu} (h : Stores v s m) (addr : U16) :
    Stores v s (setPc addr m) :=
  ⟨h.sp, h.read⟩

theorem Stores.advancePc {v x : U16} {s m : Emu} (h : Stores v (advancePc x s) m) :
    Stores v s m :=
  ⟨h.sp, h.read⟩

theorem push_pc_stores {s : Emu} (h₁ : IsMemory (s.regs.sp - 1)) (h₂ : IsMemory (s.regs.sp - 2)) :
    Stores s.regs.pc s (push (fun s => s.regs.pc) s) :=
  push_stores h₁ h₂ fun s' hs' => by rw [hs']

theorem opPushReg_stores {s : Emu} (h₁ : IsMemory (s.regs.sp - 1))
    (h₂ : IsMemory (s.regs.sp - 2)) (rr : Sm83.StackPair) :
    Stores (s.regs.get16 (stackPairOf rr)) s (opPushReg (stackPairOf rr) s).1 := by
  unfold opPushReg
  dsimp only
  refine push_stores h₁ h₂ (fun s' hs' => ?_)
  rw [hs']
  cases rr <;> rfl

theorem opCallA16_stores {s : Emu} (h₁ : IsMemory (s.regs.sp - 1))
    (h₂ : IsMemory (s.regs.sp - 2)) : Stores (s.regs.pc + 2) s (opCallA16 s).1 := by
  have h := push_pc_stores (s := advancePc 2 s) h₁ h₂
  exact h.advancePc.setPc _

/-- A dispatch outside the 0xcb half of the table. -/
theorem dispatch_of_decode {op : U8} {i : Sm83.Instr} (h : Sm83.decode op = i) (s : Emu) :
    opsTableDispatch op false s = handler i s := by
  rw [dispatch_eq, instrOf, if_neg Bool.false_ne_true, h]

/-- Every push stores its word. -/
theorem Pushes.stores {v : U16} {s m : Emu} (h : Pushes v s m) (h₁ : IsMemory (s.regs.sp - 1))
    (h₂ : IsMemory (s.regs.sp - 2)) : Stores v s m := by
  have hpc := push_pc_stores h₁ h₂
  cases h with
  | @push op rr _ hop =>
      rw [dispatch_of_decode hop]
      exact opPushReg_stores h₁ h₂ rr
  | @call op cc _ hop htaken =>
      rw [dispatch_of_decode hop]
      cases cc with
      | none => exact opCallA16_stores h₁ h₂
      | some cc =>
          have htaken : cc.holds s.regs.f = true := htaken
          rw [handler, opCallCond, condOf_eq, if_pos htaken]
          exact opCallA16_stores h₁ h₂
  | rst hop =>
      rw [dispatch_of_decode hop]
      exact hpc.setPc _
  | intr => exact hpc.setPc _

/-- What a pop does: SP moves up, and the word that was below it arrives. -/
structure Loads (p : Popped) (s m : Emu) : Prop where
  sp : m.regs.sp = s.regs.sp + 2
  read : ∀ b, monitorRdMem m b = monitorRdMem s b
  word : Delivers (rdWord s s.regs.sp) p

theorem doRet_loads (s : Emu) : Loads (.word (doRet s).regs.pc) s (doRet s) :=
  ⟨rfl, fun _ => rfl, rfl⟩

/-- The low nibble of F is no part of a word that went through AF. -/
theorem and_fff0 (v : U16) : v.extractLsb' 8 8 ++ (v.extractLsb' 0 8 &&& 0xf0) = v &&& 0xfff0 := by
  have hmask : (0xfff0 : U16) = BitVec.allOnes 8 ++ (0xf0 : U8) := rfl
  conv_rhs => rw [← word_bytes v, hmask, BitVec.and_append, BitVec.and_allOnes]

theorem and_fff0_of_low {v : U16} (h : v &&& 0xf = 0) : v &&& 0xfff0 = v := by
  have hall : (0xfff0 : U16) ||| 0xf = BitVec.allOnes 16 := rfl
  calc v &&& 0xfff0 = (v &&& 0xfff0) ||| (v &&& 0xf) := by rw [h]; exact BitVec.or_zero.symm
    _ = v &&& (0xfff0 ||| 0xf) := (BitVec.and_or_distrib_left ..).symm
    _ = v := by rw [hall, BitVec.and_allOnes]

theorem opPopReg_loads {reg : Reg16} (h : reg ≠ .sp) (s : Emu) :
    Loads (.word ((opPopReg reg s).1.regs.get16 reg)) s (opPopReg reg s).1 := by
  cases reg with
  | sp => exact absurd rfl h
  | pc => exact ⟨rfl, fun _ => rfl, rfl⟩
  | af | bc | de | hl => exact ⟨rfl, fun _ => rfl, word_bytes _⟩

theorem opPopAf_loads (s : Emu) :
    Loads (.af ((opPopAf s).1.regs.get16 .af)) s (opPopAf s).1 :=
  ⟨rfl, fun _ => rfl, and_fff0 _⟩

/-- Every pop loads its word. -/
theorem Pops.loads {p : Popped} {s m : Emu} (h : Pops p s m) : Loads p s m := by
  cases h with
  | @pop op rr _ hop hrr =>
      rw [dispatch_of_decode hop]
      cases rr with
      | af => exact absurd rfl hrr
      | bc => exact @opPopReg_loads .bc nofun s
      | de => exact @opPopReg_loads .de nofun s
      | hl => exact @opPopReg_loads .hl nofun s
  | popAf hop =>
      rw [dispatch_of_decode hop]
      exact opPopAf_loads s
  | @ret op cc _ hop htaken =>
      rw [dispatch_of_decode hop]
      cases cc with
      | none => exact doRet_loads s
      | some cc =>
          have htaken : cc.holds s.regs.f = true := htaken
          rw [handler, opRetCond, condOf_eq, if_pos htaken]
          exact doRet_loads s
  | reti hop =>
      rw [dispatch_of_decode hop]
      exact ⟨rfl, fun _ => rfl, rfl⟩

/-! ## The words below where SP began -/

section
variable {sp₀ : U16}

/-- SP with `n` words on the stack. -/
def slot (sp₀ : U16) (n : Nat) : U16 := sp₀ - BitVec.ofNat 16 (2 * n)

theorem slot_succ (sp₀ : U16) (n : Nat) : slot sp₀ (n + 1) = slot sp₀ n - 2 := by
  unfold slot
  bv_omega

/-- Memory holds these words, the last one pushed first. -/
def Holds (sp₀ : U16) : List U16 → Emu → Prop
  | [], _ => True
  | v :: st, s => rdWord s (slot sp₀ (st.length + 1)) = v ∧ Holds sp₀ st s

/-- The stack is these words. -/
structure Stacked (sp₀ : U16) (st : List U16) (s : Emu) : Prop where
  sp : s.regs.sp = slot sp₀ st.length
  holds : Holds sp₀ st s

/-- Between pushes and pops, with `n` words on the stack: SP stays, and so does
what the `2 * n` bytes under its first value read as. -/
structure Spares (sp₀ : U16) (n : Nat) (s m : Emu) : Prop where
  sp : m.regs.sp = s.regs.sp
  read : ∀ i, 1 ≤ i → i ≤ 2 * n →
    monitorRdMem m (sp₀ - BitVec.ofNat 16 i) = monitorRdMem s (sp₀ - BitVec.ofNat 16 i)

theorem Holds.congr {st : List U16} {s m : Emu} (hread : ∀ i, 1 ≤ i → i ≤ 2 * st.length →
    monitorRdMem m (sp₀ - BitVec.ofNat 16 i) = monitorRdMem s (sp₀ - BitVec.ofNat 16 i))
    (h : Holds sp₀ st s) : Holds sp₀ st m := by
  induction st with
  | nil => exact trivial
  | cons v st ih =>
      rw [List.length_cons] at hread
      refine ⟨?_, ih (fun i h₁ hi => hread i h₁ (by omega)) h.2⟩
      have hlow := hread (2 * (st.length + 1)) (by omega) (le_refl _)
      have hhigh := hread (2 * (st.length + 1) - 1) (by omega) (by omega)
      have haddr : slot sp₀ (st.length + 1) + 1 =
          sp₀ - BitVec.ofNat 16 (2 * (st.length + 1) - 1) := by
        unfold slot
        bv_omega
      rw [← h.1, rdWord, rdWord, haddr, hhigh, slot, hlow]

/-- The steps of a program with its stack below `sp₀`, `d` bytes of it at most. -/
def stackMachine (sp₀ : U16) (d : Nat) : Nesting.Machine Emu U16 Popped where
  push n v s m := 2 * (n + 1) ≤ d ∧ Pushes v s m
  pop := Pops
  other := Spares sp₀

variable {d : Nat} (hmem : ∀ i, 1 ≤ i → i ≤ d → IsMemory (sp₀ - BitVec.ofNat 16 i))

include hmem

/-- The bytes of the stack are fewer than there are addresses: 0 is ROM. -/
theorem depth_lt : d < 0x10000 := by
  by_contra hd
  have zero (i : Nat) (h₁ : 1 ≤ i) (hi : i ≤ d) (h0 : sp₀ - BitVec.ofNat 16 i = 0) : False := by
    have h := hmem i h₁ hi
    rw [h0] at h
    exact absurd h (by decide)
  by_cases hsp : sp₀ = 0
  · exact zero 0x10000 (by omega) (by omega) (by rw [hsp]; rfl)
  · refine zero sp₀.toNat ?_ (by omega) (by bv_omega)
    have : sp₀.toNat ≠ 0 := fun h => hsp (BitVec.eq_of_toNat_eq h)
    omega

theorem Stacked.push {st : List U16} {v : U16} {s m : Emu} (hs : Stacked sp₀ st s)
    (hd : 2 * (st.length + 1) ≤ d) (h : Pushes v s m) : Stacked sp₀ (v :: st) m := by
  have hlt := depth_lt hmem
  have h₁ : IsMemory (s.regs.sp - 1) := by
    have := hmem (2 * st.length + 1) (by omega) (by omega)
    rwa [show sp₀ - BitVec.ofNat 16 (2 * st.length + 1) = s.regs.sp - 1 by
      rw [hs.sp, slot]; bv_omega] at this
  have h₂ : IsMemory (s.regs.sp - 2) := by
    have := hmem (2 * st.length + 2) (by omega) (by omega)
    rwa [show sp₀ - BitVec.ofNat 16 (2 * st.length + 2) = s.regs.sp - 2 by
      rw [hs.sp, slot]; bv_omega] at this
  obtain ⟨hsp, hread⟩ := h.stores h₁ h₂
  have hslot : slot sp₀ (st.length + 1) = s.regs.sp - 2 := by rw [slot_succ, ← hs.sp]
  refine ⟨hsp.trans hslot.symm, ?_, hs.holds.congr fun i h₁ hi => ?_⟩
  · rw [hslot, rdWord, hread, if_pos (by bv_omega), hread, if_neg (by bv_omega), if_pos rfl,
      word_bytes]
  · -- the two new bytes are below the live ones
    rw [hread, hs.sp, slot, if_neg (by bv_omega), if_neg (by bv_omega)]

omit hmem in
theorem Stacked.pop {st : List U16} {v : U16} {p : Popped} {s m : Emu}
    (hs : Stacked sp₀ (v :: st) s) (h : Pops p s m) : Stacked sp₀ st m ∧ Delivers v p := by
  obtain ⟨hsp, hread, hword⟩ := h.loads
  have hs_sp : s.regs.sp = slot sp₀ (st.length + 1) := hs.sp
  refine ⟨⟨?_, hs.holds.2.congr fun i _ _ => hread _⟩, ?_⟩
  · rw [hsp, hs_sp, slot_succ]
    bv_omega
  · rwa [hs_sp, hs.holds.1] at hword

/-- **The handlers refine the stack.** -/
theorem stack_refines : Nesting.Refines (stackMachine sp₀ d) (Stacked sp₀) Delivers where
  push _ _ _ _ hs h := hs.push hmem h.1 h.2
  pop _ _ _ _ _ hs h := hs.pop h
  other _ _ _ hs h := ⟨h.sp.trans hs.sp, hs.holds.congr h.read⟩

end

/-! ## Between pushes and pops -/

/-- Every byte of RAM that the run to `s` did not write since `s₀` reads the same. -/
def RamKept (s₀ s : Emu) : Prop :=
  ∃ es, s.events = s₀.events ++ es ∧
    ∀ b, IsRam b → (∀ v, .monitorWrMem b v ∉ es) → monitorRdMem s b = monitorRdMem s₀ b

theorem RamKept.refl (s : Emu) : RamKept s s := ⟨[], (List.append_nil _).symm, fun _ _ _ => rfl⟩

theorem RamKept.snoc {s₀ s s' : Emu} (h : RamKept s₀ s) {e : Event}
    (he : s'.events = s.events ++ [e])
    (hread : ∀ b, IsRam b → (∀ v, e ≠ .monitorWrMem b v) → monitorRdMem s' b = monitorRdMem s b) :
    RamKept s₀ s' := by
  obtain ⟨es, hes, hkept⟩ := h
  refine ⟨es ++ [e], by rw [he, hes, List.append_assoc], fun b hb hn => ?_⟩
  have hlast (v : U8) : e ≠ .monitorWrMem b v := fun he =>
    hn v (List.mem_append_right _ (List.mem_singleton.mpr he.symm))
  exact (hread b hb hlast).trans (hkept b hb fun v hv => hn v (List.mem_append_left _ hv))

theorem RamKept.monitorWrMem {s₀ s : Emu} (h : RamKept s₀ s) (addr : U16) (value : U8) :
    RamKept s₀ (monitorWrMem addr value s) := by
  refine monitorWrMem_induct (fun s value hs => hs.snoc rfl fun b hb _ => hb.congr rfl rfl)
    (fun s addr value hdma hs => ?_) addr value s h
  have hw := monitorWrMem_cases addr value s
  refine hs.snoc (hw.events hdma) fun b hb hn => ?_
  by_cases ha : IsRam addr
  · have hne : b ≠ addr := fun he => hn value (he ▸ rfl)
    rw [monitorRdMem_monitorWrMem ha.memory, if_neg hne]
  · obtain ⟨hwram, hhram⟩ := hw.ram ha hdma
    exact hb.congr hwram hhram

theorem ramKept_closed (s₀ : Emu) : CpuClosed (RamKept s₀) where
  regs _ _ h := h
  cpu s c _ h := by
    obtain ⟨es, hes, hkept⟩ := h
    refine ⟨es, hes, fun b hb hn => ?_⟩
    have hsame : monitorRdMem { s with cpu := c } b = monitorRdMem s b := hb.congr rfl rfl
    exact hsame.trans (hkept b hb hn)
  write _ _ _ h := h.monitorWrMem _ _

/-- A step that writes none of the live bytes spares the stack. -/
theorem RamKept.spares {sp₀ : U16} {n : Nat} {s m : Emu} (h : RamKept s m)
    (hsp : m.regs.sp = s.regs.sp) (hram : ∀ i, 1 ≤ i → i ≤ 2 * n → IsRam (sp₀ - BitVec.ofNat 16 i))
    (hw : ∀ i, 1 ≤ i → i ≤ 2 * n → ∀ v,
      Event.monitorWrMem (sp₀ - BitVec.ofNat 16 i) v ∉ eventsSince s m) : Spares sp₀ n s m := by
  obtain ⟨es, hes, hkept⟩ := h
  rw [eventsSince_append s m es hes] at hw
  exact ⟨hsp, fun i h₁ hi => hkept _ (hram i h₁ hi) (hw i h₁ hi)⟩

/-- The fetch is between pushes and pops. -/
theorem spares_fetch (sp₀ : U16) (n : Nat) (s : Emu) : Spares sp₀ n s (fetch s).2.2 := by
  unfold fetch
  dsimp only
  split
  · exact ⟨rfl, fun _ _ _ => rfl⟩
  · exact ⟨rfl, fun _ _ _ => rfl⟩

/-- So is an instruction that writes neither SP nor the live bytes. -/
theorem spares_dispatch {sp₀ : U16} {n : Nat} {s : Emu} {op : U8} {isPrefix : Bool}
    (hsp : (opsTableDispatch op isPrefix s).1.regs.sp = s.regs.sp)
    (hram : ∀ i, 1 ≤ i → i ≤ 2 * n → IsRam (sp₀ - BitVec.ofNat 16 i))
    (hw : ∀ i, 1 ≤ i → i ≤ 2 * n → ∀ v, Event.monitorWrMem (sp₀ - BitVec.ofNat 16 i) v ∉
      eventsSince s (opsTableDispatch op isPrefix s).1) :
    Spares sp₀ n s (opsTableDispatch op isPrefix s).1 := by
  rw [dispatch_eq] at hsp hw ⊢
  exact ((ramKept_closed s).toOpClosed.handler (.refl s) _).spares hsp hram hw

/-- **The stack discipline.**  A well-nested run whose stack stays in memory
leaves SP where it was, and every pop leaves what its push stored. -/
theorem stack_discipline (s s' : Emu) (d : Nat) (transfers : List (U16 × Popped))
    (hmem : ∀ i, 1 ≤ i → i ≤ d → IsMemory (s.regs.sp - BitVec.ofNat 16 i))
    (h : Nesting.Nested (stackMachine s.regs.sp d) 0 s transfers s') :
    s'.regs.sp = s.regs.sp ∧ (∀ t ∈ transfers, Delivers t.1 t.2) ∧
      ∀ v w, (v, Popped.af w) ∈ transfers → v &&& 0xf = 0 → w = v := by
  have hstart : Stacked s.regs.sp [] s := ⟨(BitVec.sub_zero _).symm, trivial⟩
  obtain ⟨hend, hpops⟩ := h.lifo (stack_refines hmem) [] rfl hstart
  refine ⟨hend.sp.trans (BitVec.sub_zero _), hpops, fun v w ht hv => ?_⟩
  have hw : w = v &&& 0xfff0 := hpops _ ht
  rw [hw, and_fff0_of_low hv]

/-- SP at the top of the high RAM. -/
def stackTop : Emu :=
  { powerOn #[] #[] with regs := { Registers.zero with sp := 0xfffe, b := 0x12, c := 0x34 } }

/-- PUSH BC, and RST 0x38 with a RET. -/
def pushedBc : Emu := (opsTableDispatch 0xc5 false stackTop).1

def returned : Emu := (opsTableDispatch 0xc9 false (opsTableDispatch 0xff false pushedBc).1).1

/-- What PUSH BC, RST 0x38, RET, POP AF move. -/
def stackTransfers : List (U16 × Popped) :=
  [(pushedBc.regs.pc, .word returned.regs.pc),
    (stackTop.regs.get16 .bc, .af ((opsTableDispatch 0xf1 false returned).1.regs.get16 .af))]

/-- The call between PUSH BC and POP AF. -/
theorem stack_discipline_call :
    (opsTableDispatch 0xf1 false returned).1.regs.sp = stackTop.regs.sp ∧
      (∀ t ∈ stackTransfers, Delivers t.1 t.2) ∧
      ∀ v w, (v, Popped.af w) ∈ stackTransfers → v &&& 0xf = 0 → w = v := by
  have hmem (i : Nat) (h₁ : 1 ≤ i) (hi : i ≤ 4) :
      IsMemory (stackTop.regs.sp - BitVec.ofNat 16 i) := by
    show IsMemory (0xfffe - BitVec.ofNat 16 i)
    unfold IsMemory
    bv_omega
  have hpush : (stackMachine stackTop.regs.sp 4).push 0 (stackTop.regs.get16 .bc) stackTop
      pushedBc := ⟨by decide, @Pushes.push 0xc5 .bc stackTop (by decide)⟩
  have hrst : (stackMachine stackTop.regs.sp 4).push 1 pushedBc.regs.pc pushedBc
      (opsTableDispatch 0xff false pushedBc).1 := ⟨by decide, .rst (n := 7) (by decide)⟩
  have hret : Pops (.word returned.regs.pc) (opsTableDispatch 0xff false pushedBc).1 returned :=
    @Pops.ret 0xc9 none _ (by decide) rfl
  have hpop : Pops (.af ((opsTableDispatch 0xf1 false returned).1.regs.get16 .af)) returned
      (opsTableDispatch 0xf1 false returned).1 := .popAf (by decide)
  exact stack_discipline stackTop _ 4 _ hmem (.pair hpush (.pair hrst .done hret .done) hpop .done)

end RealBoy
