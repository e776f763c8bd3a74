/-
# `RealBoy.Cpu.Programs` — a program, proved in the logic

The block copy of a game's start-up code: HL is the source, DE the target, BC the
length.  On flat memory the eight bytes are a copy loop, whose invariant is the
copy so far (`Copying`); so the emulator that runs them copies the block, into
video memory or anywhere else, whatever the PPU does meanwhile
(`copyBlock_copies`).
-/
import RealBoy.Cpu.Confined
import RealBoy.Lib.Copy

namespace RealBoy

open Emu
open Logic (Leads Turns)
open Sm83 (Instr Cpu State Mem flatBus hi lo)

/-! ## Code in memory -/

/-- A place in a block. -/
def place (a : U16) (k : Nat) : U16 := a + BitVec.ofNat 16 k

theorem place_place (a : U16) (k j : Nat) : place (place a k) j = place a (k + j) := by
  rw [place, place, place, BitVec.ofNat_add, BitVec.add_assoc]

theorem place_succ (a : U16) (k : Nat) : place a (k + 1) = place a k + 1 := (place_place a k 1).symm

/-- The code is in memory from `p` on. -/
def Placed (code : List U8) (p : U16) (m : Mem) : Prop :=
  ∀ k, (hk : k < code.length) → m (place p k) = code[k]

/-- **One instruction** of the code: what is left is to go on after it. -/
theorem leads_instr {code : List U8} {p : U16} {Q : State Mem → Prop} {t : State Mem} (k : Nat)
    (i : Instr) (hstored : ∀ k < code.length, IsStored (place p k)) (hcode : Placed code p t.env)
    (hpc : t.cpu.pc = place p k) (hk : k + i.bytes ≤ code.length)
    (hop : ∃ h : k < code.length, code[k] ≠ 0xcb ∧ Sm83.decode code[k] = i)
    (hi : ordinary i = true)
    (hloads : ∀ a ∈ flatBus.loads (flatBus.fetched t) i, IsStored a)
    (hstores : ∀ a ∈ flatBus.stores (flatBus.fetched t) i, IsMemory a)
    (hnext : Leads flatBus.step Plain Q (flatBus.exec (t.onCpu (Cpu.skip 1)) i)) :
    Leads flatBus.step Plain Q t := by
  obtain ⟨hlt, hcb, hdec⟩ := hop
  have hbyte : t.env t.cpu.pc = code[k] := by rw [hpc, hcode k hlt]
  have hat : flatBus.instr t = i := by
    rw [← hdec, ← hbyte]
    exact if_neg fun h => hcb (hbyte.symm.trans h)
  have hbytes : i.opcodeBytes = 1 := by
    rw [← hdec]
    exact Sm83.decode_opcodeBytes _
  refine .step (plain_of hat hi (fun a ha => ?_) hloads hstores) ?_
  · obtain ⟨j, hj, rfl⟩ := List.mem_map.mp ha
    have hj := List.mem_range.mp hj
    show IsStored (place t.cpu.pc j)
    rw [hpc, place_place]
    exact hstored _ (by omega)
  · rw [Sm83.Bus.step, hat, hbytes]
    exact hnext

/-! ## The copy -/

/-- JR NZ moves PC. -/
theorem exec_jrNz (t : State Mem) : flatBus.exec t (.jr (some .nz)) =
    t.onCpu (Cpu.skip (if t.cpu.flags.z then 1 else 1 + (flatBus.imm8 t).signExtend 16)) := by
  show (if !t.cpu.flags.z then _ else _) = _
  cases t.cpu.flags.z <;> rfl

/-- OR tells whether a word is 0. -/
theorem or_eq_zero_iff (w : U16) : hi w ||| lo w = 0 ↔ w = 0 := by
  constructor
  · intro h
    obtain ⟨hhi, hlo⟩ := BitVec.or_eq_zero_iff.mp h
    rw [hi] at hhi
    rw [lo] at hlo
    rw [← word_bytes w, hhi, hlo]
    rfl
  · rintro rfl
    rfl

/-- LD A,(HL+); LD (DE),A; INC DE; DEC BC; LD A,B; OR C; JR NZ. -/
def copyBlock : List U8 := [0x2a, 0x12, 0x13, 0x0b, 0x78, 0xb1, 0x20, 0xf8]

/-- What the program needs: its own bytes and the source stored, the target
memory, and the target apart from the program and from what is still to be
copied. -/
structure CopyJob (p src dst : U16) (n : Nat) : Prop where
  pos : 0 < n
  lt : n < 65536
  code : ∀ k < copyBlock.length, IsStored (place p k)
  source : ∀ k < n, IsStored (place src k)
  target : ∀ k < n, IsMemory (place dst k)
  code_ne : ∀ k < n, ∀ j < copyBlock.length, place p j ≠ place dst k
  source_ne : ∀ i j, i < j → j < n → place src j ≠ place dst i

/-- The memory after some passes. -/
def copied (src dst : U16) (k : Nat) (m : Mem) : Mem :=
  Copy.loop flatBus.rd flatBus.wr (place dst) (place src) k m

/-- The invariant: the passes so far have copied their bytes. -/
structure Copied (src dst : U16) (n : Nat) (t₀ : State Mem) (left : Nat) (t : State Mem) :
    Prop where
  le : left ≤ n
  hl : t.cpu.hl = place src (n - left)
  de : t.cpu.de = place dst (n - left)
  bc : t.cpu.bc = BitVec.ofNat 16 left
  sp : t.cpu.sp = t₀.cpu.sp
  env : t.env = copied src dst (n - left) t₀.env

/-- At the head of the loop, or behind it when no pass is left. -/
structure Copying (p src dst : U16) (n : Nat) (t₀ : State Mem) (left : Nat) (t : State Mem) :
    Prop extends Copied src dst n t₀ left t where
  pc : t.cpu.pc = place p (if left = 0 then 8 else 0)

/-- At the jump back. -/
structure AtJump (p src dst : U16) (n : Nat) (t₀ : State Mem) (left : Nat) (t : State Mem) :
    Prop extends Copied src dst n t₀ left t where
  pc : t.cpu.pc = place p 6
  zero : t.cpu.flags.z = decide (left = 0)

theorem cellwise_flat (a : U16) : Copy.Cellwise flatBus.rd flatBus.wr a := fun _ _ _ => rfl

section

variable {p src dst : U16} {n : Nat} {t₀ : State Mem} (job : CopyJob p src dst n)

include job

/-- The program is not copied over. -/
theorem CopyJob.placed (h : Placed copyBlock p t₀.env) {k : Nat} (hk : k ≤ n) :
    Placed copyBlock p (copied src dst k t₀.env) := by
  intro j hj
  rw [← h j hj]
  exact Copy.rd_loop_of_ne (fun i _ => cellwise_flat _) t₀.env
    fun i hi => job.code_ne i (Nat.lt_of_lt_of_le hi hk) j hj

/-- The six instructions before the jump copy a byte. -/
theorem Copying.body (hcode : Placed copyBlock p t₀.env) {left : Nat} {t : State Mem}
    (h : Copying p src dst n t₀ (left + 1) t) :
    Leads flatBus.step Plain (AtJump p src dst n t₀ left) t := by
  have hle := h.le
  have hlt := job.lt
  have hread := job.placed hcode (Nat.sub_le n (left + 1))
  have hwritten := job.placed hcode (Nat.sub_le n left)
  rw [← h.env] at hread
  -- one byte more is copied
  have hnext : n - left = n - (left + 1) + 1 := by omega
  have henv : flatBus.wr t.cpu.de (t.env t.cpu.hl) t.env = copied src dst (n - left) t₀.env := by
    rw [h.de, h.hl, h.env, hnext]
    exact (Copy.loop_succ _ _).symm
  -- BC counts down, and OR tells whether it is 0
  have hbc : t.cpu.bc - 1 = BitVec.ofNat 16 left := by
    rw [h.bc]
    bv_omega
  have hzero : hi (t.cpu.bc - 1) ||| lo (t.cpu.bc - 1) = 0 ↔ left = 0 := by
    rw [or_eq_zero_iff, hbc]
    constructor
    · intro h
      bv_omega
    · rintro rfl
      rfl
  obtain ⟨c, m⟩ := t
  have hpc : c.pc = place p 0 := h.pc
  have hpc₁ : c.pc + 1 = place p 1 := by rw [hpc, place_succ]
  have hpc₂ : c.pc + 1 + 1 = place p 2 := by rw [hpc₁, place_succ p 1]
  have hpc₃ : c.pc + 1 + 1 + 1 = place p 3 := by rw [hpc₂, place_succ p 2]
  have hpc₄ : c.pc + 1 + 1 + 1 + 1 = place p 4 := by rw [hpc₃, place_succ p 3]
  have hpc₅ : c.pc + 1 + 1 + 1 + 1 + 1 = place p 5 := by rw [hpc₄, place_succ p 4]
  have hwrote : Placed copyBlock p (flatBus.wr c.de (m c.hl) m) := henv ▸ hwritten
  have none {P : U16 → Prop} : ∀ a ∈ ([] : List U16), P a := fun _ ha => nomatch ha
  refine leads_instr 0 (.loadA .hlInc) job.code hread hpc (by decide)
    ⟨by decide, by decide, rfl⟩ rfl (fun a ha => ?_) none ?_
  · cases List.mem_singleton.mp ha
    show IsStored c.hl
    rw [h.hl]
    exact job.source _ (by omega)
  refine leads_instr 1 (.storeA .de) job.code hread hpc₁ (by decide)
    ⟨by decide, by decide, rfl⟩ rfl none (fun a ha => ?_) ?_
  · cases List.mem_singleton.mp ha
    show IsMemory c.de
    rw [h.de]
    exact job.target _ (by omega)
  refine leads_instr 2 (.incPair .de) job.code hwrote hpc₂ (by decide)
    ⟨by decide, by decide, rfl⟩ rfl none none ?_
  refine leads_instr 3 (.decPair .bc) job.code hwrote hpc₃ (by decide)
    ⟨by decide, by decide, rfl⟩ rfl none none ?_
  refine leads_instr 4 (.ld .a .b) job.code hwrote hpc₄ (by decide)
    ⟨by decide, by decide, rfl⟩ rfl none none ?_
  refine leads_instr 5 (.alu .or .c) job.code hwrote hpc₅ (by decide)
    ⟨by decide, by decide, rfl⟩ rfl none none (.here ?_)
  exact
    { le := Nat.le_of_succ_le hle
      hl := by
        show hi (c.hl + 1) ++ lo (c.hl + 1) = place src (n - left)
        rw [word_bytes, h.hl, hnext, place_succ]
      de := by
        show hi (c.de + 1) ++ lo (c.de + 1) = place dst (n - left)
        rw [word_bytes, h.de, hnext, place_succ]
      bc := by
        show hi (c.bc - 1) ++ lo (c.bc - 1) = BitVec.ofNat 16 left
        rw [word_bytes, hbc]
      sp := h.sp
      env := henv
      pc := by
        show c.pc + 1 + 1 + 1 + 1 + 1 + 1 = _
        rw [hpc₅, place_succ p 5]
      zero := decide_eq_decide.mpr hzero }

/-- The jump goes back while there is something left. -/
theorem AtJump.jump (hcode : Placed copyBlock p t₀.env) {left : Nat} {t : State Mem}
    (h : AtJump p src dst n t₀ left t) :
    Leads flatBus.step Plain (Copying p src dst n t₀ left) t := by
  have hplaced := job.placed hcode (Nat.sub_le n left)
  rw [← h.env] at hplaced
  have hpc : t.cpu.pc + 1 = place p 7 := by rw [h.pc, place_succ p 6]
  have hback : t.env (place p 7) = 0xf8 := hplaced 7 (by decide)
  refine leads_instr 6 (.jr (some .nz)) job.code hplaced h.pc (by decide)
    ⟨by decide, by decide, rfl⟩ rfl (fun _ ha => nomatch ha) (fun _ ha => nomatch ha) ?_
  rw [exec_jrNz]
  refine .here { h.toCopied with pc := ?_ }
  show t.cpu.pc + 1 + (if t.cpu.flags.z then 1 else 1 + (t.env (t.cpu.pc + 1)).signExtend 16) = _
  rw [hpc, hback, h.zero]
  cases left with
  | zero => exact (place_succ p 7).symm
  | succ left =>
      simp [place]
      bv_omega

/-- **The program copies its block.** -/
theorem copyBlock_leads (hcode : Placed copyBlock p t₀.env) (hpc : t₀.cpu.pc = p)
    (hhl : t₀.cpu.hl = src) (hde : t₀.cpu.de = dst) (hbc : t₀.cpu.bc = BitVec.ofNat 16 n) :
    Leads flatBus.step Plain (Copying p src dst n t₀ 0) t₀ := by
  have hstart : Copying p src dst n t₀ n t₀ :=
    { le := Nat.le_refl n
      hl := by simp [hhl, place]
      de := by simp [hde, place]
      bc := hbc
      sp := rfl
      env := by
        rw [Nat.sub_self]
        rfl
      pc := by simp [hpc, place, Nat.pos_iff_ne_zero.mp job.pos] }
  refine Leads.loop (I := Copying p src dst n t₀) (fun _ h => .here h) (fun left t h => ?_) hstart
  exact (h.body job hcode).seq fun t h => h.jump job hcode

end

/-- **A block copy runs to its end in the emulator**, from ROM or memory to memory: after
some number of turns PC is behind the program, the target holds what the source held,
and nothing else that is stored has changed. -/
theorem copyBlock_copies {s : Emu} (h : Reachable s) (hime : s.cpu.imeEnabled = false)
    (hhalt : s.cpu.isHalted = false) {n : Nat}
    (job : CopyJob s.regs.pc s.regs.hl s.regs.de n) (hbc : s.regs.bc = BitVec.ofNat 16 n)
    (hcode : Placed copyBlock s.regs.pc (monitorRdMem s)) :
    ∃ k, ∀ s', Turns Turn k s s' →
      s'.regs.pc = s.regs.pc + 8 ∧ s'.regs.sp = s.regs.sp ∧
        (∀ i < n, monitorRdMem s' (place s.regs.de i) = monitorRdMem s (place s.regs.hl i)) ∧
        ∀ a, IsStored a → (∀ i < n, a ≠ place s.regs.de i) →
          monitorRdMem s' a = monitorRdMem s a := by
  have hleads : Leads flatBus.step Plain
      (Copying s.regs.pc s.regs.hl s.regs.de n (flatView s) 0) (flatView s) :=
    copyBlock_leads job hcode rfl rfl rfl hbc
  obtain ⟨k, hk⟩ := leads_run h hime hhalt hleads
  have hcell : ∀ i < n, Copy.Cellwise flatBus.rd flatBus.wr (place s.regs.de i) :=
    fun i _ => cellwise_flat _
  refine ⟨k, fun s' hs' => ?_⟩
  obtain ⟨t, ht, hcpu, hmem⟩ := hk s' hs'
  have henv := ht.env
  refine ⟨?_, ?_, fun i hi => ?_, fun a ha hne => ?_⟩
  · exact (congrArg Cpu.pc hcpu).trans ht.pc
  · exact (congrArg Cpu.sp hcpu).trans ht.sp
  · have hapart : Copy.Apart (place s.regs.de) (place s.regs.hl) n :=
      { src_ne := job.source_ne
        dst_ne := fun i j hij hj heq => by
          have := job.lt
          unfold place at heq
          bv_omega }
    rw [hmem _ (.inr (job.target i hi)), henv]
    exact Copy.rd_loop_dst hcell hapart _ hi
  · rw [hmem a ha, henv]
    exact Copy.rd_loop_of_ne hcell _ hne

/-- LD HL,0; LD DE,0xc000; LD BC,2; and the block copy. -/
def copyStart : Emu :=
  (powerOn (#[0x21, 0, 0, 0x11, 0, 0xc0, 0x01, 2, 0] ++ copyBlock.toArray) #[]).run
    [.exec, .exec, .exec]

/-- Two bytes of the cartridge, to the work RAM. -/
theorem copyBlock_copies_start :
    ∃ k, ∀ s', Turns Turn k copyStart s' →
      s'.regs.pc = copyStart.regs.pc + 8 ∧ s'.regs.sp = copyStart.regs.sp ∧
        (∀ i < 2, monitorRdMem s' (place copyStart.regs.de i) =
          monitorRdMem copyStart (place copyStart.regs.hl i)) ∧
        ∀ a, IsStored a → (∀ i < 2, a ≠ place copyStart.regs.de i) →
          monitorRdMem s' a = monitorRdMem copyStart a := by
  have hpc : copyStart.regs.pc = 9 := by decide
  have hhl : copyStart.regs.hl = 0 := by decide
  have hde : copyStart.regs.de = 0xc000 := by decide
  have hreach : Reachable copyStart := .act .exec (.act .exec (.act .exec (.powerOn _ _)))
  refine copyBlock_copies hreach (by decide) (by decide) ?_ (by decide) ?_
  · rw [hpc, hhl, hde]
    exact
      { pos := by decide
        lt := by decide
        code := by decide
        source := by decide
        target := by decide
        code_ne := by decide
        source_ne := fun i j hij hj => by
          have : j = 1 := by omega
          have : i = 0 := by omega
          subst_vars
          decide }
  · rw [hpc]
    intro k
    revert k
    decide

end RealBoy
