/-
# `RealBoy.Cpu.StoreSp` — LD (a16),SP evaluates its address twice

`op_ld_ind_a16_sp` hands `RD_WORD(REG_PC)` to `WR_WORD`, a macro that repeats
its argument: the address of the second byte is read from the operand again,
after the first byte has been written.  So SP goes to two adjacent addresses just
when that write leaves the operand as it reads (`storesSp_iff`).
-/
import RealBoy.Cpu.Alu
import RealBoy.Mem.After

namespace RealBoy

open Emu

/-! ## Two words, two states -/

theorem rdWord_eq_iff {s s' : Emu} {x : U16} :
    rdWord s' x = rdWord s x ↔
      monitorRdMem s' x = monitorRdMem s x ∧
        monitorRdMem s' (x + 1) = monitorRdMem s (x + 1) := by
  have low (s : Emu) : (rdWord s x).extractLsb' 0 8 = monitorRdMem s x :=
    BitVec.extractLsb'_append_eq_right
  have high (s : Emu) : (rdWord s x).extractLsb' 8 8 = monitorRdMem s (x + 1) :=
    BitVec.extractLsb'_append_eq_left
  constructor
  · intro h
    exact ⟨by rw [← low, h, low], by rw [← high, h, high]⟩
  · rintro ⟨hlow, hhigh⟩
    rw [rdWord, hlow, hhigh]
    rfl

/-- A bus write is logged before anything it starts. -/
theorem monitorWrMem_isPrefix (addr : U16) (value : U8) (s : Emu) :
    s.events ++ [.monitorWrMem addr value] <+: (monitorWrMem addr value s).events := by
  by_cases hdma : addr = 0xff46
  · subst hdma
    rw [monitorWrMem_dma]
    refine dmaLoop_induct
      (P := fun s' => s.events ++ [.monitorWrMem 0xff46 value] <+: s'.events)
      (fun i hi v s' hs' => ?_) _ (s.log (.monitorWrMem 0xff46 value)) List.prefix_rfl
    rw [monitorWrMem_dmaAddr hi]
    exact hs'.trans (List.prefix_append _ _)
  · rw [(monitorWrMem_cases addr value s).events hdma]
    exact List.prefix_rfl

/-- Two bus writes from one state that leave one log were to the same address. -/
theorem monitorWrMem_addr_inj {a b : U16} {v w : U8} {s : Emu}
    (h : (monitorWrMem a v s).events = (monitorWrMem b w s).events) : a = b := by
  have ha := monitorWrMem_isPrefix a v s
  have hb := monitorWrMem_isPrefix b w s
  rw [h] at ha
  have hlen : (s.events ++ [Event.monitorWrMem a v]).length =
      (s.events ++ [Event.monitorWrMem b w]).length := by
    rw [List.length_append, List.length_append]
    rfl
  have hsame := (List.prefix_of_prefix_length_le ha hb hlen.le).eq_of_length hlen
  have hlast := List.append_cancel_left hsame
  injection hlast with hevent
  injection hevent

/-! ## The instruction -/

/-- SP, low byte first, at `a` and the address after it. -/
def storeSpAt (a : U16) (s : Emu) : Emu :=
  monitorWrMem (a + 1) (s.regs.sp.extractLsb' 8 8)
    (monitorWrMem a (s.regs.sp.extractLsb' 0 8) s)

/-- **What LD (a16),SP is to do**: with the operand that is in memory when the
opcode is fetched, these two bus writes and no others, and PC behind the
operand. -/
def StoresSp (s : Emu) : Prop :=
  fetchDispatch s = advancePc 2 (storeSpAt (rdWord s (s.regs.pc + 1)) (advancePc 1 s))

/-- The low byte of SP, written to the address of the operand, leaves the two
bytes of the operand. -/
def OperandKept (s : Emu) : Prop :=
  let a := rdWord s (s.regs.pc + 1)
  let low := s.regs.sp.extractLsb' 0 8
  readAfter s a low (s.regs.pc + 1) = monitorRdMem s (s.regs.pc + 1) ∧
    readAfter s a low (s.regs.pc + 2) = monitorRdMem s (s.regs.pc + 2)

section

variable {s : Emu}

theorem fetchDispatch_storeSp (hop : monitorRdMem s s.regs.pc = 0x08) :
    fetchDispatch s = (opLdIndA16Sp (advancePc 1 s)).1 := by
  rw [fetchDispatch_eq (by rw [hop]; decide), hop]
  rfl

/-- The operand, read again after the first byte is written. -/
def secondOperand (s : Emu) : U16 :=
  rdWord (monitorWrMem (rdWord s (s.regs.pc + 1)) (s.regs.sp.extractLsb' 0 8) (advancePc 1 s))
    (s.regs.pc + 1)

/-- **What it does.** -/
theorem fetchDispatch_storeSp_eq (hop : monitorRdMem s s.regs.pc = 0x08) :
    fetchDispatch s = advancePc 2 (monitorWrMem (secondOperand s + 1)
      (s.regs.sp.extractLsb' 8 8) (monitorWrMem (rdWord s (s.regs.pc + 1))
        (s.regs.sp.extractLsb' 0 8) (advancePc 1 s))) := by
  rw [fetchDispatch_storeSp hop, opLdIndA16Sp, wrWord, monitorWrMem_keeps_regs]
  rfl

theorem storesSp_iff_second (hop : monitorRdMem s s.regs.pc = 0x08) :
    StoresSp s ↔ secondOperand s = rdWord s (s.regs.pc + 1) := by
  rw [StoresSp, fetchDispatch_storeSp_eq hop, storeSpAt]
  constructor
  · intro h
    have hlog := congrArg Emu.events h
    exact (BitVec.add_left_inj 1).mp (monitorWrMem_addr_inj hlog)
  · intro h
    rw [h]
    rfl

theorem secondOperand_iff :
    secondOperand s = rdWord s (s.regs.pc + 1) ↔ OperandKept s := by
  have hnext : s.regs.pc + 1 + 1 = s.regs.pc + 2 := BitVec.add_assoc ..
  refine (rdWord_eq_iff (s := s)).trans ?_
  rw [monitorRdMem_after, monitorRdMem_after, hnext]
  rfl

end

/-- **LD (a16),SP.**  SP goes to the two addresses just when the write of its low
byte leaves the operand. -/
theorem storesSp_iff (s : Emu) (hop : monitorRdMem s s.regs.pc = 0x08) :
    StoresSp s ↔ OperandKept s :=
  (storesSp_iff_second hop).trans secondOperand_iff

/-- A program in work RAM: LD (a16),SP with this operand, and SP = 0x1234. -/
def storeSpProgram (low high : U8) : Emu :=
  { powerOn #[] #[] with
    regs := { Registers.zero with pc := 0xc000, sp := 0x1234 }
    wram := fun k => if k = 0 then 0x08 else if k = 1 then low else if k = 2 then high else 0 }

/-- At 0xc100, outside the instruction. -/
theorem storesSp_elsewhere : StoresSp (storeSpProgram 0x00 0xc1) :=
  (storesSp_iff (storeSpProgram 0x00 0xc1) (by decide +kernel)).mpr
    ⟨by decide +kernel, by decide +kernel⟩

/-- At 0xc001, its own operand: the high byte goes to 0xc035. -/
theorem not_storesSp_operand :
    ¬ ∀ s : Emu, monitorRdMem s s.regs.pc = 0x08 → StoresSp s := by
  intro h
  have hop : monitorRdMem (storeSpProgram 0x01 0xc0) (storeSpProgram 0x01 0xc0).regs.pc = 0x08 := by
    decide +kernel
  have hsecond := (storesSp_iff_second hop).mp (h _ hop)
  have hkept := secondOperand_iff.mp hsecond
  exact absurd hkept.1 (by decide +kernel)

end RealBoy
