/-
# `RealBoy.Cpu.Regular` — the regular parts of the opcode map

The loads between operands, 0x40 .. 0x7f, and the 0xcb page: 319 handlers of the
source in two hand-ordered tables.  Each of them reads one operand and writes one
operand back (`PutsBack`), and bits of the opcode say which (`load_regular`,
`prefixed_regular`).
-/
import RealBoy.Cpu.Multibyte
import RealBoy.Lib.Shift

namespace RealBoy

open Emu
open Sm83 (Operand)

/-- The byte `w` goes to the operand `o`, and `f` to F; all else stays. -/
inductive PutsBack (o : Operand) (w f : U8) (s : Emu) : Emu → Prop where
  | reg (reg : Reg8) : regOf o = some reg →
      PutsBack o w f s (s.updRegs fun r => { r with f := f }.set w reg)
  | indHl (s' : Emu) : regOf o = none →
      s'.regs = { s.regs with f := f } → s'.cpu = s.cpu →
      monitorRdMem s' s.regs.hl = w →
      (∀ b, b ≠ s.regs.hl → monitorRdMem s' b = monitorRdMem s b) → PutsBack o w f s s'

/-- A byte stored at HL. -/
theorem putsBack_indHl {o : Operand} (ho : regOf o = none) {s : Emu} (hmem : IsMemory s.regs.hl)
    (w f : U8) :
    PutsBack o w f s (monitorWrMem s.regs.hl w (s.updRegs fun r => { r with f := f })) := by
  obtain ⟨hregs, hcpu⟩ := monitorWrMem_regs hmem w (s.updRegs fun r => { r with f := f })
  have hread (b : U16) :=
    monitorRdMem_monitorWrMem hmem w (s.updRegs fun r => { r with f := f }) b
  refine .indHl _ ho hregs hcpu ((hread _).trans (if_pos rfl)) fun b hb => ?_
  exact (hread b).trans (if_neg hb)

/-! ## Loads -/

theorem ldHandler_putsBack {dst src : Operand} {s : Emu} (hsrc : dst = .indHl → src ≠ .indHl)
    (hmem : dst = .indHl → IsMemory s.regs.hl) :
    PutsBack dst (operandOf s src) s.regs.f s (ldHandler dst src s).1 := by
  have toReg {reg : Reg8} (h : regOf dst = some reg) (hw : (ldHandler dst src s).1 =
      s.updRegs fun r => r.set (operandOf s src) reg) :
      PutsBack dst (operandOf s src) s.regs.f s (ldHandler dst src s).1 := by
    rw [hw]
    exact PutsBack.reg reg h
  cases dst with
  | indHl =>
      have hstore {reg : Reg8} (hreg : regOf src = some reg) :
          PutsBack .indHl (operandOf s src) s.regs.f s (ldHandler .indHl src s).1 := by
        have hval : operandOf s src = s.regs.get reg := by rw [operandOf, hreg]
        have hw : (ldHandler .indHl src s).1 = monitorWrMem s.regs.hl (s.regs.get reg) s := by
          rw [ldHandler, hreg]
          rfl
        rw [hw, hval]
        exact putsBack_indHl rfl (hmem rfl) _ s.regs.f
      cases src with
      | indHl => exact absurd rfl (hsrc rfl)
      | b | c | d | e | h | l | a => exact hstore rfl
  | b | c | d | e | h | l | a => exact toReg rfl (by cases src <;> rfl)

/-- The pairs BC, DE and HL are their halves. -/
def PairsAgree (r : Registers) : Prop :=
  r.get16 .bc = r.get .b ++ r.get .c ∧ r.get16 .de = r.get .d ++ r.get .e ∧
    r.get16 .hl = r.get .h ++ r.get .l

theorem pairsAgree (r : Registers) : PairsAgree r := ⟨rfl, rfl, rfl⟩

theorem decode_load {op : U8} (h : 0x40 ≤ op ∧ op ≤ 0x7f) (hhalt : op ≠ 0x76) :
    Sm83.decode op = .ld (.ofField (op.toNat / 8 % 8)) (.ofField (op.toNat % 8)) := by
  obtain ⟨hlo, hhi⟩ := h
  have hx : op.toNat / 64 = 1 := by bv_omega
  rw [Sm83.decode, hx]
  exact if_neg (by bv_omega)

theorem ofField_eq_indHl {n : Nat} (hn : n < 8) : Operand.ofField n = .indHl ↔ n = 6 := by
  revert n
  decide

/-- LD (HL),(HL) would be HALT's opcode. -/
theorem load_halt {op : U8} (h : 0x40 ≤ op ∧ op ≤ 0x7f)
    (hdst : Operand.ofField (op.toNat / 8 % 8) = .indHl)
    (hsrc : Operand.ofField (op.toNat % 8) = .indHl) : op = 0x76 := by
  rw [ofField_eq_indHl (Nat.mod_lt _ (by decide))] at hdst hsrc
  bv_omega

/-- **The loads are regular**: bits 3 to 5 name the operand that is written, the
low three the one that is read. -/
theorem load_regular (s : Emu) (h : 0x40 ≤ monitorRdMem s s.regs.pc)
    (hle : monitorRdMem s s.regs.pc ≤ 0x7f) (hhalt : monitorRdMem s s.regs.pc ≠ 0x76) :
    let op := monitorRdMem s s.regs.pc
    let dst := Operand.ofField (op.toNat / 8 % 8)
    let src := Operand.ofField (op.toNat % 8)
    (dst = .indHl → IsMemory s.regs.hl) →
      PutsBack dst (operandOf s src) s.regs.f (advancePc 1 s) (fetchDispatch s) ∧
        PairsAgree (fetchDispatch s).regs := by
  intro op dst src hmem
  refine ⟨?_, pairsAgree _⟩
  have hcb : monitorRdMem s s.regs.pc ≠ 0xcb := by bv_omega
  rw [fetchDispatch_eq hcb, decode_load ⟨h, hle⟩ hhalt, ← operandOf_advancePc 1]
  exact ldHandler_putsBack (s := advancePc 1 s)
    (fun hdst hsrc => hhalt (load_halt ⟨h, hle⟩ hdst hsrc)) hmem

/-- LD H,(HL) at power-on. -/
theorem load_regular_h :
    PutsBack .h (operandOf (powerOn #[0x66] #[]) .indHl) (powerOn #[0x66] #[]).regs.f
        (advancePc 1 (powerOn #[0x66] #[])) (fetchDispatch (powerOn #[0x66] #[])) ∧
      PairsAgree (fetchDispatch (powerOn #[0x66] #[])).regs := by
  have hop : monitorRdMem (powerOn #[0x66] #[]) (powerOn #[0x66] #[]).regs.pc = 0x66 := by
    decide +kernel
  have h := load_regular (powerOn #[0x66] #[]) (by rw [hop]; decide) (by rw [hop]; decide)
    (by rw [hop]; decide)
  rw [hop] at h
  exact h nofun

/-! ## The 0xcb page -/

/-- The flags of a shift. -/
theorem packF_shift (f : U8) (z c : Bool) :
    setFlag (boolToFlag flagZero z) (setFlag (boolToFlag flagCarry c) (unsetFlagsAll f)) =
      packF f ⟨z, false, false, c⟩ := by
  rw [packF, unsetFlagsAll_eq]
  simp only [setFlag, boolToFlag_false]
  ac_rfl

/-- What the source computes in bits, for every byte and carry. -/
theorem shift_values (v : U8) (c : Bool) :
    v <<< 1 &&& ~~~(1 : U8) ||| (if bit v 0x80 then 1 else 0) = Sm83.Shift.rlc.value v c ∧
      v >>> 1 &&& ~~~(0x80 : U8) ||| (if bit v 0x1 then ((1 <<< 7 : Nat) : U8) else 0) =
        Sm83.Shift.rrc.value v c ∧
      v <<< 1 ||| (if c then 1 else 0) = Sm83.Shift.rl.value v c ∧
      v >>> 1 &&& ~~~(0x80 : U8) ||| (if c then (1 : U8) else 0) <<< 7 =
        Sm83.Shift.rr.value v c ∧
      v <<< 1 = Sm83.Shift.sla.value v c ∧
      v >>> 1 &&& ~~~(v &&& 0x80) ||| v &&& 0x80 = Sm83.Shift.sra.value v c ∧
      v >>> 4 ||| (v &&& 0x0f) <<< 4 = Sm83.Shift.swap.value v c ∧
      v >>> 1 = Sm83.Shift.srl.value v c := by
  revert v c
  decide +kernel

theorem shift_bits (v : U8) :
    bit v 0x80 = decide (128 ≤ v.toNat) ∧ bit v 0x1 = decide (v.toNat % 2 = 1) ∧
      (v &&& 0x01) <<< 4 = boolToFlag flagCarry (decide (v.toNat % 2 = 1)) := by
  revert v
  decide +kernel

/-- **The shifts are exact**, whichever way a macro keeps the outgoing bit. -/
theorem doShift_eq (k : Sm83.Shift) (v f : U8) :
    doShift k v f = (k.value v (bit f flagCarry), packF f (k.flags v (bit f flagCarry))) := by
  obtain ⟨hrlc, hrrc, hrl, hrr, hsla, hsra, hswap, hsrl⟩ := shift_values v (bit f flagCarry)
  obtain ⟨hhigh, hlow, hlowFlag⟩ := shift_bits v
  cases k with
  | rlc =>
      simp only [doShift, doRlc, hrlc, packF_shift]
      rw [hhigh]
      rfl
  | rrc =>
      simp only [doShift, doRrc, hrrc, packF_shift]
      rw [hlow]
      rfl
  | rl =>
      simp only [doShift, doRl, hrl, packF_shift]
      rw [hhigh]
      rfl
  | rr =>
      have hcarry : (f &&& flagCarry != 0) = bit f flagCarry := rfl
      simp only [doShift, doRr, hcarry, hrr, packF_shift]
      rw [hlow]
      rfl
  | sla =>
      simp only [doShift, doSla, packF_shift]
      rw [hsla, hhigh]
      rfl
  | sra =>
      simp only [doShift, doSra, hsra, hlowFlag, packF_shift]
      rfl
  | swap =>
      have hpack (z : Bool) : setFlag (boolToFlag flagZero z) (unsetFlagsAll f) =
          packF f ⟨z, false, false, false⟩ := by
        rw [← packF_shift, boolToFlag_false]
        exact congrArg (· ||| boolToFlag flagZero z) BitVec.or_zero.symm
      simp only [doShift, doSwp, hswap, hpack]
      rfl
  | srl =>
      have hor (z c : Bool) : setFlag (boolToFlag flagZero z ||| boolToFlag flagCarry c)
          (unsetFlagsAll f) = packF f ⟨z, false, false, c⟩ := by
        rw [← packF_shift]
        simp only [setFlag]
        ac_rfl
      simp only [doShift, doSrl, hlowFlag, hor]
      rw [hsrl]
      rfl

/-- BIT keeps the carry. -/
theorem doBit_eq (n : Nat) (hn : n < 8) (v f : U8) :
    doBit (bits n) v f = (v, packF f (Sm83.bitFlags n v (bit f flagCarry))) := by
  have hbit : bit v (bits n) = v.getLsbD n := Sm83.and_twoPow_ne_zero v n hn
  have hkeep : unsetFlag (flagZero ||| flagSub) f ||| flagHcarry =
      (f &&& 0x0f) ||| flagHcarry ||| (f &&& flagCarry) := by
    revert f
    decide +kernel
  have hset : doBit (bits n) v f =
      (v, unsetFlag (flagZero ||| flagSub) f ||| flagHcarry ||| boolToFlag flagZero (!bit v (bits n))) :=
    rfl
  have hpack : packF f (Sm83.bitFlags n v (bit f flagCarry)) =
      (f &&& 0x0f) ||| boolToFlag flagZero (!v.getLsbD n) ||| 0#8 ||| flagHcarry |||
        boolToFlag flagCarry (bit f flagCarry) := rfl
  rw [hset, hbit, hkeep, hpack, boolToFlag_carry, BitVec.or_zero]
  congr 1
  ac_rfl

/-- The masks of `enum bits`. -/
theorem doRst_eq (n : Nat) (v f : U8) : doRst (bits n) v f = (Sm83.resBit n v, f) := rfl

theorem doSet_eq (n : Nat) (v f : U8) : doSet (bits n) v f = (Sm83.setBit n v, f) := rfl

/-- A handler that writes its operand back. -/
theorem writeBackHandler_putsBack {o : Operand} {doOp : U8 → U8 → U8 × U8} {s : Emu}
    (hmem : o = .indHl → IsMemory s.regs.hl) {w f : U8}
    (hop : doOp (operandOf s o) s.regs.f = (w, f)) :
    PutsBack o w f s (writeBackHandler doOp o s).1 := by
  cases hreg : regOf o with
  | some reg =>
      have hval : operandOf s o = s.regs.get reg := by rw [operandOf, hreg]
      have hw : (writeBackHandler doOp o s).1 =
          s.updRegs fun r => { r with f := (doOp (s.regs.get reg) s.regs.f).2 }.set
            (doOp (s.regs.get reg) s.regs.f).1 reg := by
        rw [writeBackHandler, hreg]
        rfl
      rw [hw, ← hval, hop]
      exact .reg reg hreg
  | none =>
      have ho : o = .indHl := by
        revert hreg
        cases o <;> decide
      subst ho
      have hw : (writeBackHandler doOp .indHl s).1 =
          monitorWrMem s.regs.hl (doOp (operandOf s .indHl) s.regs.f).1
            (s.updRegs fun r => { r with f := (doOp (operandOf s .indHl) s.regs.f).2 }) := rfl
      rw [hw, hop]
      exact putsBack_indHl rfl (hmem rfl) w f

/-- BIT, of a register or of the byte at HL. -/
theorem bitHandler_eq (n : Nat) (o : Operand) (s : Emu) :
    (handler (.bit n o) s).1 =
      s.updRegs fun r => { r with f := (doBit (bits n) (operandOf s o) s.regs.f).2 } := by
  cases o <;> rfl

theorem advancePc_two (s : Emu) : advancePc 2 s = advancePc 1 (advancePc 1 s) := by
  rw [advancePc, advancePc, advancePc]
  simp only [Emu.updRegs, BitVec.add_assoc]
  rfl

/-- An instruction of the 0xcb page. -/
theorem fetchDispatch_cb {s : Emu} (h : monitorRdMem s s.regs.pc = 0xcb) :
    fetchDispatch s =
      (handler (Sm83.decodePrefix (monitorRdMem s (s.regs.pc + 1))) (advancePc 2 s)).1 := by
  unfold fetchDispatch fetch
  dsimp only
  rw [if_pos h]
  dsimp only
  rw [dispatch_cb, advancePc_two]
  rfl

/-- **The 0xcb page is regular**: bits 3 to 7 name the operation, the low three
bits the operand that is read and, except by BIT, written back. -/
theorem prefixed_regular (s : Emu) (hcb : monitorRdMem s s.regs.pc = 0xcb) :
    let op := monitorRdMem s (s.regs.pc + 1)
    let y := op.toNat / 8 % 8
    let o := Operand.ofField (op.toNat % 8)
    let v := operandOf s o
    let c := carryOf s.regs
    (o = .indHl → IsMemory s.regs.hl) →
      (op.toNat / 64 = 0 → PutsBack o ((Sm83.Shift.ofField y).value v c)
        (packF s.regs.f ((Sm83.Shift.ofField y).flags v c)) (advancePc 2 s) (fetchDispatch s)) ∧
      (op.toNat / 64 = 1 → fetchDispatch s =
        (advancePc 2 s).updRegs fun r => { r with f := packF s.regs.f (Sm83.bitFlags y v c) }) ∧
      (op.toNat / 64 = 2 → PutsBack o (Sm83.resBit y v) s.regs.f (advancePc 2 s)
        (fetchDispatch s)) ∧
      (op.toNat / 64 = 3 → PutsBack o (Sm83.setBit y v) s.regs.f (advancePc 2 s)
        (fetchDispatch s)) := by
  intro op y o v c hmem
  have hv : operandOf (advancePc 2 s) o = v := operandOf_advancePc 2 s o
  have hy : y < 8 := Nat.mod_lt _ (by decide)
  have writesBack {doOp : U8 → U8 → U8 × U8} {w f : U8} (hop : doOp v s.regs.f = (w, f)) :
      PutsBack o w f (advancePc 2 s) (writeBackHandler doOp o (advancePc 2 s)).1 :=
    writeBackHandler_putsBack (s := advancePc 2 s) hmem (hv ▸ hop)
  have decodes {i : Sm83.Instr} (hi : Sm83.decodePrefix op = i) :
      fetchDispatch s = (handler i (advancePc 2 s)).1 := hi ▸ fetchDispatch_cb hcb
  refine ⟨fun hx => ?_, fun hx => ?_, fun hx => ?_, fun hx => ?_⟩
  · have hi : Sm83.decodePrefix op = .shift (.ofField y) o := by
      rw [Sm83.decodePrefix, hx]
      rfl
    rw [decodes hi]
    exact writesBack (doShift_eq (.ofField y) v s.regs.f)
  · have hi : Sm83.decodePrefix op = .bit y o := by
      rw [Sm83.decodePrefix, hx]
      rfl
    rw [decodes hi, bitHandler_eq, hv]
    exact updRegs_congr (congrArg (fun f => { (advancePc 2 s).regs with f := f })
      (congrArg Prod.snd (doBit_eq y hy v s.regs.f)))
  · have hi : Sm83.decodePrefix op = .res y o := by
      rw [Sm83.decodePrefix, hx]
      rfl
    rw [decodes hi]
    exact writesBack (doRst_eq y v s.regs.f)
  · have hi : Sm83.decodePrefix op = .set y o := by
      rw [Sm83.decodePrefix, hx]
      rfl
    rw [decodes hi]
    exact writesBack (doSet_eq y v s.regs.f)

/-- SWAP (HL), of its own second byte. -/
def swapSelf : Emu :=
  { ramProgram [0xcb, 0x36] 0 0 0 with
    regs := { Registers.zero with pc := 0xc000, h := 0xc0, l := 0x01 } }

/-- It leaves 0x63 there. -/
theorem prefixed_regular_swap :
    PutsBack .indHl 0x63 0 (advancePc 2 swapSelf) (fetchDispatch swapSelf) := by
  have hcb : monitorRdMem swapSelf swapSelf.regs.pc = 0xcb := by decide +kernel
  have hop : monitorRdMem swapSelf (swapSelf.regs.pc + 1) = 0x36 := by decide +kernel
  have h := prefixed_regular swapSelf hcb
  rw [hop] at h
  exact (h fun _ => by decide +kernel).1 rfl

end RealBoy
