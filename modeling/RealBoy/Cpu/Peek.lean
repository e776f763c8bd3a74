/-
# `RealBoy.Cpu.Peek` — instruction lengths, told twice

The debugger asks `cpu_peek`, which knows the length of an instruction from the
table `op_len`.  The interpreter has no such table: its length is the sum of
the `ADVANCE_PC`s on the way through the fetch and the handler (`step_pc`), and
that is the instruction's own (`Sm83.Instr.bytes`).

The two agree on every defined opcode.  Of the eleven undefined ones `op_len`
has two right; for the other nine it says 3, where `op_inval` leaves PC behind
the opcode.
-/
import RealBoy.Cpu.Interrupts
import RealBoy.Cpu.Timer

namespace RealBoy

open Sm83 (Instr Operand)

/-! ## What the debugger reads -/

/-- `op_len`. -/
def opLenTable : List Nat := [
  1, 3, 1, 1, 1, 1, 2, 1, 3, 1, 1, 1, 1, 1, 2, 1,
  2, 3, 1, 1, 1, 1, 2, 1, 2, 1, 1, 1, 1, 1, 2, 1,
  2, 3, 1, 1, 1, 1, 2, 1, 2, 1, 1, 1, 1, 1, 2, 1,
  2, 3, 1, 1, 1, 1, 2, 1, 2, 1, 1, 1, 1, 1, 2, 1,
  1, 1, 1, 1, 1, 1, 1, 1, 1, 1, 1, 1, 1, 1, 1, 1,
  1, 1, 1, 1, 1, 1, 1, 1, 1, 1, 1, 1, 1, 1, 1, 1,
  1, 1, 1, 1, 1, 1, 1, 1, 1, 1, 1, 1, 1, 1, 1, 1,
  1, 1, 1, 1, 1, 1, 1, 1, 1, 1, 1, 1, 1, 1, 1, 1,
  1, 1, 1, 1, 1, 1, 1, 1, 1, 1, 1, 1, 1, 1, 1, 1,
  1, 1, 1, 1, 1, 1, 1, 1, 1, 1, 1, 1, 1, 1, 1, 1,
  1, 1, 1, 1, 1, 1, 1, 1, 1, 1, 1, 1, 1, 1, 1, 1,
  1, 1, 1, 1, 1, 1, 1, 1, 1, 1, 1, 1, 1, 1, 1, 1,
  1, 1, 3, 3, 3, 1, 2, 1, 1, 1, 3, 2, 3, 3, 2, 1,
  1, 1, 3, 3, 3, 1, 2, 1, 1, 1, 3, 1, 3, 3, 2, 1,
  2, 1, 1, 3, 3, 1, 2, 1, 2, 1, 3, 1, 3, 3, 2, 1,
  2, 1, 1, 1, 3, 1, 2, 1, 2, 1, 3, 1, 3, 3, 2, 1]

/-- An entry of `op_len`. -/
def opLen (op : U8) : Nat := opLenTable.getD op.toNat 0

/-- `struct peek_reply`: a payload of 32-bit words, no payload at all where the
`switch` of `cpu_peek` has no case, or a read past the end of `op_len`. -/
inductive PeekReply where
  | words (ws : List U32)
  | unset
  | outside (index : U32)
deriving DecidableEq

/-- `enum cpu_peek_type`. -/
def cpuPeekReg : U32 := 0
def cpuPeekAddr : U32 := 1
def cpuPeekInstrAtAddr : U32 := 2
def cpuPeekOpLen : U32 := 3

/-- `peek_get_cpu_reg`, by the values of `enum cpu_reg`; -1 for any other. -/
def peekGetCpuReg (s : Emu) (cpuReg : U32) : U16 :=
  if cpuReg = 0 then s.regs.af
  else if cpuReg = 1 then s.regs.bc
  else if cpuReg = 2 then s.regs.de
  else if cpuReg = 3 then s.regs.hl
  else if cpuReg = 4 then s.regs.sp
  else if cpuReg = 5 then s.regs.pc
  else -1

/-- `monitor_rd_mem`, called with a 32-bit argument and stored in one. -/
def peekMem (s : Emu) (req : U32) : U32 := (monitorRdMem s (req.setWidth 16)).setWidth 32

/-- `cpu_peek`. -/
def cpuPeek (s : Emu) (subtype req : U32) : PeekReply :=
  if subtype = cpuPeekReg then .words [(peekGetCpuReg s req).setWidth 32]
  else if subtype = cpuPeekAddr then .words [peekMem s req]
  else if subtype = cpuPeekInstrAtAddr then
    let opcode := monitorRdMem s (req.setWidth 16)
    let n := if opcode = 0xcb then 2 else opLen opcode
    .words (opcode.setWidth 32 ::
      (List.range (n - 1)).map fun i => peekMem s (req + BitVec.ofNat 32 (i + 1)))
  else if subtype = cpuPeekOpLen then
    if req.toNat < 256 then .words [BitVec.ofNat 32 (opLen (req.setWidth 8))] else .outside req
  else .unset

/-! ## Where PC goes -/

theorem addReg16_pc (rr : Sm83.Pair) (x : U16) (s : Emu) :
    (addReg16 (pairOf rr) x s).regs.pc = s.regs.pc := by
  cases rr <;> rfl

theorem wrWord_regs (addr value : Emu → U16) (s : Emu) : (wrWord addr value s).regs = s.regs := by
  unfold wrWord
  dsimp only
  rw [monitorWrMem_keeps_regs, monitorWrMem_keeps_regs]

theorem push_pc (value : Emu → U16) (s : Emu) : (push value s).regs.pc = s.regs.pc := by
  rw [push, wrWord_regs]
  exact addReg16_pc .sp (-2) s

theorem opPushReg_pc (reg : Reg16) (s : Emu) : (opPushReg reg s).1.regs.pc = s.regs.pc := by
  unfold opPushReg
  dsimp only
  rw [push_pc]

theorem opIncIndHl_pc (s : Emu) : (opIncIndHl s).1.regs.pc = s.regs.pc := by
  show (monitorWrMem _ _ _).regs.pc = _
  rw [monitorWrMem_keeps_regs]
  rfl

theorem opDecIndHl_pc (s : Emu) : (opDecIndHl s).1.regs.pc = s.regs.pc := by
  show (monitorWrMem _ _ _).regs.pc = _
  rw [monitorWrMem_keeps_regs]
  rfl

theorem aluHandler_pc (k : Sm83.Alu) (o : Operand) (s : Emu) :
    (aluHandler k o s).1.regs.pc = s.regs.pc := by
  cases k <;> cases o <;> rfl

theorem ldHandler_pc (dst src : Operand) (s : Emu) :
    (ldHandler dst src s).1.regs.pc = s.regs.pc := by
  cases src with
  | indHl => cases dst <;> rfl
  | _ =>
      cases dst with
      | indHl => exact congrArg Registers.pc (monitorWrMem_keeps_regs _ _ s)
      | _ => rfl

theorem writeBackHandler_pc (doOp : U8 → U8 → U8 × U8) (o : Operand) (s : Emu) :
    (writeBackHandler doOp o s).1.regs.pc = s.regs.pc := by
  cases o with
  | indHl =>
      show (monitorWrMem _ _ _).regs.pc = _
      rw [monitorWrMem_keeps_regs]
      rfl
  | _ => rfl

/-- **An instruction that does not jump** leaves PC behind its operands. -/
theorem handler_pc (i : Instr) (s : Emu) (h : i.transfers s.regs.f = false) :
    (handler i s).1.regs.pc = s.regs.pc + BitVec.ofNat 16 (i.bytes - i.opcodeBytes) := by
  have zero {pc : U16} (hpc : pc = s.regs.pc) : pc = s.regs.pc + BitVec.ofNat 16 0 :=
    hpc.trans (BitVec.add_zero _).symm
  have write (addr : U16) (value : U8) : (monitorWrMem addr value s).regs.pc = s.regs.pc :=
    congrArg Registers.pc (monitorWrMem_keeps_regs addr value s)
  cases i with
  | nop | prefixByte | undefined | halt | di | ei => exact zero rfl
  | stop => rfl
  | daa | cpl | scf | ccf | rotA => exact zero rfl
  | ld dst src => exact zero (ldHandler_pc dst src s)
  | ldImm o =>
      cases o with
      | indHl => exact congrArg (· + 1) (write _ _)
      | _ => rfl
  | ldPairImm rr => cases rr <;> rfl
  | storeA p =>
      cases p with
      | bc | de => exact zero (write _ _)
      | hlInc => exact zero ((addReg16_pc .hl 1 _).trans (write _ _))
      | hlDec => exact zero ((addReg16_pc .hl (-1) _).trans (write _ _))
  | loadA p =>
      cases p with
      | bc | de => exact zero rfl
      | hlInc => exact zero (addReg16_pc .hl 1 _)
      | hlDec => exact zero (addReg16_pc .hl (-1) _)
  | ldA16Sp => exact congrArg (·.pc + 2) (wrWord_regs _ _ s)
  | ldA16A => exact congrArg (· + 2) (write _ _)
  | ldhA8A => exact congrArg (· + 1) (write _ _)
  | ldhCA => exact zero (write _ _)
  | ldAA16 | ldhAA8 | ldHlSpE8 | addSpE8 => rfl
  | ldhAC | ldSpHl => exact zero rfl
  | inc o =>
      cases o with
      | indHl => exact zero (opIncIndHl_pc s)
      | _ => exact zero rfl
  | dec o =>
      cases o with
      | indHl => exact zero (opDecIndHl_pc s)
      | _ => exact zero rfl
  | incPair rr => exact zero (addReg16_pc rr 1 s)
  | decPair rr =>
      rw [handler, incReg16]
      exact zero (addReg16_pc rr (-1) s)
  | addHl rr => cases rr <;> exact zero rfl
  | alu k o => exact zero (aluHandler_pc k o s)
  | aluImm k => cases k <;> rfl
  | jp cc =>
      cases cc with
      | none => cases h
      | some cc =>
          have h : cc.holds s.regs.f = false := h
          rw [handler, opJmpCond, condOf_eq, h]
          rfl
  | jpHl | reti | rst => cases h
  | jr cc =>
      cases cc with
      | none => cases h
      | some cc =>
          have h : cc.holds s.regs.f = false := h
          rw [handler, opJrCond, condOf_eq, h]
          rfl
  | call cc =>
      cases cc with
      | none => cases h
      | some cc =>
          have h : cc.holds s.regs.f = false := h
          rw [handler, opCallCond, condOf_eq, h]
          rfl
  | ret cc =>
      cases cc with
      | none => cases h
      | some cc =>
          have h : cc.holds s.regs.f = false := h
          rw [handler, opRetCond, condOf_eq, h]
          exact zero rfl
  | push rr =>
      rw [handler]
      exact zero (opPushReg_pc (stackPairOf rr) s)
  | pop rr => cases rr <;> exact zero rfl
  | shift k o => exact zero (writeBackHandler_pc _ o s)
  | bit n o => cases o <;> exact zero rfl
  | res n o => exact zero (writeBackHandler_pc _ o s)
  | set n o => exact zero (writeBackHandler_pc _ o s)

theorem fetch_pc (s : Emu) :
    (fetch s).2.2.regs.pc = s.regs.pc + BitVec.ofNat 16 (nextInstr s).opcodeBytes := by
  unfold nextInstr fetch
  dsimp only
  split
  case isTrue =>
    show s.regs.pc + 1 + 1 = s.regs.pc + BitVec.ofNat 16 (Sm83.decodePrefix _).opcodeBytes
    rw [(Sm83.decodePrefix_opcodeBytes _).1, BitVec.add_assoc]
    rfl
  case isFalse =>
    show s.regs.pc + 1 = s.regs.pc + BitVec.ofNat 16 (Sm83.decode _).opcodeBytes
    rw [Sm83.decode_opcodeBytes]
    rfl

/-- The step takes a jump, a call, a return, a restart or an interrupt. -/
def Diverts (s : Emu) : Prop :=
  (nextInstr s).transfers s.regs.f = true ∨ intrCalls (beforeIntrs s) ≠ []

instance (s : Emu) : Decidable (Diverts s) := inferInstanceAs (Decidable (_ ∨ _))

theorem advanceTima_regs (cycles : Nat) (s : Emu) : (advanceTima cycles s).regs = s.regs := by
  have htick : (tickTima s).regs = s.regs := by
    unfold tickTima
    dsimp only
    split <;> rfl
  unfold advanceTima
  split
  · split
    · exact htick
    · rfl
  · rfl

/-- Without a call of `process_intr` the scan leaves the registers. -/
theorem handleIntrs_regs {s : Emu} (h : intrCalls s = []) : (handleIntrs s).regs = s.regs := by
  have hstep (t : Emu) (m : U8) (hm : takes t m = false) (ht : t.regs = s.regs) :
      (intrStep t m).regs = s.regs := by
    rcases Bool.and_eq_false_iff.mp hm with hp | hime
    · rwa [intrStep_eq, if_neg (not_not.mpr (bne_eq_false_iff_eq.mp hp))]
    · rw [intrStep_eq, hime, if_neg Bool.false_ne_true]
      split
      · exact ht
      · exact ht
  unfold handleIntrs
  unfold intrCalls at h
  split
  case isTrue hg =>
    rw [if_pos hg] at h
    have hscan := Scan.foldl_of_calls_nil hstep rfl h
    rwa [intrMasks, List.foldl_map] at hscan
  case isFalse => rfl

/-- **A step that goes on** leaves PC behind the instruction. -/
theorem step_pc {s : Emu} (hrun : s.cpu.isHalted = false) (h : ¬ Diverts s) :
    (cpuExecNext s).1.regs.pc = s.regs.pc + BitVec.ofNat 16 (nextInstr s).bytes := by
  obtain ⟨hjump, hintr⟩ := not_or.mp h
  have hexec : (execInstr s).1.regs = (handler (nextInstr s) (fetch s).2.2).1.regs := by
    unfold execInstr
    rw [hrun, if_neg Bool.false_ne_true]
    dsimp only
    rw [dispatch_eq]
    rfl
  have hbefore : (beforeIntrs s).regs = (execInstr s).1.regs := advanceTima_regs _ _
  have hpc := handler_pc (nextInstr s) (fetch s).2.2 (by rw [fetch_f]; exact Bool.eq_false_iff.mpr hjump)
  have hle := (nextInstr s).opcodeBytes_le
  rw [cpuExecNext_intrs, handleIntrs_regs (not_not.mp hintr), hbefore, hexec, hpc, fetch_pc,
    BitVec.add_assoc, ← BitVec.ofNat_add, Nat.add_sub_cancel' hle]

/-! ## The two lengths -/

/-- The opcode the step fetches first. -/
def opcodeAt (s : Emu) : U8 := monitorRdMem s s.regs.pc

/-- The undefined opcodes to which `op_len` gives two operand bytes. -/
def overlong : List U8 := [0xd3, 0xdd, 0xe3, 0xe4, 0xec, 0xed, 0xf4, 0xfc, 0xfd]

/-- What `op_len` says, by the instruction set. -/
def toldLength (op : U8) : Nat :=
  if op = 0xcb then 2 else if op ∈ overlong then 3 else (Sm83.decode op).bytes

theorem opLenTable_eq :
    opLenTable = (List.range 256).map fun n => toldLength (BitVec.ofNat 8 n) := by
  decide +kernel

theorem opLen_eq (op : U8) : opLen op = toldLength op := by
  rw [opLen, opLenTable_eq]
  exact getD_map_range toldLength 0 op

theorem opLen_cb : opLen 0xcb = 2 := by
  rw [opLen_eq, toldLength, if_pos rfl]

theorem opLen_pos (op : U8) : 1 ≤ opLen op := by
  rw [opLen_eq, toldLength]
  split
  · decide
  split
  · decide
  · have h := (Sm83.decode op).opcodeBytes_le
    rwa [Sm83.decode_opcodeBytes] at h

theorem overlong_bytes {op : U8} (h : op ∈ overlong) : (Sm83.decode op).bytes = 1 := by
  have hall : overlong.Forall fun op => (Sm83.decode op).bytes = 1 := by decide
  exact List.forall_iff_forall_mem.mp hall op h

/-- PC moves by the length that the debugger is told. -/
structure LengthAgrees (s : Emu) : Prop where
  advance : (cpuExecNext s).1.regs.pc = s.regs.pc + BitVec.ofNat 16 (opLen (opcodeAt s))
  opLen : cpuPeek s cpuPeekOpLen ((opcodeAt s).setWidth 32) =
    .words [BitVec.ofNat 32 (opLen (opcodeAt s))]
  instr : ∃ ws, cpuPeek s cpuPeekInstrAtAddr (s.regs.pc.setWidth 32) = .words ws ∧
    ws.length = RealBoy.opLen (opcodeAt s)

/-- What the debugger is told, of any opcode. -/
theorem cpuPeek_opLen (s : Emu) (op : U8) :
    cpuPeek s cpuPeekOpLen (op.setWidth 32) = .words [BitVec.ofNat 32 (opLen op)] := by
  have hlt : (op.setWidth 32 : U32).toNat < 256 := by bv_omega
  have hop : (op.setWidth 32 : U32).setWidth 8 = op := by bv_omega
  rw [cpuPeek, if_neg (by decide), if_neg (by decide), if_neg (by decide), if_pos rfl, if_pos hlt,
    hop]

/-- The reply to `CPU_PEEK_INSTR_AT_ADDR` has a word for each byte `op_len`
counts. -/
theorem cpuPeek_instrAtAddr (s : Emu) (addr : U16) :
    ∃ ws, cpuPeek s cpuPeekInstrAtAddr (addr.setWidth 32) = .words ws ∧
      ws.length = opLen (monitorRdMem s addr) := by
  have haddr : (addr.setWidth 32 : U32).setWidth 16 = addr := by bv_omega
  have hcb (op : U8) : (if op = 0xcb then 2 else opLen op) = opLen op := by
    split
    case isTrue h => rw [h, opLen_cb]
    case isFalse => rfl
  refine ⟨_, by rw [cpuPeek, if_neg (by decide), if_neg (by decide), if_pos rfl], ?_⟩
  rw [List.length_cons, List.length_map, List.length_range, haddr, hcb]
  exact Nat.sub_add_cancel (opLen_pos _)

theorem nextInstr_bytes (s : Emu) :
    (nextInstr s).bytes =
      if opcodeAt s = 0xcb then 2 else (Sm83.decode (opcodeAt s)).bytes := by
  unfold nextInstr fetch
  dsimp only
  split
  case isTrue h =>
    have h : opcodeAt s = 0xcb := h
    rw [if_pos h]
    exact (Sm83.decodePrefix_opcodeBytes _).2
  case isFalse h =>
    have h : opcodeAt s ≠ 0xcb := h
    rw [if_neg h]
    rfl

/-- **The debugger and the interpreter agree** on the length of an instruction,
nine undefined opcodes apart. -/
theorem lengthAgrees_iff (s : Emu) (hrun : s.cpu.isHalted = false) (hstay : ¬ Diverts s) :
    LengthAgrees s ↔ opcodeAt s ∉ overlong := by
  have hpc := step_pc hrun hstay
  rw [nextInstr_bytes] at hpc
  by_cases hcb : opcodeAt s = 0xcb
  · have hmem : opcodeAt s ∉ overlong := by
      rw [hcb]
      decide
    refine iff_of_true ⟨?_, cpuPeek_opLen s _, cpuPeek_instrAtAddr s _⟩ hmem
    rw [hpc, if_pos hcb, hcb, opLen_cb]
  rw [if_neg hcb] at hpc
  have hlen := opLen_eq (opcodeAt s)
  rw [toldLength, if_neg hcb] at hlen
  constructor
  · intro h hmem
    rw [if_pos hmem] at hlen
    rw [overlong_bytes hmem, h.advance, hlen] at hpc
    exact absurd hpc (by bv_omega)
  · intro hmem
    rw [if_neg hmem] at hlen
    refine ⟨?_, cpuPeek_opLen s _, cpuPeek_instrAtAddr s _⟩
    rw [hpc, hlen]

/-- Code in the work RAM, and PC at its start. -/
def inWram (code : List U8) : Emu :=
  let s := powerOn #[] #[]
  { s with wram := fun i => code.getD i 0, regs := { s.regs with pc := 0xc000 } }

/-- LD BC,0x1234 is three bytes to both. -/
theorem lengthAgrees_ldBc : LengthAgrees (inWram [0x01, 0x34, 0x12]) :=
  (lengthAgrees_iff (inWram [0x01, 0x34, 0x12]) rfl (by decide +kernel)).mpr (by decide)

/-- 0xd3 is three bytes to the debugger and one to the interpreter. -/
theorem not_lengthAgrees_d3 :
    ¬ ∀ s : Emu, s.cpu.isHalted = false → ¬ Diverts s → LengthAgrees s := by
  intro h
  have hd3 := h (inWram [0xd3]) rfl (by decide +kernel)
  exact absurd hd3.advance (by decide +kernel)

end RealBoy
