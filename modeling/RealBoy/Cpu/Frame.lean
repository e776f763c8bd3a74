/-
# `RealBoy.Cpu.Frame` — what the CPU touches

Every handler is a chain of register updates, updates of the interrupt and halt
flags, and bus writes.  `OpClosed P` says that a property survives each of
these; it then survives an instruction (`OpClosed.handler`).  `ScanClosed P` adds
what the interrupt scan does to the flags.  `CpuClosed P` asks for a little more,
and gives the fetch, the cycle count and the interrupt scan, so a frame
condition on the CPU is three facts.  The timer is the one part of
`cpu_exec_next` outside the rule.
-/
import RealBoy.Cpu.Decode
import RealBoy.Cpu.Exec
import RealBoy.Emu.Write

namespace RealBoy

open Sm83 (Instr)

/-- The property survives whatever a handler does to the state. -/
structure OpClosed (P : Emu → Prop) : Prop where
  regs : ∀ s r, P s → P { s with regs := r }
  ime : ∀ s b, P s → P (setIme b s)
  halt : ∀ s, P s → P (cpuHalt s)
  write : ∀ s addr value, P s → P (monitorWrMem addr value s)

namespace OpClosed

variable {P : Emu → Prop} (h : OpClosed P) {s : Emu}

include h

theorem wrWord (hs : P s) (addr value : Emu → U16) : P (wrWord addr value s) :=
  h.write _ _ _ (h.write _ _ _ hs)

theorem push (hs : P s) (value : Emu → U16) : P (push value s) :=
  h.wrWord (h.regs _ _ hs) _ _

theorem doRet (hs : P s) : P (doRet s) := h.regs _ _ (h.regs _ _ hs)

theorem opCallA16 (hs : P s) : P (opCallA16 s).1 := h.regs _ _ (h.push (h.regs _ _ hs) _)

theorem opRestart (hs : P s) (addr : U16) : P (opRestart addr s).1 := h.regs _ _ (h.push hs _)

theorem opPushReg (hs : P s) (reg : Reg16) : P (opPushReg reg s).1 := by
  unfold RealBoy.opPushReg
  dsimp only
  exact h.push hs _

theorem ldHandler (hs : P s) (dst src : Sm83.Operand) : P (ldHandler dst src s).1 := by
  cases src with
  | indHl =>
      cases dst with
      | indHl => exact h.halt _ hs
      | _ => exact h.regs _ _ hs
  | _ =>
      cases dst with
      | indHl => exact h.write _ _ _ hs
      | _ => exact h.regs _ _ hs

theorem aluHandler (hs : P s) (k : Sm83.Alu) (o : Sm83.Operand) : P (aluHandler k o s).1 := by
  cases k <;> cases o <;> exact h.regs _ _ hs

theorem aluImmHandler (hs : P s) (k : Sm83.Alu) : P (aluImmHandler k s).1 := by
  cases k <;> exact h.regs _ _ (h.regs _ _ hs)

theorem writeBackHandler (hs : P s) (doOp : U8 → U8 → U8 × U8) (o : Sm83.Operand) :
    P (writeBackHandler doOp o s).1 := by
  cases o with
  | indHl => exact h.write _ _ _ (h.regs _ _ hs)
  | _ => exact h.regs _ _ hs

theorem opJmpCond (hs : P s) (cond : Cond) : P (opJmpCond cond s).1 := by
  unfold RealBoy.opJmpCond
  split
  · exact h.regs _ _ hs
  · exact h.regs _ _ hs

theorem opJrCond (hs : P s) (cond : Cond) : P (opJrCond cond s).1 := by
  unfold RealBoy.opJrCond
  split
  · exact h.regs _ _ (h.regs _ _ hs)
  · exact h.regs _ _ hs

theorem opCallCond (hs : P s) (cond : Cond) : P (opCallCond cond s).1 := by
  unfold RealBoy.opCallCond
  split
  · exact h.opCallA16 hs
  · exact h.regs _ _ hs

theorem opRetCond (hs : P s) (cond : Cond) : P (opRetCond cond s).1 := by
  unfold RealBoy.opRetCond
  split
  · exact h.doRet hs
  · exact hs

/-- **An instruction**, by the instruction set. -/
theorem handler (hs : P s) (i : Instr) : P (handler i s).1 := by
  cases i with
  | nop | prefixByte | undefined => exact hs
  | stop => exact h.regs _ _ hs
  | halt => exact h.halt _ hs
  | di | ei => exact h.ime _ _ hs
  | daa | cpl | scf | ccf => exact h.regs _ _ hs
  | ld dst src => exact h.ldHandler hs dst src
  | ldImm o =>
      cases o with
      | indHl => exact h.regs _ _ (h.write _ _ _ hs)
      | _ => exact h.regs _ _ (h.regs _ _ hs)
  | ldPairImm rr => exact h.regs _ _ (h.regs _ _ hs)
  | storeA p =>
      cases p with
      | bc | de => exact h.write _ _ _ hs
      | hlInc | hlDec => exact h.regs _ _ (h.write _ _ _ hs)
  | loadA p =>
      cases p with
      | bc | de => exact h.regs _ _ hs
      | hlInc | hlDec => exact h.regs _ _ (h.regs _ _ hs)
  | ldA16Sp => exact h.regs _ _ (h.wrWord hs _ _)
  | ldA16A | ldhA8A => exact h.regs _ _ (h.write _ _ _ hs)
  | ldhCA => exact h.write _ _ _ hs
  | ldAA16 | ldhAA8 => exact h.regs _ _ (h.regs _ _ hs)
  | ldhAC | ldSpHl => exact h.regs _ _ hs
  | ldHlSpE8 | addSpE8 => exact h.regs _ _ (h.regs _ _ hs)
  | inc o | dec o =>
      cases o with
      | indHl => exact h.regs _ _ (h.write _ _ _ (h.regs _ _ hs))
      | _ => exact h.regs _ _ hs
  | incPair rr | decPair rr | addHl rr => exact h.regs _ _ hs
  | alu k o => exact h.aluHandler hs k o
  | aluImm k => exact h.aluImmHandler hs k
  | rotA k => exact h.regs _ _ hs
  | jp cc =>
      cases cc with
      | none => exact h.regs _ _ hs
      | some cc => exact h.opJmpCond hs _
  | jpHl => exact h.regs _ _ hs
  | jr cc =>
      cases cc with
      | none => exact h.regs _ _ (h.regs _ _ hs)
      | some cc => exact h.opJrCond hs _
  | call cc =>
      cases cc with
      | none => exact h.opCallA16 hs
      | some cc => exact h.opCallCond hs _
  | ret cc =>
      cases cc with
      | none => exact h.doRet hs
      | some cc => exact h.opRetCond hs _
  | reti => exact h.ime _ _ (h.doRet hs)
  | rst n => exact h.opRestart hs _
  | push rr => exact h.opPushReg hs (stackPairOf rr)
  | pop rr =>
      cases rr with
      | af => exact h.regs _ _ (h.regs _ _ (h.regs _ _ hs))
      | _ => exact h.regs _ _ (h.regs _ _ hs)
  | shift k o => exact h.writeBackHandler hs _ o
  | bit n o => cases o <;> exact h.regs _ _ hs
  | res n o => exact h.writeBackHandler hs _ o
  | set n o => exact h.writeBackHandler hs _ o

theorem fetch (hs : P s) : P (fetch s).2.2 := by
  unfold RealBoy.fetch
  dsimp only
  split
  · exact h.regs _ _ (h.regs _ _ hs)
  · exact h.regs _ _ hs

end OpClosed

/-- The property survives the interrupt scan as well: the CPU wakes up, and an
interrupt is acknowledged. -/
structure ScanClosed (P : Emu → Prop) : Prop extends OpClosed P where
  wake : ∀ s, P s → P (s.updCpu fun c => { c with isHalted := false })
  acknowledge : ∀ s intrMask, P s → P (s.updCpu fun c => { c with
    imeEnabled := false, ifReg := c.ifReg &&& ~~~intrMask, isHalted := false })

namespace ScanClosed

variable {P : Emu → Prop} (h : ScanClosed P) {s : Emu}

include h

theorem intrStep (hs : P s) (intrMask : U8) : P (intrStep s intrMask) := by
  unfold RealBoy.intrStep
  split
  · dsimp only
    split
    · exact h.regs _ _ (h.push (h.acknowledge _ _ (h.wake _ hs)) _)
    · exact h.wake _ hs
  · exact hs

/-- **The interrupt scan.** -/
theorem handleIntrs (hs : P s) : P (handleIntrs s) := by
  unfold RealBoy.handleIntrs
  split
  · exact List.foldlRecOn _ _ hs fun s hs i _ => h.intrStep hs _
  · exact hs

end ScanClosed

/-- The property survives whatever an instruction or the scan does to the CPU. -/
structure CpuClosed (P : Emu → Prop) : Prop where
  regs : ∀ s r, P s → P { s with regs := r }
  cpu : ∀ s c, SameTimer s.cpu c → P s → P { s with cpu := c }
  write : ∀ s addr value, P s → P (monitorWrMem addr value s)

namespace CpuClosed

variable {P : Emu → Prop} (h : CpuClosed P) {s : Emu}

include h

theorem toScanClosed : ScanClosed P where
  regs := h.regs
  ime := fun s _ hs => h.cpu s _ ⟨rfl, rfl, rfl, rfl, rfl, rfl⟩ hs
  halt := fun s hs => h.cpu s _ ⟨rfl, rfl, rfl, rfl, rfl, rfl⟩ hs
  write := h.write
  wake := fun s hs => h.cpu s _ ⟨rfl, rfl, rfl, rfl, rfl, rfl⟩ hs
  acknowledge := fun s _ hs => h.cpu s _ ⟨rfl, rfl, rfl, rfl, rfl, rfl⟩ hs

theorem toOpClosed : OpClosed P := h.toScanClosed.toOpClosed

/-- **Fetch and execute.** -/
theorem execInstr (hs : P s) : P (execInstr s).1 := by
  unfold RealBoy.execInstr
  split
  · exact hs
  · refine h.cpu _ _ ⟨rfl, rfl, rfl, rfl, rfl, rfl⟩ ?_
    rw [dispatch_eq]
    exact h.toOpClosed.handler (h.toOpClosed.fetch hs) _

theorem advanceDiv (hs : P s) (cycles : Nat) : P (advanceDiv cycles s) :=
  h.cpu s _ ⟨rfl, rfl, rfl, rfl, rfl, rfl⟩ hs

theorem handleIntrs (hs : P s) : P (handleIntrs s) := h.toScanClosed.handleIntrs hs

end CpuClosed

end RealBoy
