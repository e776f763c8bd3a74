/-
# `RealBoy.Server.Inspect` — what the debugger looks at

`dispatch_inspect` turns a request into a `struct peek`, lets the CPU or the PPU
answer it, and passes the reply on.  Here the reply is what it is in memory: a
size and an allocated block, either of which may never have been written;
`cpuPeekTo_eq` says that the block is the words of `cpuPeek`, byte for byte, and
that nothing is written past its end.

The two `switch`es have a case for all that they are called with, except for a
subtype that is none of the five: then `peek` and the reply are used as they
were declared, without a value.  And `op_len` is indexed by a byte that was read,
but in `CPU_PEEK_OP_LEN` by the argument as it came.  Nothing else can go wrong
(`answeredSafely_iff`).
-/
import RealBoy.Cpu.Peek
import RealBoy.Lib.Blocks

namespace RealBoy

open Blocks (malloc memcpy foldlM_memcpy)

/-! ## The replies in memory -/

/-- What leaves the language: an index past the end of `op_len`, a copy past the
end of a block, a variable that was never assigned. -/
inductive Fault where
  | opLenIndex (index : U32)
  | overrun
  | indeterminate
deriving DecidableEq

/-- `struct peek_reply`. -/
structure PeekReplyMem where
  size : Nat
  payload : List (Option U8)
deriving DecidableEq

/-- A `uint32_t` in memory. -/
def wordBytes (w : U32) : List U8 :=
  [w.setWidth 8, (w >>> 8).setWidth 8, (w >>> 16).setWidth 8, (w >>> 24).setWidth 8]

/-- A reply of one word. -/
def replyWord (w : U32) : Except Fault PeekReplyMem := do
  let size := 4
  let payload ← memcpy .overrun (malloc U8 size) 0 (wordBytes w)
  return ⟨size, payload⟩

/-- `op_len[index]`. -/
def opLenAt (index : U32) : Except Fault Nat :=
  if index.toNat < 256 then .ok (opLenTable.getD index.toNat 0) else .error (.opLenIndex index)

/-- `opcode == OPCODE_PREFIX ? 2 : op_len[opcode]`. -/
def instrLenAt (opcode : U32) : Except Fault Nat :=
  if opcode = 0xcb then .ok 2 else opLenAt opcode

/-- The block of `cpu_peek`'s `CPU_PEEK_INSTR_AT_ADDR`. -/
def replyInstr (s : Emu) (req : U32) : Except Fault PeekReplyMem := do
  let opcode := peekMem s req
  let len ← instrLenAt opcode
  let payload ← memcpy .overrun (malloc U8 (4 * len)) 0 (wordBytes opcode)
  let payload ← (List.range (len - 1)).foldlM (fun payload i =>
    memcpy .overrun payload (4 * (1 + i))
      (wordBytes (peekMem s (req + BitVec.ofNat 32 (i + 1))))) payload
  return ⟨4 * len, payload⟩

/-- `cpu_peek`, the reply given as it was. -/
def cpuPeekTo (s : Emu) (subtype req : U32) (reply : Option PeekReplyMem) :
    Except Fault (Option PeekReplyMem) :=
  if subtype = cpuPeekReg then some <$> replyWord ((peekGetCpuReg s req).setWidth 32)
  else if subtype = cpuPeekAddr then some <$> replyWord (peekMem s req)
  else if subtype = cpuPeekInstrAtAddr then some <$> replyInstr s req
  else if subtype = cpuPeekOpLen then do
    let len ← opLenAt req
    some <$> replyWord (BitVec.ofNat 32 len)
  else .ok reply

/-- `enum ppu_peek_type`. -/
def ppuPeekReg : U32 := 0

/-- `peek_get_ppu_reg`: LY, and -1 for any other register. -/
def peekGetPpuReg (s : Emu) (ppuReg : U32) : U16 :=
  if ppuReg = 0xff44 then (ppuRd s.ppu 0xff44).setWidth 16 else -1

/-- `ppu_peek`, the reply given as it was. -/
def ppuPeekTo (s : Emu) (subtype req : U32) (reply : Option PeekReplyMem) :
    Except Fault (Option PeekReplyMem) :=
  if subtype = ppuPeekReg then some <$> replyWord ((peekGetPpuReg s req).setWidth 32)
  else .ok reply

/-! ## `dispatch_inspect` -/

/-- `req->hdr.subtype.inspect`: the five subtypes by name, and any other. -/
inductive InspectSubtype where
  | getCpuReg
  | getPpuReg
  | printAddr
  | getInstrAtAddr
  | getOpLen
  | other (subtype : U32)
deriving DecidableEq

/-- `enum peek_type`. -/
inductive PeekType where
  | cpu
  | ppu
deriving DecidableEq

/-- `struct peek`. -/
structure Peek where
  type : PeekType
  subtype : U32
  req : U32
deriving DecidableEq

/-- The answer: `hdr.subtype`, where it is set, `hdr.size` and the payload. -/
structure InspectAnswer where
  subtype : Option InspectSubtype
  size : Nat
  payload : List (Option U8)
deriving DecidableEq

/-- The first `switch` of `dispatch_inspect`: `answer->hdr.subtype` and `peek`. -/
def inspectPeek (subtype : InspectSubtype) (arg : U32) : Option InspectSubtype × Option Peek :=
  match subtype with
  | .getCpuReg => (some .getCpuReg, some ⟨.cpu, cpuPeekReg, arg⟩)
  | .getPpuReg => (some .getPpuReg, some ⟨.ppu, ppuPeekReg, arg⟩)
  | .printAddr => (some .printAddr, some ⟨.cpu, cpuPeekAddr, arg⟩)
  | .getInstrAtAddr => (some .getInstrAtAddr, some ⟨.cpu, cpuPeekInstrAtAddr, arg⟩)
  | .getOpLen => (some .getOpLen, some ⟨.cpu, cpuPeekOpLen, arg⟩)
  | .other _ => (none, none)

/-- The second `switch`; it looks at `peek.type`. -/
def peekTo (s : Emu) (peek : Option Peek) (reply : Option PeekReplyMem) :
    Except Fault (Option PeekReplyMem) :=
  match peek with
  | none => .error .indeterminate
  | some ⟨.cpu, subtype, req⟩ => cpuPeekTo s subtype req reply
  | some ⟨.ppu, subtype, req⟩ => ppuPeekTo s subtype req reply

/-- `dispatch_inspect`; `arg` is the word in the request's payload. -/
def dispatchInspect (s : Emu) (subtype : InspectSubtype) (arg : U32) :
    Except Fault InspectAnswer := do
  let (answerSubtype, peek) := inspectPeek subtype arg
  let reply ← peekTo s peek none
  match reply with
  | none => .error .indeterminate
  | some reply => return ⟨answerSubtype, reply.size, reply.payload⟩

/-- The `TYPE_INSPECT` case of `server_recv_request_and_dispatch`: no answer
while the emulator runs. -/
def recvInspect (serverRunning : Bool) (s : Emu) (subtype : InspectSubtype) (arg : U32) :
    Option (Except Fault InspectAnswer) :=
  if serverRunning then none else some (dispatchInspect s subtype arg)

/-! ## The words of a reply -/

/-- A reply that holds these words. -/
def wordsReply (ws : List U32) : PeekReplyMem := ⟨4 * ws.length, (ws.flatMap wordBytes).map some⟩

theorem opLenAt_of_lt {index : U32} (h : index.toNat < 256) :
    opLenAt index = .ok (opLen (index.setWidth 8)) := by
  have hbyte : (index.setWidth 8 : U8).toNat = index.toNat := by
    rw [BitVec.toNat_setWidth]
    exact Nat.mod_eq_of_lt h
  rw [opLenAt, if_pos h, opLen, hbyte]

theorem opLenAt_byte (op : U8) : opLenAt (op.setWidth 32) = .ok (opLen op) := by
  have hlt : (op.setWidth 32 : U32).toNat < 256 := by bv_omega
  have hop : (op.setWidth 32 : U32).setWidth 8 = op := by bv_omega
  rw [opLenAt_of_lt hlt, hop]

/-- The words of an instruction fill their block. -/
theorem fill_words (opcode : U32) (f : Nat → U32) (n : Nat) :
    (do
      let payload ← memcpy Fault.overrun (malloc U8 (4 * (n + 1))) 0 (wordBytes opcode)
      (List.range n).foldlM (fun payload i =>
        memcpy .overrun payload (4 * (1 + i)) (wordBytes (f i))) payload) =
      .ok ((opcode :: (List.range n).map f).flatMap wordBytes |>.map some) := by
  have hfirst := Blocks.memcpy_append Fault.overrun [] (wordBytes opcode) (4 * n)
  have hone : (wordBytes opcode).length = 4 * 1 := rfl
  have hrest := foldlM_memcpy Fault.overrun n (f := fun i => wordBytes (f i)) hone fun _ => rfl
  have hsize : 4 * (n + 1) = (wordBytes opcode).length + 4 * n := by
    rw [Nat.mul_succ, Nat.add_comm]
    rfl
  rw [hsize]
  refine (congrArg (· >>= _) hfirst).trans (hrest.trans ?_)
  simp [List.flatMap_map]

/-- The length of the instruction that starts with a byte read from memory. -/
theorem instrLenAt_byte (op : U8) : instrLenAt (op.setWidth 32) = .ok (opLen op) := by
  rw [instrLenAt]
  split
  case isTrue h =>
    have hop : op = 0xcb := by bv_omega
    rw [hop, opLen_cb]
  case isFalse => exact opLenAt_byte op

/-- The byte at an address, counted from the argument. -/
def byteAt (s : Emu) (arg : U32) (i : Nat) : U8 :=
  monitorRdMem s (BitVec.ofNat 16 ((arg.toNat + i) % 65536))

theorem peekMem_add (s : Emu) (arg : U32) (i : Nat) :
    peekMem s (arg + BitVec.ofNat 32 i) = (byteAt s arg i).setWidth 32 := by
  have haddr : (arg + BitVec.ofNat 32 i).setWidth 16 =
      BitVec.ofNat 16 ((arg.toNat + i) % 65536) := by
    apply BitVec.eq_of_toNat_eq
    simp
  rw [peekMem, haddr, byteAt]

theorem peekMem_self (s : Emu) (arg : U32) : peekMem s arg = (byteAt s arg 0).setWidth 32 := by
  simpa using peekMem_add s arg 0

/-- The bytes of the instruction at an address, a word each; `op_len` tells how
many. -/
def instrWords (s : Emu) (arg : U32) : List U32 :=
  (List.range (opLen (byteAt s arg 0))).map fun i => (byteAt s arg i).setWidth 32

/-- **The instruction** fills its block from end to end, and not past it. -/
theorem replyInstr_eq (s : Emu) (arg : U32) :
    replyInstr s arg = .ok (wordsReply (instrWords s arg)) := by
  obtain ⟨n, hn⟩ := Nat.exists_eq_add_of_le' (opLen_pos (byteAt s arg 0))
  have hwords : instrWords s arg = (byteAt s arg 0).setWidth 32 ::
      (List.range n).map fun i => (byteAt s arg (i + 1)).setWidth 32 := by
    rw [instrWords, hn, List.range_succ_eq_map, List.map_cons, List.map_map]
    rfl
  have hfill := fill_words ((byteAt s arg 0).setWidth 32)
    (fun i => (byteAt s arg (i + 1)).setWidth 32) n
  rw [← hwords] at hfill
  have hlen : (instrWords s arg).length = n + 1 := by
    simp [hwords]
  rw [replyInstr, wordsReply, hlen]
  simp only [peekMem_add, peekMem_self s arg, instrLenAt_byte, hn]
  exact congrArg (fun r : Except Fault (List (Option U8)) =>
    r >>= fun payload => .ok (PeekReplyMem.mk (4 * (n + 1)) payload)) hfill

/-- The words that `cpuPeek` has for the instruction. -/
theorem cpuPeek_instr (s : Emu) (arg : U32) :
    cpuPeek s cpuPeekInstrAtAddr arg = .words (instrWords s arg) := by
  have hop : monitorRdMem s (arg.setWidth 16) = byteAt s arg 0 := by
    have h := peekMem_self s arg
    rw [peekMem] at h
    bv_omega
  have hcb : (if byteAt s arg 0 = 0xcb then 2 else opLen (byteAt s arg 0)) =
      opLen (byteAt s arg 0) := by
    split
    case isTrue h => rw [h, opLen_cb]
    case isFalse => rfl
  obtain ⟨n, hn⟩ := Nat.exists_eq_add_of_le' (opLen_pos (byteAt s arg 0))
  rw [cpuPeek, if_neg (by decide), if_neg (by decide), if_pos rfl, hop, instrWords]
  dsimp only
  rw [hcb, hn, List.range_succ_eq_map]
  simp [peekMem_add]

/-- **`cpu_peek`, in memory**: the words of `cpuPeek`, or the reply as it was. -/
theorem cpuPeekTo_eq (s : Emu) (subtype req : U32) (reply : Option PeekReplyMem) :
    cpuPeekTo s subtype req reply =
      match cpuPeek s subtype req with
      | .words ws => .ok (some (wordsReply ws))
      | .unset => .ok reply
      | .outside index => .error (.opLenIndex index) := by
  rw [cpuPeekTo]
  by_cases hreg : subtype = cpuPeekReg
  · rw [if_pos hreg, cpuPeek, if_pos hreg]
    rfl
  rw [if_neg hreg]
  by_cases haddr : subtype = cpuPeekAddr
  · rw [if_pos haddr, cpuPeek, if_neg hreg, if_pos haddr]
    rfl
  rw [if_neg haddr]
  by_cases hinstr : subtype = cpuPeekInstrAtAddr
  · rw [if_pos hinstr, hinstr, cpuPeek_instr, replyInstr_eq]
    rfl
  rw [if_neg hinstr, cpuPeek, if_neg hreg, if_neg haddr, if_neg hinstr]
  by_cases hop : subtype = cpuPeekOpLen
  · rw [if_pos hop, if_pos hop]
    by_cases hlt : req.toNat < 256
    · rw [opLenAt_of_lt hlt, if_pos hlt]
      rfl
    · rw [opLenAt, if_neg hlt, if_neg hlt]
      rfl
  · rw [if_neg hop, if_neg hop]

/-! ## Answers -/

/-- The words that answer a request, where there are some. -/
def answerWords (s : Emu) (subtype : InspectSubtype) (arg : U32) : Except Fault (List U32) :=
  match subtype with
  | .getCpuReg => .ok [(peekGetCpuReg s arg).setWidth 32]
  | .getPpuReg => .ok [(peekGetPpuReg s arg).setWidth 32]
  | .printAddr => .ok [peekMem s arg]
  | .getInstrAtAddr => .ok (instrWords s arg)
  | .getOpLen =>
      if arg.toNat < 256 then .ok [BitVec.ofNat 32 (opLen (arg.setWidth 8))]
      else .error (.opLenIndex arg)
  | .other _ => .error .indeterminate

/-- **Both levels of the dispatch.** -/
theorem dispatchInspect_eq (s : Emu) (subtype : InspectSubtype) (arg : U32) :
    dispatchInspect s subtype arg = (answerWords s subtype arg).map fun ws =>
      ⟨some subtype, (wordsReply ws).size, (wordsReply ws).payload⟩ := by
  have answer {peek : Peek} {ws : List U32}
      (hpeek : inspectPeek subtype arg = (some subtype, some peek))
      (hreply : peekTo s (some peek) none = .ok (some (wordsReply ws))) :
      dispatchInspect s subtype arg =
        .ok ⟨some subtype, (wordsReply ws).size, (wordsReply ws).payload⟩ := by
    rw [dispatchInspect, hpeek]
    exact congrArg (· >>= _) hreply
  have cpu {sub : U32} {ws : List U32} (h : cpuPeek s sub arg = .words ws) :
      peekTo s (some ⟨.cpu, sub, arg⟩) none = .ok (some (wordsReply ws)) := by
    show cpuPeekTo s sub arg none = _
    rw [cpuPeekTo_eq, h]
  cases subtype with
  | getCpuReg => exact answer rfl (cpu rfl)
  | getPpuReg => exact answer rfl rfl
  | printAddr => exact answer rfl (cpu rfl)
  | getInstrAtAddr => exact answer rfl (cpu (cpuPeek_instr s arg))
  | getOpLen =>
      have hpeek : cpuPeek s cpuPeekOpLen arg =
          if arg.toNat < 256 then .words [BitVec.ofNat 32 (opLen (arg.setWidth 8))]
          else .outside arg := rfl
      rw [answerWords]
      split
      case isTrue hlt => exact answer rfl (cpu (hpeek.trans (if_pos hlt)))
      case isFalse hge =>
        have hfault : cpuPeekTo s cpuPeekOpLen arg none = .error (.opLenIndex arg) := by
          rw [cpuPeekTo_eq, hpeek, if_neg hge]
        exact congrArg (· >>= _) hfault
  | other v => rfl

/-- The request is answered: nothing leaves the language on the way, the payload
is written and as long as the answer says, and for an instruction it holds the
bytes at the argument and behind it, modulo 65536. -/
def AnsweredSafely (s : Emu) (subtype : InspectSubtype) (arg : U32) : Prop :=
  ∃ (answer : InspectAnswer) (bytes : List U8),
    recvInspect false s subtype arg = some (.ok answer) ∧
      answer.payload = bytes.map some ∧ bytes.length = answer.size ∧
      (subtype = .getInstrAtAddr → bytes = (instrWords s arg).flatMap wordBytes)

theorem length_flatMap_wordBytes (ws : List U32) :
    (ws.flatMap wordBytes).length = 4 * ws.length := by
  induction ws with
  | nil => rfl
  | cons w ws ih =>
      rw [List.flatMap_cons, List.length_append, ih, List.length_cons, Nat.mul_succ, Nat.add_comm]
      rfl

theorem answeredSafely_iff_ok (s : Emu) (subtype : InspectSubtype) (arg : U32) :
    AnsweredSafely s subtype arg ↔ ∃ ws, answerWords s subtype arg = .ok ws := by
  have hrecv : recvInspect false s subtype arg = some (dispatchInspect s subtype arg) := rfl
  rw [AnsweredSafely, hrecv, dispatchInspect_eq]
  constructor
  · rintro ⟨answer, bytes, hanswer, -⟩
    cases hw : answerWords s subtype arg with
    | ok ws => exact ⟨ws, rfl⟩
    | error fault =>
        rw [hw] at hanswer
        cases hanswer
  · rintro ⟨ws, hw⟩
    refine ⟨_, ws.flatMap wordBytes, by rw [hw]; rfl, rfl, length_flatMap_wordBytes ws, ?_⟩
    rintro rfl
    cases hw
    rfl

/-- **INSPECT requests are answered safely**, in the stopped emulator, but for an
unknown subtype and for the length of what is no opcode. -/
theorem answeredSafely_iff (s : Emu) (subtype : InspectSubtype) (arg : U32) :
    AnsweredSafely s subtype arg ↔
      (∀ v, subtype ≠ .other v) ∧ (subtype = .getOpLen → arg.toNat < 256) := by
  rw [answeredSafely_iff_ok]
  cases subtype with
  | getCpuReg | getPpuReg | printAddr | getInstrAtAddr => simp [answerWords]
  | getOpLen =>
      rw [answerWords]
      split
      case isTrue hlt => simp [hlt]
      case isFalse hge => simp [hge]
  | other v => simp [answerWords]

/-- The length of opcode 256. -/
theorem not_answeredSafely_opLen :
    ¬ ∀ (s : Emu) (subtype : InspectSubtype) (arg : U32), AnsweredSafely s subtype arg := by
  intro h
  obtain ⟨answer, bytes, hanswer, -⟩ := h (powerOn #[] #[]) .getOpLen 256
  cases hanswer

end RealBoy
