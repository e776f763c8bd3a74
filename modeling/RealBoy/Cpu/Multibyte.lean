/-
# `RealBoy.Cpu.Multibyte` — arithmetic on numbers of any length

The carry flag is computed three ways in the source: as a wrap of the byte in
`DO_ADD` and `DO_SUB`, from the high bytes of an `int` in `DO_ADC`, and of a
`uint16_t` in the (HL) and immediate forms.  A chain takes two numbers byte by
byte, in any of the forms, the carry flag running from each pass to the next
(`Chain`); it adds or subtracts the numbers (`multibyte_arith`).
-/
import RealBoy.Cpu.Alu
import RealBoy.Lib.Ripple

namespace RealBoy

open Sm83 (Operand addValue addFlags subValue subFlags)

/-! ## Chains -/

/-- What the processing of one byte takes and leaves: A and the operand, A after
it, and the carry flag on both sides. -/
structure ByteStep where
  x : U8
  y : U8
  z : U8
  cin : Bool
  cout : Bool

/-- The step from `s` to `s'` with operand `v`. -/
def ByteStep.of (s : Emu) (v : U8) (s' : Emu) : ByteStep :=
  ⟨s.regs.a, v, s'.regs.a, carryOf s.regs, carryOf s'.regs⟩

/-- Bytes processed one after the other.  From the end of one step to the start
of the next anything may run that leaves the carry flag: the result is stored
and the next byte is loaded. -/
inductive Chain (step : Emu → U8 → Emu → Prop) : Bool → List ByteStep → Bool → Prop where
  | nil (c : Bool) : Chain step c [] c
  | cons {s s' : Emu} {v : U8} {bs : List ByteStep} {c' : Bool} : step s v s' →
      Chain step (carryOf s'.regs) bs c' → Chain step (carryOf s.regs) (.of s v s' :: bs) c'

/-- The number in one place of the steps, the least significant byte first. -/
def longNumber (f : ByteStep → U8) (bs : List ByteStep) : Nat :=
  Nat.ofDigits 256 (bs.map fun b => (f b).toNat)

/-- A step, its bytes read as digits. -/
def ByteStep.pass (digit : U8 → Nat) (b : ByteStep) : Ripple.Pass :=
  ⟨digit b.x, digit b.y, digit b.z, b.cin, b.cout⟩

section

variable {step : Emu → U8 → Emu → Prop} {c c' : Bool} {bs : List ByteStep}

theorem Chain.linked (h : Chain step c bs c') (digit : U8 → Nat) :
    Ripple.Linked c (bs.map (ByteStep.pass digit)) c' := by
  induction h with
  | nil c => exact .nil c
  | @cons s s' v bs c' _ _ ih => exact .cons (ByteStep.pass digit (.of s v s')) ih

/-- A chain of one step. -/
theorem Chain.single {s s' : Emu} {v : U8} (h : step s v s') :
    Chain step (carryOf s.regs) [.of s v s'] (carryOf s'.regs) :=
  .cons h (.nil _)

/-- What every step does, every step of a chain does. -/
theorem Chain.forall_steps (h : Chain step c bs c') {P : ByteStep → Prop}
    (hstep : ∀ s v s', step s v s' → P (.of s v s')) : ∀ b ∈ bs, P b := by
  induction h with
  | nil => exact fun _ hb => absurd hb List.not_mem_nil
  | cons hs _ ih =>
      intro b hb
      rcases List.mem_cons.mp hb with rfl | hb
      · exact hstep _ _ _ hs
      · exact ih b hb

theorem number_pass (digit : U8 → Nat) (m : Nat) (f : Ripple.Pass → Nat) (bs : List ByteStep) :
    Ripple.number m f (bs.map (ByteStep.pass digit)) =
      Nat.ofDigits m (bs.map fun b => f (b.pass digit)) := by
  rw [Ripple.number, List.map_map]
  rfl

end

/-! ## One byte -/

/-- The instruction at PC is the operation `k` on A, and its operand is `v`: a
register's, that at HL, or the immediate. -/
inductive AtAlu (k : Sm83.Alu) : U8 → Emu → Prop where
  | operand {s : Emu} (o : Operand) : Sm83.decode (monitorRdMem s s.regs.pc) = .alu k o →
      AtAlu k (operandOf s o) s
  | immediate {s : Emu} : Sm83.decode (monitorRdMem s s.regs.pc) = .aluImm k →
      AtAlu k (monitorRdMem s (s.regs.pc + 1)) s

theorem AtAlu.exec {k : Sm83.Alu} {v : U8} {s : Emu} (h : AtAlu k v s) :
    ∃ len, fetchDispatch s = aluStep k v len s := by
  have base {i : Sm83.Instr} (hop : Sm83.decode (monitorRdMem s s.regs.pc) = i)
      (hi : i ≠ .prefixByte) : monitorRdMem s s.regs.pc ≠ 0xcb :=
    fun h => hi (hop.symm.trans (congrArg Sm83.decode h))
  cases h with
  | operand o hop =>
      refine ⟨1, ?_⟩
      rw [fetchDispatch_eq (base hop nofun), hop]
      show (aluHandler _ _ (advancePc 1 s)).1 = _
      rw [aluHandler_eq, operandOf_advancePc]
      rfl
  | immediate hop =>
      refine ⟨1 + 1, ?_⟩
      rw [fetchDispatch_eq (base hop nofun), hop]
      show (aluImmHandler _ (advancePc 1 s)).1 = _
      rw [aluImmHandler_eq, aluStep, ← BitVec.add_assoc]
      rfl

/-- What the operation leaves in A and in the carry flag. -/
theorem AtAlu.result {k : Sm83.Alu} {v : U8} {s : Emu} (h : AtAlu k v s) :
    (fetchDispatch s).regs.a = k.value s.regs.a v (carryOf s.regs) ∧
      (fetchDispatch s).regs.f = packF s.regs.f (k.flags s.regs.a v (carryOf s.regs)) ∧
      carryOf (fetchDispatch s).regs = (k.flags s.regs.a v (carryOf s.regs)).c := by
  obtain ⟨len, hexec⟩ := h.exec
  rw [hexec]
  exact ⟨rfl, rfl, (bit_packF _ _).2.2.2⟩

/-- A byte of a long operation. -/
def aluPass (k : Sm83.Alu) (s : Emu) (v : U8) (s' : Emu) : Prop :=
  AtAlu k v s ∧ s' = fetchDispatch s

/-- The bytes of a long operation: the operation with carry for each, but the
first may be the one without. -/
inductive Longs (plain withCarry : Sm83.Alu) : Bool → List ByteStep → Bool → Prop where
  | chain {c c' : Bool} {bs : List ByteStep} : Chain (aluPass withCarry) c bs c' →
      Longs plain withCarry c bs c'
  | first {s : Emu} {v : U8} {c' : Bool} {bs : List ByteStep} : AtAlu plain v s →
      Chain (aluPass withCarry) (carryOf (fetchDispatch s).regs) bs c' →
      Longs plain withCarry false ({ ByteStep.of s v (fetchDispatch s) with cin := false } :: bs) c'

/-! ## Sums and differences -/

section

variable {x y : U8} {c : Bool}

theorem addValue_adds :
    (⟨x.toNat, y.toNat, (addValue x y c).toNat, c, (addFlags x y c).c⟩ : Ripple.Pass).Adds 256 := by
  show (addValue x y c).toNat + 256 * (decide (256 ≤ x.toNat + y.toNat + c.toNat)).toNat =
    x.toNat + y.toNat + c.toNat
  have hx := x.isLt
  have hy := y.isLt
  have hc := c.toNat_le
  rw [addValue_toNat]
  by_cases hcarry : 256 ≤ x.toNat + y.toNat + c.toNat
  · rw [decide_eq_true hcarry, Bool.toNat_true]
    omega
  · rw [decide_eq_false hcarry, Bool.toNat_false]
    omega

theorem subValue_subs :
    (⟨x.toNat, y.toNat, (subValue x y c).toNat, c, (subFlags x y c).c⟩ : Ripple.Pass).Subs 256 := by
  show (subValue x y c).toNat + y.toNat + c.toNat =
    x.toNat + 256 * (decide (x.toNat < y.toNat + c.toNat)).toNat
  have hx := x.isLt
  have hy := y.isLt
  have hc := c.toNat_le
  have hvalue := subValue_toNat (a := x) (v := y) c
  by_cases hborrow : x.toNat < y.toNat + c.toNat
  · rw [decide_eq_true hborrow, Bool.toNat_true]
    omega
  · rw [decide_eq_false hborrow, Bool.toNat_false]
    omega

end

/-- ADC, and ADD with the carry taken as clear. -/
theorem adds_of_result {k : Sm83.Alu} {v : U8} {s : Emu} {c : Bool} (h : AtAlu k v s)
    (hvalue : k.value s.regs.a v (carryOf s.regs) = addValue s.regs.a v c)
    (hflags : k.flags s.regs.a v (carryOf s.regs) = addFlags s.regs.a v c) :
    (ByteStep.pass BitVec.toNat
      { ByteStep.of s v (fetchDispatch s) with cin := c }).Adds 256 := by
  obtain ⟨ha, -, hcarry⟩ := h.result
  rw [hvalue] at ha
  rw [hflags] at hcarry
  simp only [ByteStep.pass, ByteStep.of, ha, hcarry]
  exact addValue_adds

/-- SBC, and SUB with the carry taken as clear. -/
theorem subs_of_result {k : Sm83.Alu} {v : U8} {s : Emu} {c : Bool} (h : AtAlu k v s)
    (hvalue : k.value s.regs.a v (carryOf s.regs) = subValue s.regs.a v c)
    (hflags : k.flags s.regs.a v (carryOf s.regs) = subFlags s.regs.a v c) :
    (ByteStep.pass BitVec.toNat
      { ByteStep.of s v (fetchDispatch s) with cin := c }).Subs 256 := by
  obtain ⟨ha, -, hcarry⟩ := h.result
  rw [hvalue] at ha
  rw [hflags] at hcarry
  simp only [ByteStep.pass, ByteStep.of, ha, hcarry]
  exact subValue_subs

section

variable {plain withCarry : Sm83.Alu} {c c' : Bool} {bs : List ByteStep}

theorem Longs.linked (h : Longs plain withCarry c bs c') :
    Ripple.Linked c (bs.map (ByteStep.pass BitVec.toNat)) c' := by
  cases h with
  | chain hchain => exact hchain.linked BitVec.toNat
  | @first s v c' bs _ hchain =>
      exact .cons (ByteStep.pass BitVec.toNat
        { ByteStep.of s v (fetchDispatch s) with cin := false }) (hchain.linked BitVec.toNat)

theorem Longs.forall_steps (h : Longs plain withCarry c bs c') {P : ByteStep → Prop}
    (hcarry : ∀ s v, AtAlu withCarry v s → P (.of s v (fetchDispatch s)))
    (hplain : ∀ s v, AtAlu plain v s →
      P { ByteStep.of s v (fetchDispatch s) with cin := false }) : ∀ b ∈ bs, P b := by
  have step : ∀ s v s', aluPass withCarry s v s' → P (.of s v s') := by
    rintro s v s' ⟨hat, rfl⟩
    exact hcarry s v hat
  cases h with
  | chain hchain => exact hchain.forall_steps step
  | @first s v c' bs hat hchain =>
      intro b hb
      rcases List.mem_cons.mp hb with rfl | hb
      · exact hplain s v hat
      · exact hchain.forall_steps step b hb

/-- Every digit of a byte step is a byte. -/
theorem pass_lt {p : Ripple.Pass} (hp : p ∈ bs.map (ByteStep.pass BitVec.toNat)) : p.z < 256 := by
  obtain ⟨b, -, rfl⟩ := List.mem_map.mp hp
  exact b.z.isLt

end

/-- **Arithmetic of any length.**  Two numbers taken byte by byte with ADC, or
with SBC, each byte from a register, from (HL) or immediate, and with ADD or SUB
allowed for the first byte: the sum, or the difference, in as many bytes, and the
last carry says whether it did not fit. -/
theorem multibyte_arith (c c' : Bool) (bs : List ByteStep) :
    (Longs .add .adc c bs c' →
      longNumber ByteStep.z bs =
          (longNumber ByteStep.x bs + longNumber ByteStep.y bs + c.toNat) % 256 ^ bs.length ∧
        (c' = true ↔
          256 ^ bs.length ≤ longNumber ByteStep.x bs + longNumber ByteStep.y bs + c.toNat)) ∧
    (Longs .sub .sbc c bs c' →
      (longNumber ByteStep.z bs : Int) =
          ((longNumber ByteStep.x bs : Int) - longNumber ByteStep.y bs - c.toNat) %
            ((256 ^ bs.length : Nat) : Int) ∧
        (c' = true ↔
          (longNumber ByteStep.x bs : Int) - longNumber ByteStep.y bs - c.toNat < 0)) := by
  have numbers (f : Ripple.Pass → Nat) := number_pass BitVec.toNat 256 f bs
  constructor
  · intro h
    have hadds : ∀ p ∈ bs.map (ByteStep.pass BitVec.toNat), p.Adds 256 := by
      rw [List.forall_mem_map]
      exact h.forall_steps (fun s v hat => adds_of_result hat rfl rfl)
        fun s v hat => adds_of_result hat rfl rfl
    have hsum := Ripple.add_mod (by decide) (fun p hp => pass_lt hp) h.linked hadds
    rw [numbers, numbers, numbers, List.length_map] at hsum
    exact hsum
  · intro h
    have hsubs : ∀ p ∈ bs.map (ByteStep.pass BitVec.toNat), p.Subs 256 := by
      rw [List.forall_mem_map]
      exact h.forall_steps (fun s v hat => subs_of_result hat rfl rfl)
        fun s v hat => subs_of_result hat rfl rfl
    have hdiff := Ripple.sub_mod (by decide) (fun p hp => pass_lt hp) h.linked hsubs
    rw [numbers, numbers, numbers, List.length_map] at hdiff
    exact hdiff

/-- A program in work RAM, with these contents of A, F and B. -/
def ramProgram (code : List U8) (a f b : U8) : Emu :=
  { powerOn #[] #[] with
    regs := { Registers.zero with pc := 0xc000, a := a, f := f, b := b }
    wram := fun k => code.getD k 0 }

/-- The low and the high byte of 0x12ff + 0x3401: ADC A,B and ADC A,0x34. -/
def sumLow : Emu := ramProgram [0x88] 0xff 0 0x01
def sumHigh : Emu := ramProgram [0xce, 0x34] 0x12 flagCarry 0

def sumSteps : List ByteStep :=
  [.of sumLow (operandOf sumLow .b) (fetchDispatch sumLow),
    .of sumHigh (monitorRdMem sumHigh (sumHigh.regs.pc + 1)) (fetchDispatch sumHigh)]

theorem sumSteps_longs : Longs .add .adc false sumSteps false := by
  have hlow : AtAlu .adc (operandOf sumLow .b) sumLow := .operand .b (by decide +kernel)
  have hhigh : AtAlu .adc (monitorRdMem sumHigh (sumHigh.regs.pc + 1)) sumHigh :=
    .immediate (by decide +kernel)
  have hin : carryOf sumLow.regs = false := by decide +kernel
  have hmid : carryOf (fetchDispatch sumLow).regs = carryOf sumHigh.regs := by decide +kernel
  have hout : carryOf (fetchDispatch sumHigh).regs = false := by decide +kernel
  have htail := Chain.single (show aluPass .adc sumHigh _ _ from ⟨hhigh, rfl⟩)
  rw [← hmid, hout] at htail
  have hall := Chain.cons ⟨hlow, rfl⟩ htail
  rw [hin] at hall
  exact .chain hall

/-- 0x12ff + 0x3401. -/
theorem multibyte_arith_sum :
    longNumber ByteStep.z sumSteps =
        (longNumber ByteStep.x sumSteps + longNumber ByteStep.y sumSteps + false.toNat) %
          256 ^ sumSteps.length ∧
      (false = true ↔ 256 ^ sumSteps.length ≤
        longNumber ByteStep.x sumSteps + longNumber ByteStep.y sumSteps + false.toNat) :=
  (multibyte_arith false false sumSteps).1 sumSteps_longs

end RealBoy
