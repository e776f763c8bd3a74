/-
# `RealBoy.Cpu.Shifts` — shifts of numbers of any length

The shift macros build the incoming bit from F and clear F at different points;
in a long shift each of them has to take the old carry in before it sets the new
one.  A long number stands in registers, or in memory where a program reaches it
through (HL) with INC HL or DEC HL in between (`Bytes`); the programs are sweeps
(`Bytes.swept`), so they double, halve and restore it (`multibyte_shift`).
-/
import RealBoy.Cpu.Regular
import RealBoy.Lib.Sweep
import Mathlib.Data.List.Iterate

namespace RealBoy

open Emu
open Sm83 (Operand Instr Shift little big)
open Sm83.Sweep (View Kept Passes Swept sweepOf sweepOf_same)

/-! ## Programs -/

/-- The instruction at PC. -/
def instrAt (s : Emu) : Instr :=
  if monitorRdMem s s.regs.pc = 0xcb then Sm83.decodePrefix (monitorRdMem s (s.regs.pc + 1))
  else Sm83.decode (monitorRdMem s s.regs.pc)

/-- The instructions that are executed from `s` on. -/
def CodeAt : List Instr → Emu → Prop
  | [], _ => True
  | i :: is, s => instrAt s = i ∧ CodeAt is (fetchDispatch s)

/-- The state behind some code. -/
def afterCode (code : List Instr) (s : Emu) : Emu := fetchDispatch^[code.length] s

instance : (code : List Instr) → (s : Emu) → Decidable (CodeAt code s)
  | [], _ => inferInstanceAs (Decidable True)
  | i :: is, s =>
    have := instDecidableCodeAt is (fetchDispatch s)
    inferInstanceAs (Decidable (instrAt s = i ∧ CodeAt is (fetchDispatch s)))

theorem fetchDispatch_instrAt (s : Emu) :
    ∃ len, fetchDispatch s = (handler (instrAt s) (advancePc len s)).1 := by
  by_cases h : monitorRdMem s s.regs.pc = 0xcb
  · exact ⟨2, by rw [fetchDispatch_cb h, instrAt, if_pos h]⟩
  · exact ⟨1, by rw [fetchDispatch_eq h, instrAt, if_neg h]⟩

section

variable {code code' : List Instr} {s : Emu}

theorem afterCode_append : afterCode (code ++ code') s = afterCode code' (afterCode code s) := by
  rw [afterCode, List.length_append, Nat.add_comm, Function.iterate_add_apply]
  rfl

theorem codeAt_append : CodeAt (code ++ code') s ↔ CodeAt code s ∧ CodeAt code' (afterCode code s) := by
  induction code generalizing s with
  | nil => exact (and_iff_right trivial).symm
  | cons i code ih =>
      rw [List.cons_append, CodeAt, CodeAt, ih, and_assoc]
      rfl

end

/-! ## Places -/

/-- A register, or an address reached through (HL). -/
inductive Place where
  | reg (o : Operand)
  | mem (a : U16)
deriving DecidableEq

/-- The byte at a place. -/
def Place.byte (s : Emu) : Place → U8
  | .reg o => operandOf s o
  | .mem a => monitorRdMem s a

/-- What a sweep over these places looks at. -/
def viewOf (ps : List Place) : View Emu Place where
  byte := Place.byte
  carry s := carryOf s.regs
  matters p := p ∈ ps

theorem viewOf_reverse (ps : List Place) : viewOf ps.reverse = viewOf ps := by
  simp only [viewOf, List.mem_reverse]

/-- The way from a byte to the next. -/
inductive Move where
  | inc | dec
deriving DecidableEq

namespace Move

def instr : Move → Instr
  | .inc => .incPair .hl
  | .dec => .decPair .hl

def back : Move → Move
  | .inc => .dec
  | .dec => .inc

def step (m : Move) (a : U16) : U16 :=
  match m with
  | .inc => a + 1
  | .dec => a + -1

theorem back_step (m : Move) : Function.LeftInverse m.back.step m.step := by
  intro a
  have hinc : (1 : U16) + -1 = 0#16 := rfl
  have hdec : (-1 : U16) + 1 = 0#16 := rfl
  cases m with
  | inc =>
      show a + 1 + -1 = a
      rw [BitVec.add_assoc, hinc, BitVec.add_zero]
  | dec =>
      show a + -1 + 1 = a
      rw [BitVec.add_assoc, hdec, BitVec.add_zero]

/-- The addresses on the way. -/
theorem toNat_iterate_step (m : Move) :
    ∃ c, (c = 1 ∨ c = 65535) ∧ ∀ i a, (m.step^[i] a).toNat = (a.toNat + c * i) % 65536 := by
  have steps {c : Nat} (hc : ∀ a, (m.step a).toNat = (a.toNat + c) % 65536) (i : Nat) (a : U16) :
      (m.step^[i] a).toNat = (a.toNat + c * i) % 65536 := by
    induction i with
    | zero =>
        show a.toNat = _
        omega
    | succ i ih =>
        rw [Function.iterate_succ_apply', hc, ih, Nat.mul_succ]
        omega
  cases m with
  | inc => exact ⟨1, .inl rfl, steps fun a => BitVec.toNat_add a 1⟩
  | dec => exact ⟨65535, .inr rfl, steps fun a => BitVec.toNat_add a (-1)⟩

/-- A way through memory does not come back: it would have passed address 0. -/
theorem nodup_iterate (m : Move) {a : U16} {n : Nat}
    (h : ∀ b ∈ List.iterate m.step a n, IsMemory b) : (List.iterate m.step a n).Nodup := by
  obtain ⟨c, hc, haddr⟩ := m.toNat_iterate_step
  have hshort : n ≤ 65536 := by
    by_contra hlong
    have hzero : ∃ i, i < 65536 ∧ (a.toNat + c * i) % 65536 = 0 := by
      have ha := a.isLt
      rcases hc with rfl | rfl
      · exact ⟨(65536 - a.toNat) % 65536, Nat.mod_lt _ (by decide), by omega⟩
      · exact ⟨a.toNat, ha, by omega⟩
    obtain ⟨i, hi, hi0⟩ := hzero
    have hat : m.step^[i] a = 0#16 := BitVec.eq_of_toNat_eq ((haddr i a).trans hi0)
    have hmem := h _ (List.mem_iterate.mpr ⟨i, by omega, rfl⟩)
    rw [hat] at hmem
    exact absurd hmem (by decide)
  rw [List.nodup_iff_pairwise_ne, List.pairwise_iff_getElem]
  intro i j hi hj hij heq
  rw [List.getElem_iterate, List.getElem_iterate] at heq
  rw [List.length_iterate] at hj
  have hnat := congrArg BitVec.toNat heq
  rw [haddr, haddr] at hnat
  rcases hc with rfl | rfl <;> omega

end Move

/-- A way back. -/
theorem reverse_iterate {α : Type} {f g : α → α} (h : Function.LeftInverse g f) (a : α) (n : Nat) :
    (List.iterate f a (n + 1)).reverse = List.iterate g (f^[n] a) (n + 1) := by
  induction n with
  | zero => rfl
  | succ n ih =>
      rw [List.iterate_add, List.reverse_append, ih, Function.iterate_succ_apply']
      show f (f^[n] a) :: List.iterate g (f^[n] a) (n + 1) =
        f (f^[n] a) :: List.iterate g (g (f (f^[n] a))) (n + 1)
      rw [h]

/-- Where the bytes of a long number are, in the order of a sweep: in registers,
or `n + 1` of them from `a` on, upwards or downwards. -/
inductive Bytes where
  | regs (os : List Operand)
  | hl (m : Move) (a : U16) (n : Nat)

namespace Bytes

/-- The places, in order. -/
def places : Bytes → List Place
  | .regs os => os.map .reg
  | .hl m a n => (List.iterate m.step a (n + 1)).map .mem

def read (b : Bytes) (s : Emu) : List U8 := b.places.map (Place.byte s)

/-- The bytes in reverse order. -/
def reverse : Bytes → Bytes
  | .regs os => .regs os.reverse
  | .hl m a n => .hl m.back (m.step^[n] a) n

/-- The shift `k` of the first byte, and `k'` of each further one. -/
def code (k k' : Shift) : Bytes → List Instr
  | .regs [] => []
  | .regs (o :: os) => .shift k o :: os.map (.shift k')
  | .hl m _ n => .shift k .indHl :: (List.replicate n [m.instr, .shift k' .indHl]).flatten

/-- A program for these bytes may start: the registers are distinct, or HL is at
the first byte, and all are in memory. -/
def Ready (s : Emu) : Bytes → Prop
  | .regs os => os ≠ [] ∧ os.Nodup ∧ ∀ o ∈ os, o ≠ .indHl
  | .hl m a n => s.regs.hl = a ∧ ∀ b ∈ List.iterate m.step a (n + 1), IsMemory b

end Bytes

/-! ## One instruction -/

theorem regOf_eq_some {o : Operand} (ho : o ≠ .indHl) : ∃ r, regOf o = some r ∧ r ≠ .f := by
  cases o with
  | indHl => exact absurd rfl ho
  | b | c | d | e | h | l | a => exact ⟨_, rfl, nofun⟩

theorem regOf_inj {o o' : Operand} {r : Reg8} (h : regOf o = some r) (h' : regOf o' = some r) :
    o = o' := by
  revert h
  rw [← h']
  cases o <;> cases o' <;> decide

/-- A register that is not written. -/
theorem get_set_of_ne (r : Registers) (w f : U8) {reg reg' : Reg8} (hne : reg' ≠ reg)
    (hf : reg' ≠ .f) : ({ r with f := f }.set w reg).get reg' = r.get reg' := by
  revert hne hf
  cases reg <;> cases reg' <;> first
    | exact fun _ _ => rfl
    | exact fun hne _ => absurd rfl hne
    | exact fun _ hf => absurd rfl hf

theorem get_set_self (r : Registers) (w : U8) (reg : Reg8) : (r.set w reg).get reg = w := by
  cases reg <;> rfl

theorem f_set (r : Registers) (w : U8) {reg : Reg8} (hf : reg ≠ .f) : (r.set w reg).f = r.f := by
  cases reg with
  | f => exact absurd rfl hf
  | a | b | c | d | e | h | l => rfl

/-- The place an operand stands for. -/
def placeAt (s : Emu) : Operand → Place
  | .indHl => .mem s.regs.hl
  | o => .reg o

theorem operandOf_reg (s : Emu) {o : Operand} {r : Reg8} (h : regOf o = some r) :
    operandOf s o = s.regs.get r := by rw [operandOf, h]

theorem placeAt_reg (s : Emu) {o : Operand} {r : Reg8} (h : regOf o = some r) :
    placeAt s o = .reg o := by
  cases o with
  | indHl => exact nomatch h
  | b | c | d | e | h | l | a => rfl

theorem eq_indHl {o : Operand} (h : regOf o = none) : o = .indHl := by
  revert h
  cases o <;> decide

/-- Only registers, and addresses. -/
def Proper (ps : List Place) : Prop := ∀ o, Place.reg o ∈ ps → o ≠ .indHl

/-- A shift is a pass over its operand. -/
theorem PutsBack.passes {ps : List Place} (hps : Proper ps) {k : Shift} {o : Operand} {s s' : Emu}
    {len : U16} (h : PutsBack o (k.value (operandOf s o) (carryOf s.regs))
      (packF s.regs.f (k.flags (operandOf s o) (carryOf s.regs))) (advancePc len s) s') :
    Passes (viewOf ps) k (placeAt s o) s s' := by
  cases h with
  | reg reg hreg =>
      obtain ⟨reg', hreg', hf⟩ := regOf_eq_some (o := o) (fun ho => nomatch ho ▸ hreg)
      obtain rfl : reg' = reg := Option.some.inj (hreg'.symm.trans hreg)
      rw [placeAt_reg s hreg]
      refine ⟨?_, ?_, fun q hq hne => ?_⟩
      · exact (operandOf_reg _ hreg).trans (get_set_self _ _ reg')
      · exact (congrArg (bit · flagCarry) (f_set _ _ hf)).trans (bit_packF _ _).2.2.2
      · cases q with
        | mem a => rfl
        | reg o' =>
            obtain ⟨r', hr', hf'⟩ := regOf_eq_some (hps o' hq)
            have hr : r' ≠ reg' := fun heq => hne (congrArg Place.reg (regOf_inj (heq ▸ hr') hreg))
            exact (operandOf_reg _ hr').trans
              ((get_set_of_ne _ _ _ hr hf').trans (operandOf_reg s hr').symm)
  | indHl _ hreg hregs _ hnew hsame =>
      obtain rfl := eq_indHl hreg
      refine ⟨hnew, ?_, fun q hq hne => ?_⟩
      · show bit s'.regs.f flagCarry = _
        rw [hregs]
        exact (bit_packF _ _).2.2.2
      · cases q with
        | mem a => exact hsame a fun ha => hne (congrArg Place.mem ha)
        | reg o' =>
            obtain ⟨r', hr', hf'⟩ := regOf_eq_some (hps o' hq)
            show operandOf s' o' = operandOf s o'
            rw [operandOf_reg _ hr', operandOf_reg _ hr', hregs]
            cases r' with
            | f => exact absurd rfl hf'
            | a | b | c | d | e | h | l => rfl

theorem PutsBack.hl {o : Operand} {w f : U8} {s s' : Emu} (h : PutsBack o w f s s')
    (ho : o = .indHl) : s'.regs.hl = s.regs.hl := by
  cases h with
  | reg _ hreg => exact nomatch ho ▸ hreg
  | indHl _ _ hregs =>
      rw [hregs]
      rfl

/-- A shift, executed. -/
theorem shift_passes {ps : List Place} (hps : Proper ps) {k : Shift} {o : Operand} {s : Emu}
    (hi : instrAt s = .shift k o) (hmem : o = .indHl → IsMemory s.regs.hl) :
    Passes (viewOf ps) k (placeAt s o) s (fetchDispatch s) ∧
      (o = .indHl → (fetchDispatch s).regs.hl = s.regs.hl) := by
  obtain ⟨len, hexec⟩ := fetchDispatch_instrAt s
  rw [hexec, hi]
  have hback : PutsBack o (k.value (operandOf s o) (carryOf s.regs))
      (packF s.regs.f (k.flags (operandOf s o) (carryOf s.regs))) (advancePc len s)
      (handler (.shift k o) (advancePc len s)).1 :=
    writeBackHandler_putsBack (s := advancePc len s) hmem
      (by rw [operandOf_advancePc]; exact doShift_eq k _ _)
  exact ⟨hback.passes hps, hback.hl⟩

/-- INC HL or DEC HL, executed. -/
theorem move_kept {ps : List Place} (hps : ∀ p ∈ ps, ∃ a, p = Place.mem a) {m : Move} {s : Emu}
    (hi : instrAt s = m.instr) :
    Kept (viewOf ps) s (fetchDispatch s) ∧ (fetchDispatch s).regs.hl = m.step s.regs.hl := by
  obtain ⟨len, hexec⟩ := fetchDispatch_instrAt s
  have hmove : ∃ x, fetchDispatch s = addReg16 .hl x (advancePc len s) ∧
      m.step s.regs.hl = s.regs.hl + x := by
    rw [hexec, hi]
    cases m with
    | inc => exact ⟨1, rfl, rfl⟩
    | dec => exact ⟨-1, rfl, rfl⟩
  obtain ⟨x, hx, hstep⟩ := hmove
  rw [hx, hstep]
  refine ⟨⟨fun p hp => ?_, rfl⟩, ?_⟩
  · obtain ⟨a, rfl⟩ := hps p hp
    rfl
  · exact @BitVec.extractLsb'_append_extractLsb' 8 8 (s.regs.hl + x)

/-! ## Sweeps -/

/-- Registers, one after the other. -/
theorem swept_regs {ps : List Place} (hps : Proper ps) {k : Shift} {os : List Operand} {s : Emu}
    (hos : ∀ o ∈ os, o ≠ .indHl) (h : CodeAt (os.map (.shift k)) s) :
    Swept (viewOf ps) ((os.map Place.reg).map (Prod.mk k)) s
      (afterCode (os.map (.shift k)) s) := by
  induction os generalizing s with
  | nil => exact .nil .rfl
  | cons o os ih =>
      obtain ⟨hi, hrest⟩ := h
      obtain ⟨ho, hos⟩ := List.forall_mem_cons.mp hos
      obtain ⟨r, hr, -⟩ := regOf_eq_some ho
      have hpass := (shift_passes hps hi fun h => absurd h ho).1
      rw [placeAt_reg s hr] at hpass
      exact .cons .rfl hpass (ih hos hrest)

/-- Bytes through (HL), each after a step of HL. -/
theorem swept_further {ps : List Place} (hps : ∀ p ∈ ps, ∃ a, p = Place.mem a) {k : Shift}
    {m : Move} {n : Nat} {s : Emu} (hmem : ∀ b ∈ List.iterate m.step (m.step s.regs.hl) n, IsMemory b)
    (h : CodeAt (List.replicate n [m.instr, .shift k .indHl]).flatten s) :
    let t := afterCode (List.replicate n [m.instr, .shift k .indHl]).flatten s
    Swept (viewOf ps) (((List.iterate m.step (m.step s.regs.hl) n).map Place.mem).map (Prod.mk k))
        s t ∧ t.regs.hl = m.step^[n] s.regs.hl := by
  have hproper : Proper ps := fun o ho => by
    obtain ⟨a, ha⟩ := hps _ ho
    exact nomatch ha
  induction n generalizing s with
  | zero => exact ⟨.nil .rfl, rfl⟩
  | succ n ih =>
      obtain ⟨hmove, hshift, hrest⟩ := h
      obtain ⟨hkept, hhl⟩ := move_kept hps hmove
      rw [List.iterate, List.forall_mem_cons] at hmem
      obtain ⟨hfirst, hmem⟩ := hmem
      rw [← hhl] at hfirst hmem
      obtain ⟨hpass, hhl'⟩ := shift_passes hproper hshift fun _ => hfirst
      rw [← hhl' rfl] at hmem
      obtain ⟨hswept, hlast⟩ := ih hmem hrest
      rw [hhl' rfl, hhl] at hswept hlast
      have hplace : placeAt (fetchDispatch s) .indHl = .mem (m.step s.regs.hl) :=
        congrArg Place.mem hhl
      rw [hplace] at hpass
      exact ⟨.cons hkept hpass hswept, hlast⟩

namespace Bytes

theorem proper {b : Bytes} {s : Emu} (h : b.Ready s) : Proper b.places := by
  cases b with
  | regs os =>
      intro o ho
      obtain ⟨o', ho', heq⟩ := List.mem_map.mp ho
      exact Place.reg.inj heq ▸ h.2.2 o' ho'
  | hl m a n =>
      intro o ho
      obtain ⟨_, _, heq⟩ := List.mem_map.mp ho
      exact nomatch heq

theorem nodup {b : Bytes} {s : Emu} (h : b.Ready s) : b.places.Nodup := by
  cases b with
  | regs os => exact h.2.1.map fun _ _ => Place.reg.inj
  | hl m a n => exact (m.nodup_iterate h.2).map fun _ _ => Place.mem.inj

theorem ne_nil {b : Bytes} {s : Emu} (h : b.Ready s) : b.places ≠ [] := by
  cases b with
  | regs os => exact mt List.map_eq_nil_iff.mp h.1
  | hl m a n => exact nofun

theorem places_reverse (b : Bytes) : b.reverse.places = b.places.reverse := by
  cases b with
  | regs os => exact List.map_reverse
  | hl m a n =>
      rw [places, ← List.map_reverse, reverse_iterate m.back_step]
      rfl

theorem swept {b : Bytes} {k k' : Shift} {s : Emu} (hready : b.Ready s)
    (h : CodeAt (b.code k k') s) :
    Swept (viewOf b.places) (sweepOf k k' b.places) s (afterCode (b.code k k') s) ∧
      b.reverse.Ready (afterCode (b.code k k') s) := by
  have hproper := proper hready
  cases b with
  | regs os =>
      obtain ⟨hne, hnodup, hos⟩ := hready
      refine ⟨?_, mt List.reverse_eq_nil_iff.mp hne, List.nodup_reverse.mpr hnodup,
        fun o ho => hos o (List.mem_reverse.mp ho)⟩
      cases os with
      | nil => exact absurd rfl hne
      | cons o os =>
          obtain ⟨hi, hrest⟩ := h
          obtain ⟨ho, hos⟩ := List.forall_mem_cons.mp hos
          obtain ⟨r, hr, -⟩ := regOf_eq_some ho
          have hpass := (shift_passes hproper hi fun h => absurd h ho).1
          rw [placeAt_reg s hr] at hpass
          exact .cons .rfl hpass (swept_regs hproper hos hrest)
  | hl m a n =>
      obtain ⟨rfl, hmem⟩ := hready
      obtain ⟨hi, hrest⟩ := h
      have hback := reverse_iterate m.back_step s.regs.hl n
      have hbackmem : ∀ b ∈ List.iterate m.back.step (m.step^[n] s.regs.hl) (n + 1), IsMemory b :=
        fun b hb => hmem b (List.mem_reverse.mp (hback ▸ hb))
      rw [List.iterate, List.forall_mem_cons] at hmem
      obtain ⟨hfirst, hmem⟩ := hmem
      obtain ⟨hpass, hhl⟩ := shift_passes hproper hi fun _ => hfirst
      rw [← hhl rfl] at hmem
      have hall : ∀ p ∈ (Bytes.hl m s.regs.hl n).places, ∃ a, p = Place.mem a := fun p hp => by
        obtain ⟨a, -, rfl⟩ := List.mem_map.mp hp
        exact ⟨a, rfl⟩
      obtain ⟨hswept, hlast⟩ := swept_further hall hmem hrest
      rw [hhl rfl] at hswept hlast
      exact ⟨.cons .rfl hpass hswept, hlast, hbackmem⟩

end Bytes

/-- **Shifts of any length.**  SLA and then RL from the least significant byte on
double the number; SRL, or SRA, and then RR from the most significant byte on
halve it, as an unsigned or as a signed one; the carry is the bit that went out.
RR undoes RL, and RRC undoes RLC, over the bytes in reverse order. -/
theorem multibyte_shift (b : Bytes) (s : Emu) (h : b.Ready s) :
    (CodeAt (b.code .sla .rl) s →
      let t := afterCode (b.code .sla .rl) s
      little (b.read t) = 2 * little (b.read s) % 256 ^ b.places.length ∧
        (carryOf t.regs = true ↔ 256 ^ b.places.length ≤ 2 * little (b.read s))) ∧
    (CodeAt (b.code .srl .rr) s →
      let t := afterCode (b.code .srl .rr) s
      big (b.read t) = big (b.read s) / 2 ∧
        (carryOf t.regs = true ↔ big (b.read s) % 2 = 1)) ∧
    (CodeAt (b.code .sra .rr) s →
      let t := afterCode (b.code .sra .rr) s
      (big (b.read t) : Int).bmod (256 ^ b.places.length) =
          (big (b.read s) : Int).bmod (256 ^ b.places.length) / 2 ∧
        (carryOf t.regs = true ↔ big (b.read s) % 2 = 1)) ∧
    (CodeAt (b.code .rl .rl ++ b.reverse.code .rr .rr) s →
      let t := afterCode (b.code .rl .rl ++ b.reverse.code .rr .rr) s
      b.read t = b.read s ∧ carryOf t.regs = carryOf s.regs) ∧
    (CodeAt (b.code .rlc .rlc ++ b.reverse.code .rrc .rrc) s →
      b.read (afterCode (b.code .rlc .rlc ++ b.reverse.code .rrc .rrc) s) = b.read s) := by
  have hne := Bytes.ne_nil h
  have hnodup := Bytes.nodup h
  have hm : ∀ p ∈ b.places, (viewOf b.places).matters p := fun _ hp => hp
  have hswept {k k' : Shift} (hcode : CodeAt (b.code k k') s) := (Bytes.swept h hcode).1
  have there_and_back {k k' : Shift} (hcode : CodeAt (b.code k k ++ b.reverse.code k' k') s) :
      ∃ t, Swept (viewOf b.places) (b.places.map (Prod.mk k)) s t ∧
        Swept (viewOf b.places) (b.places.reverse.map (Prod.mk k')) t
          (afterCode (b.code k k ++ b.reverse.code k' k') s) := by
    obtain ⟨hforth, hback⟩ := codeAt_append.mp hcode
    obtain ⟨hswept, hready⟩ := Bytes.swept h hforth
    have hrest := (Bytes.swept hready hback).1
    rw [Bytes.places_reverse, viewOf_reverse, sweepOf_same] at hrest
    rw [sweepOf_same] at hswept
    rw [afterCode_append]
    exact ⟨_, hswept, hrest⟩
  have same {t : Emu} (ht : ∀ p ∈ b.places, Place.byte t p = Place.byte s p) : b.read t = b.read s :=
    List.map_congr_left ht
  refine ⟨fun hcode => ?_, fun hcode => ?_, fun hcode => ?_, fun hcode => ?_, fun hcode => ?_⟩
  · have hdouble := (hswept hcode).sla hne hm hnodup
    exact hdouble
  · have hhalf := (hswept hcode).srl hne hm hnodup
    exact hhalf
  · have hhalf := (hswept hcode).sra hne hm hnodup
    exact hhalf
  · obtain ⟨t, hforth, hback⟩ := there_and_back hcode
    obtain ⟨hbytes, hcarry⟩ := hforth.undo True hback hm hnodup
      (fun v c c' hc => hc trivial ▸ (Shift.rr_rl v c).1) fun _ v c => (Shift.rr_rl v c).2
    exact ⟨same hbytes, hcarry trivial⟩
  · obtain ⟨t, hforth, hback⟩ := there_and_back hcode
    exact same (hforth.undo False hback hm hnodup (fun v c c' _ => Shift.rrc_rlc v c c') nofun).1

/-- 0xc081 in two bytes, and the code that doubles it. -/
def doubling : Emu :=
  { ramProgram [0xcb, 0x26, 0x23, 0xcb, 0x16, 0x81, 0xc0] 0 0 0 with
    regs := { Registers.zero with pc := 0xc000, h := 0xc0, l := 0x05 } }

def doublingBytes : Bytes := .hl .inc 0xc005 1

theorem doublingBytes_ready : doublingBytes.Ready doubling := by
  have hfirst : IsMemory 0xc005 := by decide
  have hsecond : IsMemory (0xc005 + 1) := by decide
  refine ⟨by decide +kernel, List.forall_mem_cons.mpr ⟨hfirst, ?_⟩⟩
  exact List.forall_mem_singleton.mpr hsecond

/-- It leaves 0x8102, with the carry set. -/
theorem multibyte_shift_double :
    little (doublingBytes.read (afterCode (doublingBytes.code .sla .rl) doubling)) =
        2 * little (doublingBytes.read doubling) % 256 ^ doublingBytes.places.length ∧
      (carryOf (afterCode (doublingBytes.code .sla .rl) doubling).regs = true ↔
        256 ^ doublingBytes.places.length ≤ 2 * little (doublingBytes.read doubling)) := by
  have hcode : CodeAt (doublingBytes.code .sla .rl) doubling := by decide +kernel
  have hdouble := (multibyte_shift _ _ doublingBytes_ready).1 hcode
  exact hdouble

end RealBoy
