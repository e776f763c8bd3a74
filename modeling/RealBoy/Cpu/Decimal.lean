/-
# `RealBoy.Cpu.Decimal` — DAA, and decimal numbers of any length

`op_daa` corrects A from the three flags the last addition or subtraction left.
After ADC that is exact, digit pair by digit pair, so that decimal numbers of any
length are added (`decimal_sum`).  After SBC it takes 60 from A where a borrow
calls for 0x60: a byte that borrows comes out 36 too large
(`decimalPass_diff`), and a subtraction is exact just when no byte of it borrows
(`decimal_difference_iff`).
-/
import RealBoy.Cpu.Multibyte

namespace RealBoy

open Sm83 (addValue addFlags subValue subFlags)

/-! ## `op_daa` -/

/-- `acc` at the end of the two branches of `op_daa`. -/
def daaAcc (a : U8) (sub half carry : Bool) : U16 :=
  let acc : U16 := a.setWidth 16
  if sub then
    let acc := if half then (acc - 6) &&& 0xff else acc
    if carry then acc - 60 else acc
  else
    let acc :=
      if !half then (if a.setWidth 16 &&& 0xf > (9 : U16) then acc + 6 else acc) else acc + 6
    if !carry then (if acc > 0x9f then acc + 0x60 else acc) else acc + 0x60

theorem daa_a (r : Registers) : (daa r).a =
    (daaAcc r.a (bit r.f flagSub) (bit r.f flagHcarry) (carryOf r) &&& 0xff).setWidth 8 := rfl

/-- F of `op_daa`, its carry flag set or left. -/
theorem daa_f (r : Registers) : (daa r).f =
    let acc := daaAcc r.a (bit r.f flagSub) (bit r.f flagHcarry) (carryOf r)
    let f := unsetFlag flagHcarry r.f
    let f := if acc &&& 0x100 = 0x100 then setFlag flagCarry f else f
    if (acc &&& 0xff).setWidth 8 = (0 : U8) then setFlag flagZero f else unsetFlag flagZero f := rfl

theorem carryOf_daa (r : Registers) : carryOf (daa r) = (carryOf r ||
    decide (daaAcc r.a (bit r.f flagSub) (bit r.f flagHcarry) (carryOf r) &&& 0x100 = 0x100)) := by
  have kept (mask f : U8) (h : ~~~mask &&& flagCarry = flagCarry) :
      bit (unsetFlag mask f) flagCarry = bit f flagCarry := by
    rw [bit, unsetFlag, BitVec.and_assoc, h, bit]
  have set (mask f : U8) (h : mask &&& flagCarry = 0) :
      bit (setFlag mask f) flagCarry = bit f flagCarry := by
    have hsame : (f ||| mask) &&& flagCarry = f &&& flagCarry := by
      rw [BitVec.and_comm, BitVec.and_or_distrib_left, BitVec.and_comm flagCarry mask, h,
        BitVec.and_comm flagCarry f]
      exact BitVec.or_zero
    rw [bit, setFlag, hsame, bit]
  have carried (f : U8) : bit (setFlag flagCarry f) flagCarry = true := by
    revert f
    decide
  rw [carryOf, daa_f]
  dsimp only
  generalize daaAcc r.a (bit r.f flagSub) (bit r.f flagHcarry) (carryOf r) = acc
  have hzero (p : Prop) [Decidable p] (f : U8) :
      bit (if p then setFlag flagZero f else unsetFlag flagZero f) flagCarry = bit f flagCarry := by
    split
    · exact set flagZero f rfl
    · exact kept flagZero f rfl
  rw [hzero]
  by_cases hwrap : acc &&& 0x100 = 0x100
  · rw [if_pos hwrap, carried, decide_eq_true hwrap, Bool.or_true]
  · rw [if_neg hwrap, kept flagHcarry r.f rfl, decide_eq_false hwrap, Bool.or_false, carryOf]

/-- `acc` after an addition, as a number. -/
def daaSum (a : Nat) (half carry : Bool) : Nat :=
  let low := if half ∨ 9 < a % 16 then a + 6 else a
  if carry ∨ 0x9f < low then low + 0x60 else low

theorem daaAcc_sum (a : U8) (half carry : Bool) :
    (daaAcc a false half carry).toNat = daaSum a.toNat half carry := by
  revert a half carry
  decide +kernel

/-- A after a subtraction: 6 less for the half borrow, and 60 less for the borrow. -/
theorem daaAcc_diff (a : U8) (half carry : Bool) :
    (daaAcc a true half carry &&& 0xff).setWidth 8 =
        a - (if half then 6 else 0) - (if carry then (60 : U8) else 0) ∧
      (carry || decide (daaAcc a true half carry &&& 0x100 = 0x100)) = carry := by
  revert a half carry
  decide +kernel

/-- The low byte of `acc`. -/
theorem toNat_low (acc : U16) : ((acc &&& 0xff).setWidth 8 : U8).toNat = acc.toNat % 256 := by
  have hmask : (acc &&& 0xff).setWidth 8 = acc.setWidth 8 := by
    ext i hi
    simp only [BitVec.getElem_setWidth, BitVec.getLsbD_and]
    have hone : (0xff : U16).getLsbD i = true := by
      revert hi
      revert i
      decide
    rw [hone, Bool.and_true]
  rw [hmask, BitVec.toNat_setWidth]

/-- Bit 8 of `acc`. -/
theorem and_100_iff (acc : U16) : acc &&& 0x100 = 0x100 ↔ acc.toNat / 256 % 2 = 1 := by
  have hand : acc &&& 0x100 = if acc.getLsbD 8 then 0x100 else 0 := BitVec.and_twoPow acc 8
  have hbit : acc.getLsbD 8 = decide (acc.toNat / 2 ^ 8 % 2 = 1) := by
    rw [BitVec.getLsbD, Nat.testBit_eq_decide_div_mod_eq]
  rw [hand, hbit]
  by_cases h : acc.toNat / 2 ^ 8 % 2 = 1
  · rw [decide_eq_true h, if_pos rfl]
    exact ⟨fun _ => h, fun _ => rfl⟩
  · rw [decide_eq_false h, if_neg nofun]
    exact ⟨fun h0 => absurd h0 (by decide), fun h1 => absurd h1 h⟩

/-! ## Packed decimal -/

/-- Both nibbles are decimal digits. -/
def IsBcd (v : U8) : Prop := v.toNat / 16 ≤ 9 ∧ v.toNat % 16 ≤ 9

instance (v : U8) : Decidable (IsBcd v) := inferInstanceAs (Decidable (_ ∧ _))

/-- The two digits as a number below 100. -/
def bcdValue (v : U8) : Nat := v.toNat / 16 * 10 + v.toNat % 16

/-- The byte of a number below 100. -/
def bcdOf (k : Nat) : U8 := BitVec.ofNat 8 (k / 10 * 16 + k % 10)

theorem bcdOf_toNat {k : Nat} (hk : k < 100) : (bcdOf k).toNat = k / 10 * 16 + k % 10 := by
  rw [bcdOf, BitVec.toNat_ofNat]
  omega

theorem IsBcd.value_lt {v : U8} (h : IsBcd v) : bcdValue v < 100 := by
  unfold IsBcd at h
  unfold bcdValue
  omega

theorem IsBcd.bcdOf_value {v : U8} (h : IsBcd v) : bcdOf (bcdValue v) = v := by
  refine BitVec.eq_of_toNat_eq ?_
  rw [bcdOf_toNat h.value_lt]
  unfold IsBcd at h
  unfold bcdValue
  omega

/-- A number as `n` packed decimal bytes, the least significant first. -/
def bcdBytes (n k : Nat) : List U8 := (Ripple.digitsOf 100 n k).map bcdOf

/-- The number packed in one place of the steps. -/
def decimalNumber (f : ByteStep → U8) (bs : List ByteStep) : Nat :=
  Nat.ofDigits 100 (bs.map fun b => bcdValue (f b))

/-- A byte of a decimal operation: the operation on A, then DAA. -/
def decimalPass (k : Sm83.Alu) (s : Emu) (v : U8) (s' : Emu) : Prop :=
  AtAlu k v s ∧
    Sm83.decode (monitorRdMem (fetchDispatch s) (fetchDispatch s).regs.pc) = .daa ∧
      s' = fetchDispatch (fetchDispatch s)

theorem fetchDispatch_daa {s : Emu} (h : Sm83.decode (monitorRdMem s s.regs.pc) = .daa) :
    fetchDispatch s = (advancePc 1 s).updRegs daa := by
  have hop : monitorRdMem s s.regs.pc ≠ 0xcb := fun he => by
    rw [he] at h
    exact absurd h (by decide)
  rw [fetchDispatch_eq hop, h]
  rfl

/-- What a byte of a decimal operation leaves in A and in the carry flag. -/
theorem decimalPass.result {k : Sm83.Alu} {s s' : Emu} {v : U8} (h : decimalPass k s v s') :
    let acc := daaAcc (k.value s.regs.a v (carryOf s.regs)) (k.flags s.regs.a v (carryOf s.regs)).n
      (k.flags s.regs.a v (carryOf s.regs)).h (k.flags s.regs.a v (carryOf s.regs)).c
    s'.regs.a = (acc &&& 0xff).setWidth 8 ∧
      carryOf s'.regs = ((k.flags s.regs.a v (carryOf s.regs)).c ||
        decide (acc &&& 0x100 = 0x100)) := by
  obtain ⟨hat, hdaa, hs'⟩ := h
  obtain ⟨ha, hf, hc⟩ := hat.result
  obtain ⟨-, hn, hh, -⟩ := bit_packF s.regs.f (k.flags s.regs.a v (carryOf s.regs))
  generalize fetchDispatch s = mid at hdaa hs' ha hf hc
  have hregs : s'.regs = daa (advancePc 1 mid).regs := by
    rw [hs', fetchDispatch_daa hdaa]
    rfl
  have hsub : bit (advancePc 1 mid).regs.f flagSub = (k.flags s.regs.a v (carryOf s.regs)).n :=
    (congrArg (bit · flagSub) hf).trans hn
  have hhalf : bit (advancePc 1 mid).regs.f flagHcarry = (k.flags s.regs.a v (carryOf s.regs)).h :=
    (congrArg (bit · flagHcarry) hf).trans hh
  have hcarry : carryOf (advancePc 1 mid).regs = (k.flags s.regs.a v (carryOf s.regs)).c := hc
  have hacc : (advancePc 1 mid).regs.a = k.value s.regs.a v (carryOf s.regs) := ha
  intro acc
  rw [hregs]
  refine ⟨?_, ?_⟩
  · rw [daa_a, hsub, hhalf, hcarry, hacc]
  · rw [carryOf_daa, hsub, hhalf, hcarry, hacc]

/-! ## Addition -/

/-- Two digits and a carry: the low digit is corrected first, and the corrected
value decides about the high one. -/
theorem digit_sum {x y : Nat} {c : Bool} (hx : x / 16 ≤ 9 ∧ x % 16 ≤ 9) (hy : y / 16 ≤ 9 ∧ y % 16 ≤ 9)
    {t : Nat} (ht : t = daaSum ((x + y + c.toNat) % 256) (decide (16 ≤ x % 16 + y % 16 + c.toNat))
      (decide (256 ≤ x + y + c.toNat))) :
    t % 256 / 16 ≤ 9 ∧ t % 256 % 16 ≤ 9 ∧
      (t % 256 / 16 * 10 + t % 256 % 16) +
          100 * (decide (256 ≤ x + y + c.toNat) || decide (t / 256 % 2 = 1)).toNat =
        (x / 16 * 10 + x % 16) + (y / 16 * 10 + y % 16) + c.toNat := by
  have hc := c.toNat_le
  generalize c.toNat = k at *
  simp only [daaSum, decide_eq_true_eq] at ht
  by_cases hcarry : 256 ≤ x + y + k
  · simp only [hcarry, true_or, if_true, decide_true, Bool.true_or, Bool.toNat_true] at ht ⊢
    split at ht <;> omega
  · simp only [hcarry, false_or, decide_false, Bool.false_or] at ht ⊢
    by_cases hbit : t / 256 % 2 = 1
    · simp only [hbit, decide_true, Bool.toNat_true]
      split at ht <;> split at ht <;> omega
    · simp only [hbit, decide_false, Bool.toNat_false]
      split at ht <;> split at ht <;> omega

theorem decimalPass_sum {s s' : Emu} {v : U8} (h : decimalPass .adc s v s')
    (hx : IsBcd s.regs.a) (hy : IsBcd v) :
    IsBcd s'.regs.a ∧ ((ByteStep.of s v s').pass bcdValue).Adds 100 := by
  obtain ⟨hhigh, hlow, hvalue⟩ := digit_sum (c := carryOf s.regs) hx hy rfl
  have hacc := daaAcc_sum (addValue s.regs.a v (carryOf s.regs))
    (addFlags s.regs.a v (carryOf s.regs)).h (addFlags s.regs.a v (carryOf s.regs)).c
  obtain ⟨ha, hcarry⟩ : s'.regs.a = (daaAcc (addValue s.regs.a v (carryOf s.regs)) false
        (addFlags s.regs.a v (carryOf s.regs)).h (addFlags s.regs.a v (carryOf s.regs)).c &&&
          0xff).setWidth 8 ∧
      carryOf s'.regs = ((addFlags s.regs.a v (carryOf s.regs)).c ||
        decide (daaAcc (addValue s.regs.a v (carryOf s.regs)) false
          (addFlags s.regs.a v (carryOf s.regs)).h
          (addFlags s.regs.a v (carryOf s.regs)).c &&& 0x100 = 0x100)) := h.result
  rw [addValue_toNat] at hacc
  generalize daaAcc _ _ _ _ = acc at hacc ha hcarry
  have ha : s'.regs.a.toNat = acc.toNat % 256 := ha ▸ toNat_low acc
  rw [hacc] at ha
  simp only [and_100_iff, hacc] at hcarry
  constructor
  · rw [IsBcd, ha]
    exact ⟨hhigh, hlow⟩
  · show bcdValue s'.regs.a + 100 * (carryOf s'.regs).toNat =
      bcdValue s.regs.a + bcdValue v + (carryOf s.regs).toNat
    rw [hcarry, bcdValue, ha]
    exact hvalue

/-! ## Subtraction -/

/-- Two digits and a borrow.  Where the byte borrows, 60 is taken off for 0x60. -/
theorem digit_diff {x y : U8} {c : Bool} (hx : IsBcd x) (hy : IsBcd y) :
    subValue x y c - (if x.toNat % 16 < y.toNat % 16 + c.toNat then 6 else 0) -
        (if x.toNat < y.toNat + c.toNat then (60 : U8) else 0) =
      bcdOf (bcdValue x + 100 * (decide (x.toNat < y.toNat + c.toNat)).toNat - bcdValue y -
        c.toNat) + (if x.toNat < y.toNat + c.toNat then 36 else 0) := by
  have hc := c.toNat_le
  have hvalue := subValue_toNat (a := x) (v := y) c
  have hxl := x.isLt
  have hyl := y.isLt
  unfold IsBcd at hx hy
  refine BitVec.eq_of_toNat_eq ?_
  rw [BitVec.toNat_add, BitVec.toNat_sub, BitVec.toNat_sub, bcdOf, BitVec.toNat_ofNat]
  unfold bcdValue
  have h6 : (6 : U8).toNat = 6 := rfl
  have h60 : (60 : U8).toNat = 60 := rfl
  have h36 : (36 : U8).toNat = 36 := rfl
  have h0 : (0 : U8).toNat = 0 := rfl
  by_cases hborrow : x.toNat < y.toNat + c.toNat
  · rw [if_pos hborrow, if_pos hborrow, decide_eq_true hborrow, Bool.toNat_true]
    by_cases hhalf : x.toNat % 16 < y.toNat % 16 + c.toNat
    · rw [if_pos hhalf, h6, h60, h36]
      omega
    · rw [if_neg hhalf, h0, h60, h36]
      omega
  · rw [if_neg hborrow, if_neg hborrow, decide_eq_false hborrow, Bool.toNat_false]
    by_cases hhalf : x.toNat % 16 < y.toNat % 16 + c.toNat
    · rw [if_pos hhalf, h6, h0]
      omega
    · rw [if_neg hhalf, h0]
      omega

/-- What SBC and DAA leave: the borrow is right, and where there is one the byte
is 36 too large. -/
theorem decimalPass_diff {s s' : Emu} {v : U8} (h : decimalPass .sbc s v s')
    (hx : IsBcd s.regs.a) (hy : IsBcd v) :
    ((ByteStep.of s v s').pass bcdValue).Borrows ∧
      s'.regs.a = bcdOf (((ByteStep.of s v s').pass bcdValue).diff 100) +
        (if carryOf s'.regs then 36 else 0) := by
  obtain ⟨ha, hcarry⟩ : s'.regs.a = (daaAcc (subValue s.regs.a v (carryOf s.regs)) true
        (subFlags s.regs.a v (carryOf s.regs)).h (subFlags s.regs.a v (carryOf s.regs)).c &&&
          0xff).setWidth 8 ∧
      carryOf s'.regs = ((subFlags s.regs.a v (carryOf s.regs)).c ||
        decide (daaAcc (subValue s.regs.a v (carryOf s.regs)) true
          (subFlags s.regs.a v (carryOf s.regs)).h
          (subFlags s.regs.a v (carryOf s.regs)).c &&& 0x100 = 0x100)) := h.result
  rw [(daaAcc_diff _ _ _).2] at hcarry
  rw [(daaAcc_diff _ _ _).1] at ha
  have hborrow : (subFlags s.regs.a v (carryOf s.regs)).c =
      decide (bcdValue s.regs.a < bcdValue v + (carryOf s.regs).toNat) := by
    have hc := (carryOf s.regs).toNat_le
    unfold IsBcd at hx hy
    unfold bcdValue
    exact decide_eq_decide.mpr (by omega)
  have hdiff := digit_diff (c := carryOf s.regs) hx hy
  have hcout : carryOf s'.regs = decide (s.regs.a.toNat < v.toNat + (carryOf s.regs).toNat) :=
    hcarry
  simp only [subFlags, decide_eq_true_eq] at ha
  refine ⟨hcarry.trans hborrow, ?_⟩
  show s'.regs.a = bcdOf (bcdValue s.regs.a + 100 * (carryOf s'.regs).toNat - bcdValue v -
    (carryOf s.regs).toNat) + (if carryOf s'.regs then 36 else 0)
  rw [ha, hdiff, hcout]
  simp only [decide_eq_true_eq]

/-! ## Numbers -/

/-- Packed decimal bytes are determined by their number. -/
theorem eq_bcdBytes {vs : List U8} {k : Nat} (hbcd : ∀ v ∈ vs, IsBcd v)
    (hk : Nat.ofDigits 100 (vs.map bcdValue) = k % 100 ^ vs.length) : vs = bcdBytes vs.length k := by
  have hlt : ∀ d ∈ vs.map bcdValue, d < 100 :=
    List.forall_mem_map.mpr fun v hv => (hbcd v hv).value_lt
  have hdigits := Ripple.eq_digitsOf (k := k) (by decide) hlt (by rwa [List.length_map])
  rw [List.length_map] at hdigits
  rw [bcdBytes, ← hdigits, List.map_map]
  exact (List.map_id vs).symm.trans
    (List.map_congr_left fun v hv => (hbcd v hv).bcdOf_value.symm)

section

variable {c' : Bool} {bs : List ByteStep}

theorem decimalNumber_pass (f : Ripple.Pass → Nat) (g : ByteStep → U8)
    (hfg : ∀ b : ByteStep, f (b.pass bcdValue) = bcdValue (g b)) :
    Ripple.number 100 f (bs.map (ByteStep.pass bcdValue)) = decimalNumber g bs := by
  rw [number_pass, decimalNumber]
  exact congrArg (Nat.ofDigits 100) (List.map_congr_left fun b _ => hfg b)

end

/-- **Decimal addition of any length**: ADC and DAA, byte by byte, leave the
packed sum, and the last carry says whether it did not fit. -/
theorem decimal_sum (c' : Bool) (bs : List ByteStep)
    (h : Chain (decimalPass .adc) false bs c') (hbcd : ∀ b ∈ bs, IsBcd b.x ∧ IsBcd b.y) :
    bs.map ByteStep.z = bcdBytes bs.length
        ((decimalNumber ByteStep.x bs + decimalNumber ByteStep.y bs) % 100 ^ bs.length) ∧
      (c' = true ↔
        100 ^ bs.length ≤ decimalNumber ByteStep.x bs + decimalNumber ByteStep.y bs) := by
  have hstep : ∀ b ∈ bs, IsBcd b.z ∧ (b.pass bcdValue).Adds 100 := fun b hb =>
    h.forall_steps (P := fun b => IsBcd b.x ∧ IsBcd b.y →
        IsBcd b.z ∧ (b.pass bcdValue).Adds 100)
      (fun _ _ _ hs hxy => decimalPass_sum hs hxy.1 hxy.2) b hb (hbcd b hb)
  have hz : ∀ p ∈ bs.map (ByteStep.pass bcdValue), p.z < 100 :=
    List.forall_mem_map.mpr fun b hb => (hstep b hb).1.value_lt
  obtain ⟨hsum, hcarry⟩ := Ripple.add_mod (by decide) hz (h.linked bcdValue)
    (List.forall_mem_map.mpr fun b hb => (hstep b hb).2)
  rw [decimalNumber_pass Ripple.Pass.z ByteStep.z fun _ => rfl,
    decimalNumber_pass Ripple.Pass.x ByteStep.x fun _ => rfl,
    decimalNumber_pass Ripple.Pass.y ByteStep.y fun _ => rfl, List.length_map,
    Bool.toNat_false, Nat.add_zero] at hsum
  rw [decimalNumber_pass Ripple.Pass.x ByteStep.x fun _ => rfl,
    decimalNumber_pass Ripple.Pass.y ByteStep.y fun _ => rfl, List.length_map,
    Bool.toNat_false, Nat.add_zero] at hcarry
  refine ⟨?_, hcarry⟩
  have hdigits : Nat.ofDigits 100 ((bs.map ByteStep.z).map bcdValue) =
      (decimalNumber ByteStep.x bs + decimalNumber ByteStep.y bs) % 100 ^ bs.length %
        100 ^ (bs.map ByteStep.z).length := by
    rw [List.length_map, List.map_map, Nat.mod_mod]
    exact hsum
  have hbytes := eq_bcdBytes (List.forall_mem_map.mpr fun b hb => (hstep b hb).1) hdigits
  rwa [List.length_map] at hbytes

/-- One byte of work: the operation with B, then DAA. -/
def decimalProgram (op f a b : U8) : Emu := ramProgram [op, 0x27] a f b

/-- Behind it. -/
def decimalDone (op f a b : U8) : Emu := fetchDispatch (fetchDispatch (decimalProgram op f a b))

def decimalStep (op f a b : U8) : ByteStep :=
  .of (decimalProgram op f a b) (operandOf (decimalProgram op f a b) .b) (decimalDone op f a b)

/-- The byte is the operation `k`. -/
def WorksAt (k : Sm83.Alu) (op f a b : U8) : Prop :=
  Sm83.decode (monitorRdMem (decimalProgram op f a b) (decimalProgram op f a b).regs.pc) =
      .alu k .b ∧
    Sm83.decode (monitorRdMem (fetchDispatch (decimalProgram op f a b))
      (fetchDispatch (decimalProgram op f a b)).regs.pc) = .daa

instance (k : Sm83.Alu) (op f a b : U8) : Decidable (WorksAt k op f a b) :=
  inferInstanceAs (Decidable (_ ∧ _))

theorem WorksAt.pass {k : Sm83.Alu} {op f a b : U8} (h : WorksAt k op f a b) :
    decimalPass k (decimalProgram op f a b) (operandOf (decimalProgram op f a b) .b)
      (decimalDone op f a b) := ⟨.operand .b h.1, h.2, rfl⟩

theorem carryOf_decimalProgram (op a b : U8) : carryOf (decimalProgram op 0 a b).regs = false :=
  show bit (0 : U8) flagCarry = false by decide

theorem WorksAt.chain {k : Sm83.Alu} {op a b : U8} (h : WorksAt k op 0 a b) :
    Chain (decimalPass k) false [decimalStep op 0 a b] (carryOf (decimalDone op 0 a b).regs) := by
  have hchain := Chain.single h.pass
  rwa [carryOf_decimalProgram] at hchain

/-- Two bytes, the low one with the carry clear. -/
def decimalPair (op f a b a' b' : U8) : List ByteStep :=
  [decimalStep op 0 a b, decimalStep op f a' b']

/-- The carry of the low byte goes into the high one. -/
theorem decimalPair_chain {k : Sm83.Alu} {op f a b a' b' : U8} {c' : Bool}
    (hlow : WorksAt k op 0 a b) (hhigh : WorksAt k op f a' b')
    (hmid : carryOf (decimalDone op 0 a b).regs = carryOf (decimalProgram op f a' b').regs)
    (hout : carryOf (decimalDone op f a' b').regs = c') :
    Chain (decimalPass k) false (decimalPair op f a b a' b') c' := by
  have htail := Chain.single hhigh.pass
  rw [← hmid, hout] at htail
  have hall := Chain.cons hlow.pass htail
  rwa [carryOf_decimalProgram] at hall

/-- 1258 + 2967: both bytes have a half carry, and the low one a carry. -/
def decimalSum : List ByteStep := decimalPair 0x88 flagCarry 0x58 0x67 0x12 0x29

theorem decimal_sum_carry :
    (decimalSum.map ByteStep.z = bcdBytes 2
        ((decimalNumber ByteStep.x decimalSum + decimalNumber ByteStep.y decimalSum) % 100 ^ 2) ∧
      (false = true ↔ 100 ^ 2 ≤
        decimalNumber ByteStep.x decimalSum + decimalNumber ByteStep.y decimalSum)) ∧
    decimalSum.map ByteStep.z = [0x25, 0x42] := by
  have hchain : Chain (decimalPass .adc) false decimalSum false :=
    decimalPair_chain (by decide +kernel) (by decide +kernel) (by decide +kernel)
      (by decide +kernel)
  exact ⟨decimal_sum false decimalSum hchain (by decide +kernel), by decide +kernel⟩

/-- No byte that is 36 too large is right. -/
theorem add_36_ne (v : U8) : v + 36 ≠ v := by
  intro h
  have := congrArg BitVec.toNat h
  rw [BitVec.toNat_add, show (36 : U8).toNat = 36 from rfl] at this
  have := v.isLt
  omega

/-- **Decimal subtraction of any length**: SBC and DAA leave the packed
difference just when no byte is less than the one subtracted from it; the last
carry is right in any case. -/
theorem decimal_difference_iff (c' : Bool) (bs : List ByteStep)
    (h : Chain (decimalPass .sbc) false bs c') (hbcd : ∀ b ∈ bs, IsBcd b.x ∧ IsBcd b.y) :
    (bs.map ByteStep.z = bcdBytes bs.length
        (((decimalNumber ByteStep.x bs : Int) - decimalNumber ByteStep.y bs) %
          ((100 ^ bs.length : Nat) : Int)).toNat ∧
      (c' = true ↔ decimalNumber ByteStep.x bs < decimalNumber ByteStep.y bs)) ↔
      ∀ b ∈ bs, bcdValue b.y ≤ bcdValue b.x := by
  have hstep : ∀ b ∈ bs, (b.pass bcdValue).Borrows ∧
      b.z = bcdOf ((b.pass bcdValue).diff 100) + (if b.cout then 36 else 0) := fun b hb =>
    h.forall_steps (P := fun b => IsBcd b.x ∧ IsBcd b.y → (b.pass bcdValue).Borrows ∧
        b.z = bcdOf ((b.pass bcdValue).diff 100) + (if b.cout then 36 else 0))
      (fun _ _ _ hs hxy => decimalPass_diff hs hxy.1 hxy.2) b hb (hbcd b hb)
  have hborrows : ∀ p ∈ bs.map (ByteStep.pass bcdValue), p.Borrows :=
    List.forall_mem_map.mpr fun b hb => (hstep b hb).1
  obtain ⟨hdiff, hsign⟩ := Ripple.diff_of_borrows (by decide) (h.linked bcdValue)
    (List.forall_mem_map.mpr fun b hb =>
      ⟨(hbcd b hb).1.value_lt, (hbcd b hb).2.value_lt⟩) hborrows
  rw [decimalNumber_pass Ripple.Pass.x ByteStep.x fun _ => rfl,
    decimalNumber_pass Ripple.Pass.y ByteStep.y fun _ => rfl, Bool.toNat_false] at hdiff hsign
  rw [List.length_map, List.map_map, Nat.cast_zero, sub_zero] at hdiff
  rw [Nat.cast_zero, sub_zero] at hsign
  have hcarry : c' = true ↔ decimalNumber ByteStep.x bs < decimalNumber ByteStep.y bs :=
    hsign.trans ⟨fun _ => by omega, fun _ => by omega⟩
  -- the bytes are right just when none of them borrowed
  have hnone := Ripple.no_borrow_iff (h.linked bcdValue) rfl hborrows
  rw [List.forall_mem_map, List.forall_mem_map] at hnone
  rw [and_iff_left hcarry, bcdBytes, ← hdiff, List.map_map, List.map_inj_left]
  refine Iff.trans ⟨fun hall b hb => ?_, fun hall b hb => ?_⟩ hnone
  · have hz := hall b hb
    rw [(hstep b hb).2] at hz
    cases hcout : b.cout with
    | false => exact hcout
    | true =>
        rw [hcout] at hz
        exact absurd hz (add_36_ne _)
  · have hcout : b.cout = false := hall b hb
    rw [(hstep b hb).2, hcout]
    exact BitVec.add_zero _

/-- 4532 - 1218: the low byte has a half borrow, and neither borrows. -/
def decimalDifference : List ByteStep := decimalPair 0x98 0 0x32 0x18 0x45 0x12

/-- 4512 - 1234: the low byte borrows from the high one. -/
def decimalBorrow : List ByteStep := decimalPair 0x98 flagCarry 0x12 0x34 0x45 0x12

/-- The first is exact, the second is not. -/
theorem decimal_difference_iff_half :
    (decimalDifference.map ByteStep.z = bcdBytes 2
        (((decimalNumber ByteStep.x decimalDifference : Int) -
          decimalNumber ByteStep.y decimalDifference) % ((100 ^ 2 : Nat) : Int)).toNat ∧
      (false = true ↔ decimalNumber ByteStep.x decimalDifference <
        decimalNumber ByteStep.y decimalDifference)) ∧
    ¬ (decimalBorrow.map ByteStep.z = bcdBytes 2
        (((decimalNumber ByteStep.x decimalBorrow : Int) -
          decimalNumber ByteStep.y decimalBorrow) % ((100 ^ 2 : Nat) : Int)).toNat ∧
      (false = true ↔ decimalNumber ByteStep.x decimalBorrow <
        decimalNumber ByteStep.y decimalBorrow)) := by
  have hexact : Chain (decimalPass .sbc) false decimalDifference false :=
    decimalPair_chain (by decide +kernel) (by decide +kernel) (by decide +kernel)
      (by decide +kernel)
  have hborrow : Chain (decimalPass .sbc) false decimalBorrow false :=
    decimalPair_chain (by decide +kernel) (by decide +kernel) (by decide +kernel)
      (by decide +kernel)
  constructor
  · exact (decimal_difference_iff false decimalDifference hexact (by decide +kernel)).mpr
      (by decide +kernel)
  · intro h
    have hno := (decimal_difference_iff false decimalBorrow hborrow (by decide +kernel)).mp h
    exact absurd hno (by decide +kernel)

/-- 0 - 1 leaves 0xbd, not 0x99. -/
theorem not_decimal_difference :
    ¬ ∀ (c' : Bool) (bs : List ByteStep), Chain (decimalPass .sbc) false bs c' →
      (∀ b ∈ bs, IsBcd b.x ∧ IsBcd b.y) →
        bs.map ByteStep.z = bcdBytes bs.length
          (((decimalNumber ByteStep.x bs : Int) - decimalNumber ByteStep.y bs) %
            ((100 ^ bs.length : Nat) : Int)).toNat ∧
        (c' = true ↔ decimalNumber ByteStep.x bs < decimalNumber ByteStep.y bs) := by
  intro h
  have hworks : WorksAt .sbc 0x98 0 0x00 0x01 := by decide +kernel
  obtain ⟨hz, -⟩ := h _ [decimalStep 0x98 0 0x00 0x01] hworks.chain
    (List.forall_mem_singleton.mpr (by decide +kernel))
  exact absurd hz (by decide +kernel)

end RealBoy
