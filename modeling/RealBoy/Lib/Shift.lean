/-
# `RealBoy.Lib.Shift` — exact shifts, rotates and bit operations

The eight operations of the 0xcb page in terms of natural numbers, with the bit
that comes in and the bit that goes out.  A shift to the left is a pass of a
doubling (`double`), one to the right a pass of a halving (`halve`), and a rotate
is undone by the one in the other direction (`rr_rl`, `rrc_rlc`).
-/
import RealBoy.Lib.Alu

namespace Sm83

namespace Shift

/-- The byte a shift leaves, from the byte and the carry flag. -/
def value (k : Shift) (v : BitVec 8) (c : Bool) : BitVec 8 :=
  BitVec.ofNat 8 <| match k with
  | .rlc => 2 * v.toNat + v.toNat / 128
  | .rrc => v.toNat / 2 + 128 * (v.toNat % 2)
  | .rl => 2 * v.toNat + c.toNat
  | .rr => v.toNat / 2 + 128 * c.toNat
  | .sla => 2 * v.toNat
  | .sra => v.toNat / 2 + 128 * (v.toNat / 128)
  | .swap => v.toNat / 16 + 16 * (v.toNat % 16)
  | .srl => v.toNat / 2

/-- The bit that goes out. -/
def out (k : Shift) (v : BitVec 8) : Bool :=
  match k with
  | .rlc | .rl | .sla => decide (128 ≤ v.toNat)
  | .rrc | .rr | .sra | .srl => decide (v.toNat % 2 = 1)
  | .swap => false

/-- The bit that comes in, for the shifts of long numbers. -/
def into (k : Shift) (v : BitVec 8) (c : Bool) : Bool :=
  match k with
  | .rl | .rr => c
  | .rlc | .sra => decide (128 ≤ v.toNat)
  | .rrc => decide (v.toNat % 2 = 1)
  | .sla | .srl | .swap => false

/-- The flags a shift leaves. -/
def flags (k : Shift) (v : BitVec 8) (c : Bool) : Flags where
  z := k.value v c == 0
  n := false
  h := false
  c := k.out v

/-- The shifts to the left. -/
def IsLeft : Shift → Prop
  | .rlc | .rl | .sla => True
  | _ => False

/-- The shifts to the right. -/
def IsRight : Shift → Prop
  | .rrc | .rr | .sra | .srl => True
  | _ => False

theorem toNat_decide (p : Prop) [Decidable p] : (decide p).toNat = if p then 1 else 0 := by
  by_cases hp : p
  · rw [decide_eq_true hp, if_pos hp, Bool.toNat_true]
  · rw [decide_eq_false hp, if_neg hp, Bool.toNat_false]

/-- **To the left**: the byte is doubled, a bit comes in below and the top bit
goes out. -/
theorem double {k : Shift} (hk : k.IsLeft) (v : BitVec 8) (c : Bool) :
    (k.value v c).toNat + 256 * (k.out v).toNat = 2 * v.toNat + (k.into v c).toNat := by
  have hv := v.isLt
  have hc := c.toNat_le
  cases k with
  | rlc =>
      simp only [value, out, into, BitVec.toNat_ofNat, toNat_decide]
      by_cases htop : 128 ≤ v.toNat
      · have htopBit : v.toNat / 128 = 1 := by omega
        rw [if_pos htop, htopBit]
        omega
      · have htopBit : v.toNat / 128 = 0 := by omega
        rw [if_neg htop, htopBit]
        omega
  | rl | sla =>
      simp only [value, out, into, BitVec.toNat_ofNat, toNat_decide, Bool.toNat_false]
      split <;> omega
  | rrc | rr | sra | swap | srl => exact hk.elim

/-- **To the right**: the byte is halved, a bit comes in at the top and the low
bit goes out. -/
theorem halve {k : Shift} (hk : k.IsRight) (v : BitVec 8) (c : Bool) :
    2 * (k.value v c).toNat + (k.out v).toNat = v.toNat + 256 * (k.into v c).toNat := by
  have hv := v.isLt
  have hc := c.toNat_le
  cases k with
  | rr | srl =>
      simp only [value, out, into, BitVec.toNat_ofNat, toNat_decide, Bool.toNat_false]
      split <;> omega
  | rrc =>
      simp only [value, out, into, BitVec.toNat_ofNat, toNat_decide]
      split <;> omega
  | sra =>
      simp only [value, out, into, BitVec.toNat_ofNat, toNat_decide]
      split <;> split <;> omega
  | rlc | rl | sla | swap => exact hk.elim

/-- RR undoes RL. -/
theorem rr_rl (v : BitVec 8) (c : Bool) :
    rr.value (rl.value v c) (rl.out v) = v ∧ rr.out (rl.value v c) = c := by
  have hleft := double (k := .rl) trivial v c
  have hright := halve (k := .rr) trivial (rl.value v c) (rl.out v)
  have hv := v.isLt
  have hin : rl.into v c = c := rfl
  have hout : rr.into (rl.value v c) (rl.out v) = rl.out v := rfl
  rw [hin] at hleft
  rw [hout, hleft] at hright
  have hbits := (rr.out (rl.value v c)).toNat_le
  have hc := c.toNat_le
  constructor
  · exact BitVec.eq_of_toNat_eq (by omega)
  · have hsame : (rr.out (rl.value v c)).toNat = c.toNat := by omega
    revert hsame
    cases rr.out (rl.value v c) <;> cases c <;> decide

/-- RRC undoes RLC. -/
theorem rrc_rlc (v : BitVec 8) (c c' : Bool) : rrc.value (rlc.value v c) c' = v := by
  have hleft := double (k := .rlc) trivial v c
  have hv := v.isLt
  have hin : (rlc.into v c).toNat = (rlc.out v).toNat := rfl
  have hout : (rlc.out v).toNat = if 128 ≤ v.toNat then 1 else 0 := toNat_decide _
  rw [hin, hout] at hleft
  refine BitVec.eq_of_toNat_eq ?_
  simp only [value, BitVec.toNat_ofNat] at hleft ⊢
  split at hleft <;> omega

end Shift

/-- The flags BIT leaves: Z is the bit's complement, C stays. -/
def bitFlags (n : Nat) (v : BitVec 8) (c : Bool) : Flags := ⟨!v.getLsbD n, false, true, c⟩

/-- RES. -/
def resBit (n : Nat) (v : BitVec 8) : BitVec 8 := v &&& ~~~(BitVec.twoPow 8 n)

/-- SET. -/
def setBit (n : Nat) (v : BitVec 8) : BitVec 8 := v ||| BitVec.twoPow 8 n

end Sm83
