/-
# `RealBoy.Lib.Tiles` — pictures made of tiles

A tile of two bits a pixel: eight pixels to a row, two bytes to a row, the first
with the low bits and the second with the high ones, the leftmost pixel in the
highest bit.  A picture of 256 by 256 pixels is a map of 32 by 32 tiles.

The lemmas are the ones that code written in shifts and masks needs.
-/
import Mathlib.Algebra.Group.Nat.Defs

namespace Tiles

/-- The pixel at column `col` of the row at `addr`. -/
def rowPixel (mem : Nat → BitVec 8) (addr col : Nat) : Nat :=
  2 * ((mem (addr + 1)).getLsbD (7 - col)).toNat + ((mem addr).getLsbD (7 - col)).toNat

/-- The pixel at a row and column of the tile at `addr`. -/
def tilePixel (mem : Nat → BitVec 8) (addr row col : Nat) : Nat := rowPixel mem (addr + 2 * row) col

/-- The pixel at column `px` and row `py` of a picture: `cells` is its map, row
by row, and `tileAddr` where a tile is. -/
def picturePixel (mem : Nat → BitVec 8) (tileAddr : BitVec 8 → Nat) (cells : Nat → BitVec 8)
    (px py : Nat) : Nat :=
  tilePixel mem (tileAddr (cells (32 * (py / 8) + px / 8))) (py % 8) (px % 8)

/-- Tiles lie one behind the other. -/
theorem tilePixel_stacked (mem : Nat → BitVec 8) (addr row col : Nat) :
    tilePixel mem addr row col = tilePixel mem (addr + 16 * (row / 8)) (row % 8) col := by
  have haddr : addr + 16 * (row / 8) + 2 * (row % 8) = addr + 2 * row := by omega
  rw [tilePixel, tilePixel, haddr]

/-- The two bits of a row read as a word, the second byte on top. -/
theorem rowPixel_eq_word (mem : Nat → BitVec 8) {addr col : Nat} (h : col < 8) :
    ((mem (addr + 1) ++ mem addr).getLsbD (15 - col)).toNat <<< 1 |||
        ((mem (addr + 1) ++ mem addr).getLsbD (7 - col)).toNat = rowPixel mem addr col := by
  have hhigh : 15 - col - 8 = 7 - col := by omega
  rw [rowPixel, BitVec.getLsbD_append, BitVec.getLsbD_append, if_neg (by omega), if_pos (by omega),
    hhigh]
  cases (mem (addr + 1)).getLsbD (7 - col) <;> cases (mem addr).getLsbD (7 - col) <;> rfl

theorem and_seven (n : Nat) : n &&& 7 = n % 8 := Nat.and_two_pow_sub_one_eq_mod n 3

theorem and_byte (n : Nat) : n &&& 0xff = n % 256 := Nat.and_two_pow_sub_one_eq_mod n 8

theorem shiftRight_three (n : Nat) : n >>> 3 = n / 8 := Nat.shiftRight_eq_div_pow n 3

/-- The row of the map, by its offset. -/
theorem mapRow_eq (n : Nat) : ((n >>> 3) <<< 5) &&& 0x3ff = 32 * (n % 256 / 8) := by
  have hmod : ((n >>> 3) <<< 5) &&& 0x3ff = ((n >>> 3) <<< 5) % 1024 :=
    Nat.and_two_pow_sub_one_eq_mod _ 10
  rw [hmod, Nat.shiftLeft_eq, shiftRight_three]
  omega

/-- A field of two bits. -/
theorem field_eq (n k : Nat) : (n &&& (3 <<< k)) >>> k = n / 2 ^ k % 4 := by
  have hthree : (3 <<< k) >>> k = 3 := Nat.shiftLeft_shiftRight 3 k
  rw [Nat.shiftRight_and_distrib, hthree, Nat.shiftRight_eq_div_pow]
  exact Nat.and_two_pow_sub_one_eq_mod _ 2

theorem field_lt (n k : Nat) : (n &&& (3 <<< k)) >>> k < 4 := by
  rw [field_eq]
  exact Nat.mod_lt _ (by decide)

end Tiles
