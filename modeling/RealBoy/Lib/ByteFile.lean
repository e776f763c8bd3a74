/-
# `RealBoy.Lib.ByteFile` — an immutable file read through a position

The stdio calls a loader makes, on a file nobody writes to: `fseek` sets the
position, `fread` copies what is left of the file, up to the count asked for,
into memory.  Memory is a total function from addresses to bytes.
-/
import Mathlib.Data.BitVec

namespace ByteFile

/-- An open file: its bytes, and the position of the next read. -/
structure File where
  bytes : Array (BitVec 8)
  pos : Nat

/-- `fopen(.., "r")`: the position starts at 0. -/
def fopen (bytes : Array (BitVec 8)) : File := ⟨bytes, 0⟩

/-- `fseek(f, off, SEEK_SET)`. -/
def fseek (f : File) (off : Nat) : File := { f with pos := off }

/-- How many bytes `fread(.., 1, n, f)` copies. -/
def File.avail (f : File) (n : Nat) : Nat := min n (f.bytes.size - f.pos)

/-- The memory after `fread(dst + base, 1, n, f)`. -/
def fread (mem : Nat → BitVec 8) (base n : Nat) (f : File) : Nat → BitVec 8 :=
  fun i => if base ≤ i ∧ i < base + f.avail n then f.bytes.getD (f.pos + (i - base)) 0 else mem i

/-- The file after `fread(.., 1, n, f)`. -/
def File.advance (f : File) (n : Nat) : File := { f with pos := f.pos + f.avail n }

@[simp] theorem fopen_pos (bytes : Array (BitVec 8)) : (fopen bytes).pos = 0 := rfl
@[simp] theorem fopen_bytes (bytes : Array (BitVec 8)) : (fopen bytes).bytes = bytes := rfl
@[simp] theorem fseek_pos (f : File) (off : Nat) : (fseek f off).pos = off := rfl
@[simp] theorem fseek_bytes (f : File) (off : Nat) : (fseek f off).bytes = f.bytes := rfl
@[simp] theorem advance_bytes (f : File) (n : Nat) : (f.advance n).bytes = f.bytes := rfl

variable (mem : Nat → BitVec 8) {base n : Nat} {f : File} {i : Nat}

/-- Memory the read does not cover is left alone. -/
theorem fread_outside (h : i < base ∨ base + n ≤ i) : fread mem base n f i = mem i := by
  unfold fread File.avail
  rw [if_neg]
  omega

/-- Where the file is long enough, a covered cell holds the file's byte. -/
theorem fread_inside (hb : base ≤ i) (hi : i < base + n) (hf : f.pos + n ≤ f.bytes.size) :
    fread mem base n f i = f.bytes.getD (f.pos + (i - base)) 0 := by
  unfold fread File.avail
  rw [if_pos]
  omega

/-- What a read leaves in a cell it covers: the file's byte, if there is one. -/
theorem fread_getD (hb : base ≤ i) (hi : i < base + n) :
    fread mem base n f i = f.bytes.getD (f.pos + (i - base)) (mem i) := by
  unfold fread File.avail
  by_cases hsize : f.pos + (i - base) < f.bytes.size
  · rw [if_pos (by omega), Array.getD_eq_getD_getElem?, Array.getD_eq_getD_getElem?,
      Array.getElem?_eq_getElem hsize, Option.getD_some, Option.getD_some]
  · rw [if_neg (by omega), Array.getD_eq_getD_getElem?, Array.getElem?_eq_none (by omega),
      Option.getD_none]

end ByteFile
