/-
# `RealBoy.Lib.Canvas` — words in a buffer of bytes

A buffer is its bytes, and a byte may hold no value yet.  A word of 32 bits takes
four of them, low byte first; what is stored is read back (`load_store_self`), and
a word that does not overlap it is as before (`load_store_of_disjoint`).

A canvas is such a buffer with a pixel every four bytes, a row after the other.
Two pixels of a row's width never overlap, so each pixel holds the last word drawn
at it, whatever else was drawn (`pixel_paint`).
-/
import RealBoy.Lib.Latest

namespace Canvas

open History (latest latest_nil latest_concat)

abbrev Word := BitVec 32

/-- A buffer of bytes; `none` is a byte that holds no value yet. -/
abbrev Buffer := Nat → Option (BitVec 8)

/-- A word, or an indeterminate one, stored at an offset. -/
def store (m : Buffer) (off : Nat) (w : Option Word) : Buffer := fun k =>
  if off ≤ k ∧ k < off + 4 then w.map fun w => w.extractLsb' (8 * (k - off)) 8 else m k

/-- The word at an offset, if its four bytes have values. -/
def load (m : Buffer) (off : Nat) : Option Word := do
  let b₀ ← m off
  let b₁ ← m (off + 1)
  let b₂ ← m (off + 2)
  let b₃ ← m (off + 3)
  return b₃ ++ b₂ ++ b₁ ++ b₀

theorem store_of_out {m : Buffer} {a k : Nat} (h : k < a ∨ a + 4 ≤ k) (w : Option Word) :
    store m a w k = m k := by
  rw [store, if_neg (by omega)]

theorem store_byte (m : Buffer) (a : Nat) (w : Option Word) {i : Nat} (hi : i < 4) :
    store m a w (a + i) = w.map fun w => w.extractLsb' (8 * i) 8 := by
  rw [store, if_pos (by omega), Nat.add_sub_cancel_left]

theorem bytes_append (w : Word) :
    w.extractLsb' 24 8 ++ w.extractLsb' 16 8 ++ w.extractLsb' 8 8 ++ w.extractLsb' 0 8 = w := by
  rw [BitVec.extractLsb'_append_extractLsb'_eq_extractLsb' (by omega),
    BitVec.extractLsb'_append_extractLsb'_eq_extractLsb' (by omega),
    BitVec.extractLsb'_append_extractLsb'_eq_extractLsb' (by omega), BitVec.extractLsb'_eq_self]

theorem load_store_self (m : Buffer) (a : Nat) (w : Option Word) : load (store m a w) a = w := by
  have h₀ := store_byte m a w (i := 0) (by omega)
  have h₁ := store_byte m a w (i := 1) (by omega)
  have h₂ := store_byte m a w (i := 2) (by omega)
  have h₃ := store_byte m a w (i := 3) (by omega)
  rw [Nat.add_zero] at h₀
  rw [load, h₀, h₁, h₂, h₃]
  cases w with
  | none => rfl
  | some w => exact congrArg some (bytes_append w)

theorem load_store_of_disjoint {m : Buffer} {a b : Nat} (h : b + 4 ≤ a ∨ a + 4 ≤ b)
    (w : Option Word) : load (store m a w) b = load m b := by
  simp only [load]
  rw [store_of_out (by omega), store_of_out (by omega), store_of_out (by omega),
    store_of_out (by omega)]

/-! ## Pixels -/

/-- Where pixel `x` of row `y` is, in rows of `width`. -/
def offset (width x y : Nat) : Nat := y * width * 4 + x * 4

/-- Two pixels of the canvas are the same one or apart. -/
theorem offset_apart {width x y x' y' : Nat} (hx : x < width) (hx' : x' < width)
    (hne : ¬ (x' = x ∧ y' = y)) :
    offset width x' y' + 4 ≤ offset width x y ∨ offset width x y + 4 ≤ offset width x' y' := by
  unfold offset
  rcases Nat.lt_trichotomy y y' with hy | rfl | hy
  · have hrow := Nat.mul_le_mul_right width (Nat.succ_le_of_lt hy)
    rw [Nat.succ_mul] at hrow
    omega
  · omega
  · have hrow := Nat.mul_le_mul_right width (Nat.succ_le_of_lt hy)
    rw [Nat.succ_mul] at hrow
    omega

/-- A pixel of the first `height` rows lies in their bytes. -/
theorem offset_lt {width height x y : Nat} (hx : x < width) (hy : y < height) :
    offset width x y + 4 ≤ height * width * 4 := by
  have hrow := Nat.mul_le_mul_right width (Nat.succ_le_of_lt hy)
  rw [Nat.succ_mul] at hrow
  unfold offset
  omega

/-- A pixel drawn: where, and what. -/
structure Stroke where
  x : Nat
  y : Nat
  word : Option Word

/-- Some pixels drawn, one after the other. -/
def paint (width : Nat) (m : Buffer) (l : List Stroke) : Buffer :=
  l.foldl (fun m c => store m (offset width c.x c.y) c.word) m

/-- What a stroke says about pixel `x` of row `y`. -/
def Stroke.paints (x y : Nat) (c : Stroke) : Option (Option Word) :=
  if c.x = x ∧ c.y = y then some c.word else none

/-- **Each pixel is the last stroke at it**, and what was there before the first. -/
theorem pixel_paint {width : Nat} (m : Buffer) {l : List Stroke} (hl : ∀ c ∈ l, c.x < width)
    {x y : Nat} (hx : x < width) :
    load (paint width m l) (offset width x y) =
      (latest (Stroke.paints x y) l).getD (load m (offset width x y)) := by
  induction l using List.reverseRecOn with
  | nil => rfl
  | append_singleton l c ih =>
      have ih := ih fun c' hc' => hl c' (List.mem_append_left _ hc')
      have hc : c.x < width := hl c (List.mem_append_right _ (List.mem_singleton_self c))
      rw [paint, List.foldl_append, latest_concat]
      by_cases hat : c.x = x ∧ c.y = y
      · obtain ⟨rfl, rfl⟩ := hat
        simp [Stroke.paints, load_store_self]
      · have hpaints : c.paints x y = none := if_neg hat
        rw [hpaints, Option.none_or, ← ih]
        exact load_store_of_disjoint (offset_apart hc hx fun h => hat ⟨h.1.symm, h.2.symm⟩) _

/-- Strokes within the first `height` rows leave the bytes behind them. -/
theorem paint_beyond {width height : Nat} (m : Buffer) {l : List Stroke}
    (hl : ∀ c ∈ l, c.x < width ∧ c.y < height) {k : Nat} (hk : height * width * 4 ≤ k) :
    paint width m l k = m k := by
  induction l generalizing m with
  | nil => rfl
  | cons c l ih =>
      obtain ⟨hx, hy⟩ := hl c List.mem_cons_self
      have hlt := offset_lt hx hy
      rw [paint, List.foldl_cons]
      exact (ih _ fun c' hc' => hl c' (List.mem_cons_of_mem _ hc')).trans
        (store_of_out (.inr (by omega)) _)

end Canvas
