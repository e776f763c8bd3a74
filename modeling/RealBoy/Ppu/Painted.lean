/-
# `RealBoy.Ppu.Painted` — what reaches the frame buffer

`final_pixel` is declared in the loop without a value, and three layers may
assign it.  A layer that shows paints a colour of `color_pal`, and what has been
painted stays painted.  With the background off a pixel is left that nothing
has painted: where no object shows and the window is not over it, the line hands
an indeterminate value to `render_draw_pixel` (`drawnAt_painted_iff`).
-/
import Mathlib.Data.List.GetD
import RealBoy.Lib.Tiles
import RealBoy.Ppu.Compose

namespace RealBoy

open Emu

/-- The pixel has been assigned a colour of the palette. -/
def Painted (pixel : Option U32) : Prop := ∃ c ∈ colorPal, pixel = some c

theorem paletteColor_mem (palette : U8) (indx : Nat) : paletteColor palette indx ∈ colorPal := by
  have hfield : (palette.toNat &&& (3 <<< (indx <<< 1))) >>> (indx <<< 1) < colorPal.length :=
    Tiles.field_lt palette.toNat (indx <<< 1)
  rw [paletteColor, List.getD_eq_getElem _ _ hfield]
  exact List.getElem_mem hfield

theorem painted_none : ¬ Painted none := by
  rintro ⟨c, -, h⟩
  cases h

theorem painted_paletteColor (palette : U8) (indx : Nat) :
    Painted (some (paletteColor palette indx)) :=
  ⟨_, paletteColor_mem palette indx, rfl⟩

/-! ## One layer -/

section

variable {p : Ppu} {obj : Option PixelPriority} {pixel : Option U32}

/-- A layer paints over what is painted, or leaves it. -/
theorem Painted.drawLayer (h : Painted pixel) (shows : Bool) (indx : Nat) :
    Painted (drawLayer p obj shows indx pixel) := by
  unfold RealBoy.drawLayer
  split
  · split
    · exact painted_paletteColor _ _
    · exact h
  · exact h

/-- Without an object a layer paints where it shows. -/
theorem painted_drawLayer_none (shows : Bool) (indx : Nat) :
    Painted (drawLayer p none shows indx pixel) ↔ shows ∨ Painted pixel := by
  cases shows with
  | false => simp [RealBoy.drawLayer]
  | true =>
      have hdrawn : drawLayer p none true indx pixel = some (paletteColor p.regs.bgp indx) := by
        simp [RealBoy.drawLayer, underLayersShow]
      rw [hdrawn]
      exact ⟨fun _ => .inl rfl, fun _ => painted_paletteColor _ _⟩

end

/-! ## The line -/

/-- An object shows at column `x`: of the objects that `get_objs_at_xy` finds,
`get_pixel_priority_from_objs` delivers an index other than 0. -/
def ObjShows (p : Ppu) (x : Nat) : Prop :=
  bit p.regs.lcdc 0x02 ∧ ∃ first rest,
    getObjsAtXY p (BitVec.ofNat 32 x) (p.regs.ly.setWidth 32) = first :: rest ∧
      (getPixelPriorityFromObjs p (BitVec.ofNat 8 x) first rest).pixel ≠ 0

theorem objLayer_isSome_iff (p : Ppu) (x : Nat) : (objLayer p x).isSome ↔ ObjShows p x := by
  unfold objLayer ObjShows
  cases bit p.regs.lcdc 0x02 with
  | false => simp
  | true =>
      cases getObjsAtXY p (BitVec.ofNat 32 x) (p.regs.ly.setWidth 32) with
      | nil => simp
      | cons first rest =>
          by_cases hz : (getPixelPriorityFromObjs p (BitVec.ofNat 8 x) first rest).pixel = 0
          · simp [hz]
          · simp [hz]

theorem painted_linePixel_iff (p : Ppu) (x : Nat) :
    Painted (linePixel p x) ↔ bit p.regs.lcdc 0x01 ∨ winCond p.regs x ∨ ObjShows p x := by
  rw [linePixel_eq, ← objLayer_isSome_iff]
  cases objLayer p x with
  | none =>
      rw [painted_drawLayer_none, painted_drawLayer_none]
      simp [painted_none, or_comm]
  | some w =>
      -- the object was painted first
      have hobj : Painted ((some w).map (objColor p)) := painted_paletteColor _ _
      refine ⟨fun _ => .inr (.inr rfl), fun _ => ?_⟩
      exact (hobj.drawLayer _ _).drawLayer _ _

/-- **Every drawn pixel is defined**, but where all three layers leave it. -/
theorem drawnAt_painted_iff (s : Emu) {x : Nat} (hx : x < 160) :
    (∃ pixel, drawnAt x (eventsSince s (ppuRenderLine s)) = [pixel] ∧ Painted pixel) ↔
      bit s.ppu.regs.lcdc 0x01 ∨ winCond s.ppu.regs x ∨ ObjShows s.ppu x := by
  rw [drawnAt_line s hx, ← painted_linePixel_iff]
  constructor
  · rintro ⟨pixel, hdrawn, hpainted⟩
    rwa [List.singleton_inj.mp hdrawn]
  · exact fun hpainted => ⟨_, rfl, hpainted⟩

/-- The background and the objects off, and a window from column 8 on. -/
def windowOnly : Emu := (powerOn #[] #[]).writes [(0xff4b, 15), (0xff40, 0xa0)]

/-- Under the window the pixel is painted. -/
theorem drawnAt_painted_windowOnly :
    ∃ pixel, drawnAt 8 (eventsSince windowOnly (ppuRenderLine windowOnly)) = [pixel] ∧
      Painted pixel :=
  (drawnAt_painted_iff windowOnly (by decide)).mpr (.inr (.inl (by decide +kernel)))

/-- Left of it nothing is. -/
theorem not_drawnAt_painted_windowOnly :
    ¬ ∀ (s : Emu) (x : Nat), s.ppu.regs.ly < 144 → x < 160 →
      ∃ pixel, drawnAt x (eventsSince s (ppuRenderLine s)) = [pixel] ∧ Painted pixel := by
  intro h
  obtain ⟨pixel, hdrawn, hpainted⟩ := h windowOnly 0 (by decide +kernel) (by decide)
  have hnone : drawnAt 0 (eventsSince windowOnly (ppuRenderLine windowOnly)) = [none] := by
    decide +kernel
  rw [hnone, List.singleton_inj] at hdrawn
  exact painted_none (hdrawn ▸ hpainted)

end RealBoy
