/-
# `RealBoy.Ppu.Picture` — what the layers are pictures of

The three layers against plain lookups in video memory.  The background is a
window of 160 by 144 on a picture of 256 by 256 that wraps around, and the
scanline loop, for all its shifts and masks, looks up just that
(`drawnAt_background`).  The window is the same picture under its own map, from
its left upper corner on, but for two comparisons that cut off its last column
and its last row (`drawnAt_window_iff`).  An object is one tile, or two stacked
ones, turned over as its attributes say; the tile index is not rounded down to
an even one where there are two (`objIndx_iff`).
-/
import RealBoy.Lib.Tiles
import RealBoy.Ppu.Compose
import RealBoy.Ppu.ObjectIndex

namespace RealBoy

open Emu
open Tiles (tilePixel rowPixel_eq_word and_seven and_byte shiftRight_three mapRow_eq field_eq)

/-! ## Video memory -/

/-- Tile data by its address, 0x8000 .. 0x97ff. -/
def vram (p : Ppu) (addr : Nat) : U8 := p.tileData (addr - 0x8000)

/-- The address of a tile of the background or the window: unsigned from 0x8000
or signed from 0x9000. -/
def bgTileAddr (regs : PpuRegs) (tile : U8) : Nat :=
  if bit regs.lcdc 0x10 then 0x8000 + 16 * tile.toNat else (0x9000 + 16 * tile.toInt).toNat

/-- The picture that a tile map is of. -/
def picture (p : Ppu) (second : Bool) (px py : Nat) : Nat :=
  Tiles.picturePixel (vram p) (bgTileAddr p.regs) (tileMap p second) px py

/-- A palette applied to a colour index. -/
def shade (palette : U8) (indx : Nat) : U32 := colorPal.getD (palette.toNat / 4 ^ indx % 4) 0

theorem paletteColor_eq (palette : U8) (indx : Nat) :
    paletteColor palette indx = shade palette indx := by
  have hpow : 2 ^ (indx <<< 1) = 4 ^ indx := by
    rw [Nat.shiftLeft_eq, Nat.mul_comm, pow_mul]
    rfl
  rw [paletteColor, field_eq, hpow, shade]

/-- A row of a tile, read as a word. -/
theorem tileIndx_tileRow (p : Ppu) {offset : Int} {addr row col : Nat}
    (haddr : offset = addr - 0x8000 + 2 * row) (hbase : 0x8000 ≤ addr) (hcol : col < 8) :
    tileIndx (p.tileRow offset) col = tilePixel (vram p) addr row col := by
  have hoff : offset.toNat = addr + 2 * row - 0x8000 := by omega
  have hoff' : addr + 2 * row - 0x8000 + 1 = addr + 2 * row + 1 - 0x8000 := by omega
  rw [tileIndx, Ppu.tileRow, hoff, hoff']
  exact rowPixel_eq_word (vram p) hcol

theorem bgTileAddr_ge (regs : PpuRegs) (tile : U8) : 0x8000 ≤ bgTileAddr regs tile := by
  have hge := tile.le_toInt
  unfold bgTileAddr
  split <;> omega

/-- **`get_tile_line`** finds the row of the tile. -/
theorem tileIndx_getTileLine (p : Ppu) (tile : U8) (row : Nat) {col : Nat} (hcol : col < 8) :
    tileIndx (p.tileRow (getTileLine p.regs tile row)) col =
      tilePixel (vram p) (bgTileAddr p.regs tile) row col := by
  refine tileIndx_tileRow p ?_ (bgTileAddr_ge p.regs tile) hcol
  have hge := tile.le_toInt
  unfold getTileLine bgTileAddr
  split <;> omega

/-! ## Background and window -/

/-- **The background's lookup.** -/
theorem bgIndx_eq (p : Ppu) (x : Nat) :
    bgIndx p (8 * (x / 8)) (x % 8) = picture p (bit p.regs.lcdc 0x08)
      ((x + p.regs.scx.toNat) % 256) ((p.regs.ly.toNat + p.regs.scy.toNat) % 256) := by
  have hcell : bgMapCell p.regs (8 * (x / 8)) (x % 8) =
      32 * ((p.regs.ly.toNat + p.regs.scy.toNat) % 256 / 8) + (x + p.regs.scx.toNat) % 256 / 8 := by
    rw [bgMapCell, mapRow_eq, and_byte, shiftRight_three, Nat.div_add_mod]
  have hrow : (p.regs.ly.toNat + p.regs.scy.toNat) % 8 =
      (p.regs.ly.toNat + p.regs.scy.toNat) % 256 % 8 := by omega
  have hcol : (x % 8 + p.regs.scx.toNat % 8) % 8 = (x + p.regs.scx.toNat) % 256 % 8 := by omega
  rw [bgIndx, hcell, and_seven, and_seven, and_seven, hrow, hcol]
  exact tileIndx_getTileLine p _ _ (Nat.mod_lt _ (by decide))

/-- **The window's lookup.** -/
theorem winIndx_eq (p : Ppu) (x : Nat) :
    winIndx p (8 * (x / 8)) (x % 8) = picture p (bit p.regs.lcdc 0x40)
      (x + 7 - p.regs.wx.toNat) (p.regs.ly.toNat - p.regs.wy.toNat) := by
  have hly := p.regs.ly.isLt
  have hcell : winMapCell p.regs (8 * (x / 8)) (x % 8) =
      32 * ((p.regs.ly.toNat - p.regs.wy.toNat) / 8) + (x + 7 - p.regs.wx.toNat) / 8 := by
    have hmod : (p.regs.ly.toNat - p.regs.wy.toNat) % 256 = p.regs.ly.toNat - p.regs.wy.toNat :=
      Nat.mod_eq_of_lt (by omega)
    rw [winMapCell, mapRow_eq, shiftRight_three, Nat.div_add_mod, hmod]
  rw [winIndx, hcell, and_seven, and_seven, Nat.div_add_mod]
  exact tileIndx_getTileLine p _ _ (Nat.mod_lt _ (by decide))

/-- The shade of the background at column `x` of the line. -/
def bgShade (p : Ppu) (x : Nat) : U32 :=
  shade p.regs.bgp (picture p (bit p.regs.lcdc 0x08)
    ((x + p.regs.scx.toNat) % 256) ((p.regs.ly.toNat + p.regs.scy.toNat) % 256))

/-- The shade of the window there. -/
def winShade (p : Ppu) (x : Nat) : U32 :=
  shade p.regs.bgp (picture p (bit p.regs.lcdc 0x40)
    (x + 7 - p.regs.wx.toNat) (p.regs.ly.toNat - p.regs.wy.toNat))

/-- Background, and window where the code draws one, without objects. -/
theorem drawnAt_of_no_objects (s : Emu) (hbg : bit s.ppu.regs.lcdc 0x01)
    (hobj : bit s.ppu.regs.lcdc 0x02 = false) {x : Nat} (hx : x < 160) :
    drawnAt x (eventsSince s (ppuRenderLine s)) =
      [some (if winCond s.ppu.regs x then winShade s.ppu x else bgShade s.ppu x)] := by
  have hnone : objLayer s.ppu x = none := by
    rw [objLayer, hobj, if_neg Bool.false_ne_true]
  rw [drawnAt_line s hx, linePixel_none hbg hnone, composed, hnone, bgWinIndx, paletteColor_eq]
  dsimp only
  rw [bgIndx_eq, winIndx_eq, apply_ite (shade s.ppu.regs.bgp)]
  rfl

/-- **Background scrolling.**  The background alone is a window on its picture,
which wraps around. -/
theorem drawnAt_background (s : Emu) (hbg : bit s.ppu.regs.lcdc 0x01)
    (hobj : bit s.ppu.regs.lcdc 0x02 = false) (hwin : bit s.ppu.regs.lcdc 0x20 = false) {x : Nat}
    (hx : x < 160) :
    drawnAt x (eventsSince s (ppuRenderLine s)) = [some (bgShade s.ppu x)] := by
  have hcond : winCond s.ppu.regs x = false := by
    rw [winCond, hwin, Bool.false_and]
  rw [drawnAt_of_no_objects s hbg hobj hx, hcond, if_neg Bool.false_ne_true]

/-- A map of one tile, and a background that is scrolled across its edges. -/
def scrolled : Emu :=
  (powerOn #[] #[]).run [
    .write 0x8010 0xf0, .write 0x8011 0xcc,         -- tile 1, row 0: 3 3 1 1 2 2 0 0
    .write 0x9800 1, .write 0xff47 0xe4,
    .write 0xff42 0xfe, .write 0xff43 0xfd, .write 0xff44 2, .write 0xff40 0x91]

/-- Past the right edge of the picture, and below its last row. -/
theorem drawnAt_background_scrolled :
    drawnAt 5 (eventsSince scrolled (ppuRenderLine scrolled)) = [some (bgShade scrolled.ppu 5)] :=
  drawnAt_background scrolled (by decide +kernel) (by decide +kernel) (by decide +kernel)
    (by decide)

/-! ### The window -/

/-- The shade at column `x`: the window from (WX - 7, WY) on, the background
elsewhere. -/
def placedShade (p : Ppu) (x : Nat) : U32 :=
  if p.regs.wy ≤ p.regs.ly ∧ p.regs.wx.toNat ≤ x + 7 then winShade p x else bgShade p x

/-- The window covers the pixel, by its last column or with its first row on the
last line, and it shows. -/
def CutOff (p : Ppu) (x : Nat) : Prop :=
  (p.regs.wy ≤ p.regs.ly ∧ p.regs.wx.toNat ≤ x + 7) ∧ (166 ≤ p.regs.wx ∨ 143 ≤ p.regs.wy) ∧
    winShade p x ≠ bgShade p x

theorem winCond_iff {p : Ppu} (hwin : bit p.regs.lcdc 0x20) (x : Nat) :
    winCond p.regs x ↔ (p.regs.wy ≤ p.regs.ly ∧ p.regs.wx.toNat ≤ x + 7) ∧
      ¬ (166 ≤ p.regs.wx ∨ 143 ≤ p.regs.wy) := by
  rw [winCond, hwin, Bool.true_and, not_or, BitVec.not_le, BitVec.not_le]
  simp only [Bool.and_eq_true, decide_eq_true_eq, and_assoc, ge_iff_le]

/-- **Window placement**, and exactly where it fails. -/
theorem drawnAt_window_iff (s : Emu) (hbg : bit s.ppu.regs.lcdc 0x01)
    (hobj : bit s.ppu.regs.lcdc 0x02 = false) (hwin : bit s.ppu.regs.lcdc 0x20) {x : Nat}
    (hx : x < 160) :
    drawnAt x (eventsSince s (ppuRenderLine s)) = [some (placedShade s.ppu x)] ↔
      ¬ CutOff s.ppu x := by
  have hcond := winCond_iff hwin x
  rw [drawnAt_of_no_objects s hbg hobj hx, List.singleton_inj, Option.some_inj, placedShade, CutOff]
  by_cases hcover : s.ppu.regs.wy ≤ s.ppu.regs.ly ∧ s.ppu.regs.wx.toNat ≤ x + 7
  · rw [if_pos hcover]
    by_cases hedge : 166 ≤ s.ppu.regs.wx ∨ 143 ≤ s.ppu.regs.wy
    · -- the background is drawn, which matters where the shades differ
      have hbackground : ¬ winCond s.ppu.regs x := fun hw => (hcond.mp hw).2 hedge
      rw [if_neg hbackground]
      refine ⟨fun heq hcut => hcut.2.2 heq.symm, fun hcut => ?_⟩
      by_contra hne
      exact hcut ⟨hcover, hedge, Ne.symm hne⟩
    · have hwindow : winCond s.ppu.regs x := hcond.mpr ⟨hcover, hedge⟩
      rw [if_pos hwindow]
      exact ⟨fun _ hcut => hedge hcut.2.1, fun _ => rfl⟩
  · have hbackground : ¬ winCond s.ppu.regs x := fun hw => hcover (hcond.mp hw).1
    rw [if_neg hcover, if_neg hbackground]
    exact ⟨fun _ hcut => hcover hcut.1, fun _ => rfl⟩

/-- A window from column 40 on, of another shade than the background. -/
def windowed : Emu :=
  (powerOn #[] #[]).run [
    .write 0x8010 0xff, .write 0x9c00 1,            -- the window's map: tile 1
    .write 0xff47 0xe4, .write 0xff4a 0, .write 0xff4b 47, .write 0xff40 0xf1]

/-- Inside it the window shows. -/
theorem drawnAt_window_inside :
    drawnAt 44 (eventsSince windowed (ppuRenderLine windowed)) =
        [some (placedShade windowed.ppu 44)] ∧
      placedShade windowed.ppu 44 = winShade windowed.ppu 44 ∧
      winShade windowed.ppu 44 ≠ bgShade windowed.ppu 44 := by
  have hinside : ¬ CutOff windowed.ppu 44 := by
    rintro ⟨-, hedge, -⟩
    exact absurd hedge (by decide +kernel)
  exact ⟨(drawnAt_window_iff windowed (by decide +kernel) (by decide +kernel) (by decide +kernel)
    (by decide)).mpr hinside, by decide +kernel, by decide +kernel⟩

/-- A window over the last column of line 0, and a background of another shade. -/
def lastColumn : Emu :=
  (powerOn #[] #[]).run [
    .write 0x8010 0xff, .write 0x9800 1,            -- the background's map: tile 1
    .write 0x9813 1, .write 0xff47 0xe4,
    .write 0xff4a 0, .write 0xff4b 166, .write 0xff40 0xf1]

/-- At column 159 the background shows, and the window should. -/
theorem not_drawnAt_window_lastColumn :
    ¬ ∀ (s : Emu) (x : Nat), bit s.ppu.regs.lcdc 0x01 → bit s.ppu.regs.lcdc 0x02 = false →
      bit s.ppu.regs.lcdc 0x20 → s.ppu.regs.ly < 144 → x < 160 →
      drawnAt x (eventsSince s (ppuRenderLine s)) = [some (placedShade s.ppu x)] := by
  intro h
  have hlast := h lastColumn 159 (by decide +kernel) (by decide +kernel) (by decide +kernel)
    (by decide +kernel) (by decide)
  exact absurd hlast (by decide +kernel)

/-! ## Objects -/

section

variable (p : Ppu) (obj : Nat)

/-- An image of 8 by 8 pixels, of one tile, or of 8 by 16, of an even tile and
the odd one below it. -/
def objImage (row col : Nat) : Nat :=
  let tile := p.oam (obj + 2)
  if bit p.regs.lcdc 0x04 then
    if row < 8 then tilePixel (vram p) (0x8000 + 16 * (tile &&& 0xfe).toNat) row col
    else tilePixel (vram p) (0x8000 + 16 * (tile ||| 1).toNat) (row - 8) col
  else tilePixel (vram p) (0x8000 + 16 * tile.toNat) row col

/-- The row of the image on the line, turned over in Y. -/
def objRow : Nat :=
  let r := p.regs.ly.toNat + 16 - (p.oam obj).toNat
  if bit (p.oam (obj + 3)) 0x40 then objSize p.regs - 1 - r else r

/-- The column of the image at column `x` of the line, turned over in X. -/
def objColumn (x : Nat) : Nat :=
  let c := x + 8 - (p.oam (obj + 1)).toNat
  if bit (p.oam (obj + 3)) 0x20 then 7 - c else c

/-- Two tiles from an odd one on, and the tile that is taken differs from the one
before it. -/
def OddStack (row col : Nat) : Prop :=
  let tile := p.oam (obj + 2)
  bit p.regs.lcdc 0x04 ∧ bit tile 0x01 ∧
    tilePixel (vram p) (0x8000 + 16 * (tile.toNat + row / 8)) (row % 8) col ≠
      tilePixel (vram p) (0x8000 + 16 * (tile.toNat + row / 8 - 1)) (row % 8) col

end

variable {p : Ppu} {obj x : Nat}

theorem objRow_lt (h : Covers p x p.regs.ly.toNat obj) : objRow p obj < objSize p.regs := by
  obtain ⟨⟨h₁, h₂⟩, -⟩ := h
  unfold objRow
  dsimp only
  split <;> omega

theorem objColumn_lt (h : Covers p x p.regs.ly.toNat obj) : objColumn p obj x < 8 := by
  obtain ⟨-, h₁, h₂⟩ := h
  unfold objColumn
  dsimp only
  split <;> omega

/-- The row the code comes to, in `int`. -/
theorem objTileOffset_eq (h : Covers p x p.regs.ly.toNat obj) :
    objTileOffset p obj (p.regs.ly + 16 - p.oam obj) =
      (0x8000 + 16 * (p.oam (obj + 2)).toNat : Nat) - 0x8000 + 2 * objRow p obj := by
  obtain ⟨⟨h₁, h₂⟩, -⟩ := h
  have hsize := objSize_le p.regs
  have hline : (p.regs.ly + 16 - p.oam obj).toNat = p.regs.ly.toNat + 16 - (p.oam obj).toNat := by
    bv_omega
  rw [objTileOffset, objRow, hline]
  split <;> omega

/-- The column the code comes to, modulo 256 and then 8. -/
theorem objColumn_eq (h : Covers p x p.regs.ly.toNat obj) :
    ((if bit (p.oam (obj + 3)) 0x20 then 7 - (BitVec.ofNat 8 x - p.oam (obj + 1))
      else BitVec.ofNat 8 x - p.oam (obj + 1)) &&& 7 : U8).toNat = objColumn p obj x := by
  obtain ⟨-, h₁, h₂⟩ := h
  have hand (v : U8) : (v &&& 7).toNat = v.toNat % 8 := by
    rw [BitVec.toNat_and]
    exact and_seven v.toNat
  have hcol : (BitVec.ofNat 8 x - p.oam (obj + 1)).toNat % 8 = x + 8 - (p.oam (obj + 1)).toNat := by
    rw [BitVec.toNat_sub, BitVec.toNat_ofNat]
    omega
  rw [hand, objColumn]
  split
  · rw [BitVec.toNat_sub]
    have hseven : (7 : U8).toNat = 7 := rfl
    omega
  · exact hcol

/-- **The object's lookup**: as many tiles from `obj[2]` on as the size asks
for. -/
theorem objIndx_eq (h : Covers p x p.regs.ly.toNat obj) :
    objIndx p obj (BitVec.ofNat 8 x) =
      tilePixel (vram p) (0x8000 + 16 * (p.oam (obj + 2)).toNat) (objRow p obj)
        (objColumn p obj x) := by
  rw [objIndx, getTileLineFromObject]
  rw [objColumn_eq h]
  exact tileIndx_tileRow p (objTileOffset_eq h) (Nat.le_add_right _ _) (objColumn_lt h)

theorem even_odd_tile (tile : U8) :
    (tile &&& 0xfe).toNat = (if bit tile 0x01 then tile.toNat - 1 else tile.toNat) ∧
      (tile ||| 1).toNat = (tile &&& 0xfe).toNat + 1 := by
  revert tile
  decide +kernel

/-- The tall image, by the even tile it starts from. -/
theorem objImage_tall (hbig : bit p.regs.lcdc 0x04) {row : Nat} (hrow : row < 16) (col : Nat) :
    objImage p obj row col =
      tilePixel (vram p) (0x8000 + 16 * ((p.oam (obj + 2) &&& 0xfe).toNat + row / 8)) (row % 8)
        col := by
  rw [objImage, hbig, if_pos rfl, (even_odd_tile _).2]
  split
  case isTrue hlow =>
    rw [Nat.div_eq_of_lt hlow, Nat.mod_eq_of_lt hlow]
    rfl
  case isFalse hlow =>
    have hdiv : row / 8 = 1 := by omega
    have hmod : row % 8 = row - 8 := by omega
    rw [hdiv, hmod]

/-- **Object tile fetch**, and exactly when the wrong tile is taken. -/
theorem objIndx_iff (h : Covers p x p.regs.ly.toNat obj) :
    objIndx p obj (BitVec.ofNat 8 x) = objImage p obj (objRow p obj) (objColumn p obj x) ↔
      ¬ OddStack p obj (objRow p obj) (objColumn p obj x) := by
  have hrow : objRow p obj < 16 := Nat.lt_of_lt_of_le (objRow_lt h) (objSize_le p.regs)
  rw [objIndx_eq h, OddStack]
  generalize objRow p obj = row at hrow ⊢
  generalize objColumn p obj x = col
  cases hbig : bit p.regs.lcdc 0x04 with
  | false =>
      have himage : objImage p obj row col =
          tilePixel (vram p) (0x8000 + 16 * (p.oam (obj + 2)).toNat) row col := by
        rw [objImage, hbig, if_neg Bool.false_ne_true]
      rw [himage]
      exact ⟨fun _ hodd => Bool.false_ne_true hodd.1, fun _ => rfl⟩
  | true =>
      have htaken :=
        Tiles.tilePixel_stacked (vram p) (0x8000 + 16 * (p.oam (obj + 2)).toNat) row col
      rw [Nat.add_assoc, ← Nat.mul_add] at htaken
      rw [htaken, objImage_tall hbig hrow, (even_odd_tile _).1]
      cases hb : bit (p.oam (obj + 2)) 0x01 with
      | false =>
          rw [if_neg Bool.false_ne_true]
          exact ⟨fun _ hodd => Bool.false_ne_true hodd.2.1, fun _ => rfl⟩
      | true =>
          -- an odd tile is not the first
          have hpos : 0 < (p.oam (obj + 2)).toNat := by
            refine Nat.pos_of_ne_zero fun hzero => ?_
            rw [BitVec.eq_of_toNat_eq (y := 0) hzero] at hb
            exact absurd hb (by decide)
          have hbefore : (p.oam (obj + 2)).toNat - 1 + row / 8 =
              (p.oam (obj + 2)).toNat + row / 8 - 1 := by omega
          rw [if_pos rfl, hbefore]
          exact ⟨fun heq hodd => hodd.2.2 heq, fun hno => by_contra fun hne => hno ⟨rfl, rfl, hne⟩⟩

/-- A tall object at the left end of line 0, of an even tile and turned over both ways. -/
def flippedTile : Emu :=
  (powerOn #[] #[]).writes [
    (0x803e, 0x01),                                 -- tile 3, row 7: 0 0 0 0 0 0 0 1
    (0xfe00, 16), (0xfe01, 8), (0xfe02, 2), (0xfe03, 0x60),
    (0xff40, 0x86)]

/-- The last pixel of its image comes first. -/
theorem objIndx_flippedTile :
    objIndx flippedTile.ppu 0 (BitVec.ofNat 8 0) =
        objImage flippedTile.ppu 0 (objRow flippedTile.ppu 0) (objColumn flippedTile.ppu 0 0) ∧
      objIndx flippedTile.ppu 0 (BitVec.ofNat 8 0) = 1 := by
  have heven : ¬ OddStack flippedTile.ppu 0 (objRow flippedTile.ppu 0)
      (objColumn flippedTile.ppu 0 0) := by
    rintro ⟨-, hodd, -⟩
    exact absurd hodd (by decide +kernel)
  exact ⟨(objIndx_iff (p := flippedTile.ppu) (x := 0) (by decide +kernel)).mpr heven,
    by decide +kernel⟩

/-- A tall object at the left end of line 0, of an odd tile. -/
def oddTile : Emu :=
  (powerOn #[] #[]).writes [
    (0x8010, 0x0f),                                 -- tile 1, row 0: 0 0 0 0 1 1 1 1
    (0xfe00, 16), (0xfe01, 8), (0xfe02, 1),
    (0xff40, 0x86)]

/-- At its fifth column it should show the tile before. -/
theorem not_objIndx_oddTile :
    ¬ ∀ (p : Ppu) (obj x : Nat), p.regs.ly < 144 → x < 160 → obj ∈ objPlaces →
      Covers p x p.regs.ly.toNat obj →
      objIndx p obj (BitVec.ofNat 8 x) = objImage p obj (objRow p obj) (objColumn p obj x) := by
  intro h
  have hfour := h oddTile.ppu 0 4 (by decide +kernel) (by decide) (by decide) (by decide +kernel)
  exact absurd hfour (by decide +kernel)

end RealBoy
