/-
# `RealBoy.Emu.Render` — one scanline

`ppu_render_line` and the lookups under it.  Drawing reads the PPU and writes
only the frame buffer, so a pixel is a function of the PPU's state and the line
is the list of its 160 `render_draw_pixel` calls.  `final_pixel` is declared
without a value; `none` is that indeterminate value.

Offsets into the tables are computed as the source computes them, in `int`;
the two that can come out negative are `Int`.
-/
import RealBoy.Emu.Bus

namespace RealBoy

/-- `color_pal`. -/
def colorPal : List U32 := [0xe8fccc, 0xacd490, 0x548c70, 0x142c38]

/-- `color_pal[(palette & (3<<(indx<<1))) >> (indx<<1)]`. -/
def paletteColor (palette : U8) (indx : Nat) : U32 :=
  colorPal.getD ((palette.toNat &&& (3 <<< (indx <<< 1))) >>> (indx <<< 1)) 0

/-- The two bits of a 16-bit tile row at column `col`, low byte first in
memory: `(bool)(line & (0x8000 >> col)) << 1 | (bool)(line & (0x80 >> col))`. -/
def tileIndx (line : U16) (col : Nat) : Nat :=
  (line.getLsbD (15 - col)).toNat <<< 1 ||| (line.getLsbD (7 - col)).toNat

/-- A `uint16_t` read at an offset of `tile_data`. -/
def Ppu.tileRow (p : Ppu) (offset : Int) : U16 :=
  p.tileData (offset.toNat + 1) ++ p.tileData offset.toNat

/-- `get_tile_line`, as an offset into `tile_data`. -/
def getTileLine (regs : PpuRegs) (tileIndx : U8) (line : Nat) : Int :=
  (if bit regs.lcdc 0x10 then 16 * (tileIndx.toNat : Int) else 0x1000 + tileIndx.toInt * 16)
    + line * 2

/-- The object height LCDC selects. -/
def objSize (regs : PpuRegs) : Nat := if bit regs.lcdc 0x04 then 16 else 8

/-- `get_tile_line_from_object`, as an offset into `tile_data`; `obj` is the
object's offset in OAM. -/
def objTileOffset (p : Ppu) (obj : Nat) (line : U8) : Int :=
  (p.oam (obj + 2)).toNat * 16 +
    (if bit (p.oam (obj + 3)) 0x40 then ((objSize p.regs : Int) - 1 - line.toNat) * 2
     else line.toNat * 2)

/-- `get_tile_line_from_object`. -/
def getTileLineFromObject (p : Ppu) (obj : Nat) (line : U8) : U16 :=
  p.tileRow (objTileOffset p obj line)

/-- The test of `get_objs_at_xy`, in the source's unsigned arithmetic. -/
def objCovers (p : Ppu) (x y : U32) (obj : Nat) : Bool :=
  (y + 16 - (p.oam obj).setWidth 32 < BitVec.ofNat 32 (objSize p.regs)) &&
    (x + 8 - (p.oam (obj + 1)).setWidth 32 < 8)

/-- `get_objs_at_xy`: the objects found, in the order of the array `objs`. -/
def getObjsAtXY (p : Ppu) (x y : U32) : List Nat :=
  [0, 1].foldl (fun objs i =>
    let row := oamHashRow ((y + BitVec.ofNat 32 i * 16) >>> 4).toNat
    NullRows.collect (objCovers p x y) 10 p.oamHash (oamHashSize - row) row objs) []

/-- The colour index of an object at column `x`, as the loop body of
`get_pixel_priority_from_objs` computes it. -/
def objIndx (p : Ppu) (obj : Nat) (x : U8) : Nat :=
  let tileline := getTileLineFromObject p obj (p.regs.ly + 16 - p.oam obj)
  let begPixelInTile : U8 :=
    if bit (p.oam (obj + 3)) 0x20 then 7 - (x - p.oam (obj + 1)) else x - p.oam (obj + 1)
  tileIndx tileline (begPixelInTile &&& 7).toNat

/-- `for (j = 0; j < 40; j++) { if (oam == a || oam == b) break; oam += 4; }`,
as the `oam` it ends on. -/
def firstInOam (a b : Nat) : (fuel oam : Nat) → Nat
  | 0, oam => oam
  | fuel + 1, oam => if oam = a ∨ oam = b then oam else firstInOam a b fuel (oam + 4)

/-- The variables of `get_pixel_priority_from_objs`; `curr_priority` and
`*out_obj` are always assigned together. -/
structure PixelPriority where
  pixel : Nat
  outObj : Nat
deriving DecidableEq

/-- The loop body of `get_pixel_priority_from_objs`, for `i > 0`. -/
def pixelPriorityStep (p : Ppu) (x : U8) (w : PixelPriority) (obj : Nat) : PixelPriority :=
  let indx := objIndx p obj x
  let objX := p.oam (obj + 1)
  let currX := p.oam (w.outObj + 1)
  if w.pixel = 0 ∨ objX ≤ currX then
    if w.pixel ≠ 0 ∧ objX = currX then
      if firstInOam obj w.outObj 40 0 = obj then ⟨indx, obj⟩ else w
    else if indx ≠ 0 then ⟨indx, obj⟩
    else w
  else w

/-- `get_pixel_priority_from_objs`, on a nonempty array: its result and
`*out_obj`. -/
def getPixelPriorityFromObjs (p : Ppu) (x : U8) (first : Nat) (rest : List Nat) : PixelPriority :=
  rest.foldl (pixelPriorityStep p x) ⟨objIndx p first x, first⟩

/-- `obj_prio`, and the index of `obj_pixel`, at column `x` of the line:
`none` where no object is drawn. -/
def objLayer (p : Ppu) (x : Nat) : Option PixelPriority :=
  if bit p.regs.lcdc 0x02 then
    match getObjsAtXY p (BitVec.ofNat 32 x) (p.regs.ly.setWidth 32) with
    | [] => none
    | first :: rest =>
      let w := getPixelPriorityFromObjs p (BitVec.ofNat 8 x) first rest
      if w.pixel ≠ 0 then some w else none
  else none

/-- The colour of an object pixel: `obj_pixel`. -/
def objColor (p : Ppu) (w : PixelPriority) : U32 :=
  paletteColor (if bit (p.oam (w.outObj + 3)) 0x10 then p.regs.obp1 else p.regs.obp0) w.pixel

/-- A tile map. -/
def tileMap (p : Ppu) (second : Bool) : Nat → U8 := if second then p.tileMap2 else p.tileMap1

/-- The tile-map cell of the background at `i + j`. -/
def bgMapCell (regs : PpuRegs) (i j : Nat) : Nat :=
  ((((regs.ly.toNat + regs.scy.toNat) >>> 3) <<< 5) &&& 0x3ff)
    + (((i + j + regs.scx.toNat) &&& 0xff) >>> 3)

/-- `bg_indx`. -/
def bgIndx (p : Ppu) (i j : Nat) : Nat :=
  let regs := p.regs
  let begPixelInTile := regs.scx.toNat &&& 7
  let tile := tileMap p (bit regs.lcdc 0x08) (bgMapCell regs i j)
  let line := p.tileRow (getTileLine regs tile ((regs.ly.toNat + regs.scy.toNat) &&& 7))
  tileIndx line ((j + begPixelInTile) &&& 7)

/-- The window condition of `ppu_render_line` at column `x`, LCDC's enable bit
included. -/
def winCond (regs : PpuRegs) (x : Nat) : Bool :=
  bit regs.lcdc 0x20 &&
    (regs.wy ≤ regs.ly && x + 7 ≥ regs.wx.toNat && regs.wx < 166 && regs.wy < 143)

/-- The tile-map cell of the window at `i + j`. -/
def winMapCell (regs : PpuRegs) (i j : Nat) : Nat :=
  ((((regs.ly.toNat - regs.wy.toNat) >>> 3) <<< 5) &&& 0x3ff) + ((i + j + 7 - regs.wx.toNat) >>> 3)

/-- `win_indx`; read only where `winCond` holds, so the differences are not
negative. -/
def winIndx (p : Ppu) (i j : Nat) : Nat :=
  let regs := p.regs
  let tile := tileMap p (bit regs.lcdc 0x40) (winMapCell regs i j)
  let line := p.tileRow (getTileLine regs tile ((regs.ly.toNat - regs.wy.toNat) &&& 7))
  tileIndx line ((i + j + 7 - regs.wx.toNat) &&& 7)

/-- `!obj_pixel || obj_prio[3] & 0x80`. -/
def underLayersShow (p : Ppu) (obj : Option PixelPriority) : Bool :=
  match obj with
  | none => true
  | some w => bit (p.oam (w.outObj + 3)) 0x80

/-- One of the two lower layers: overwrites `final_pixel` where it shows. -/
def drawLayer (p : Ppu) (obj : Option PixelPriority) (shows : Bool) (indx : Nat)
    (finalPixel : Option U32) : Option U32 :=
  if shows && underLayersShow p obj then
    if obj = none ∨ indx ≠ 0 then some (paletteColor p.regs.bgp indx) else finalPixel
  else finalPixel

/-- `final_pixel` at `i + j`. -/
def finalPixel (p : Ppu) (i j : Nat) : Option U32 :=
  let obj := objLayer p (i + j)
  let pixel := obj.map (objColor p)
  let pixel := drawLayer p obj (bit p.regs.lcdc 0x01) (bgIndx p i j) pixel
  drawLayer p obj (winCond p.regs (i + j)) (winIndx p i j) pixel

/-- `ppu_render_line`. -/
def ppuRenderLine (s : Emu) : Emu :=
  (List.range 20).foldl (fun s block =>
    (List.range 8).foldl (fun s j =>
      s.log (.renderDrawPixel (8 * block + j) s.ppu.regs.ly (finalPixel s.ppu (8 * block) j))) s)
    (s.log (.ppuRenderLine s.ppu.regs.ly))

end RealBoy
