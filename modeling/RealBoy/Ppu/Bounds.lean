/-
# `RealBoy.Ppu.Bounds` — the tables of the renderer

`ppu_render_line` computes its places in the tables from register values, by
pointer arithmetic.  `Checked.ppuRenderLine` is the same code over `Bounded.read`:
it gives nothing once an index is outside its table, be it of tile data, of a
tile map, of OAM, of `oam_hash`, of `objs` or of `color_pal`.  It never comes to
that (`ppuRenderLine_inBounds`).  The background and the window keep inside by
their masks and by `winCond`; the objects because the index holds entries of OAM
whose lines the test has compared with the size, and because a row of 40 is
followed by an empty one.
-/
import RealBoy.Lib.Bounded
import RealBoy.Lib.Tiles
import RealBoy.Ppu.Priority

namespace RealBoy

open Emu
open Bounded (read bind_eq)

/-! ## The renderer with its indices checked -/

namespace Checked

/-- A byte of OAM. -/
def oam (p : Ppu) (k : Nat) : Option U8 := read 0xa0 p.oam k

/-- A cell of a tile map. -/
def tileMap (p : Ppu) (second : Bool) (cell : Int) : Option U8 :=
  read 0x400 (RealBoy.tileMap p second) cell

/-- `color_pal[(palette & (3<<(indx<<1))) >> (indx<<1)]`. -/
def paletteColor (palette : U8) (indx : Nat) : Option U32 :=
  colorPal[(palette.toNat &&& (3 <<< (indx <<< 1))) >>> (indx <<< 1)]?

/-- A `uint16_t` read at an offset of `tile_data`. -/
def tileRow (p : Ppu) (offset : Int) : Option U16 := do
  let low ← read 0x1800 p.tileData offset
  let high ← read 0x1800 p.tileData (offset + 1)
  return high ++ low

/-- `get_tile_line_from_object`. -/
def getTileLineFromObject (p : Ppu) (obj : Nat) (line : U8) : Option U16 := do
  let tile ← oam p (obj + 2)
  let attr ← oam p (obj + 3)
  tileRow p (tile.toNat * 16 +
    (if bit attr 0x40 then ((objSize p.regs : Int) - 1 - line.toNat) * 2 else line.toNat * 2))

/-- The test of `get_objs_at_xy`. -/
def objCovers (p : Ppu) (x y : U32) (obj : Nat) : Option Bool := do
  let objY ← oam p obj
  if y + 16 - objY.setWidth 32 < BitVec.ofNat 32 (objSize p.regs) then
    let objX ← oam p (obj + 1)
    return x + 8 - objX.setWidth 32 < 8
  else
    return false

/-- `get_objs_at_xy`, with an array of 10. -/
def getObjsAtXY (p : Ppu) (x y : U32) : Option (List Nat) :=
  [0, 1].foldlM (fun objs i =>
    let row := oamHashRow ((y + BitVec.ofNat 32 i * 16) >>> 4).toNat
    Bounded.collect (objCovers p x y) 10 10 p.oamHash (oamHashSize - row) row objs) []

/-- The colour index of an object at column `x`. -/
def objIndx (p : Ppu) (obj : Nat) (x : U8) : Option Nat := do
  let objY ← oam p obj
  let tileline ← getTileLineFromObject p obj (p.regs.ly + 16 - objY)
  let attr ← oam p (obj + 3)
  let objX ← oam p (obj + 1)
  let begPixelInTile : U8 := if bit attr 0x20 then 7 - (x - objX) else x - objX
  return tileIndx tileline (begPixelInTile &&& 7).toNat

/-- The loop body of `get_pixel_priority_from_objs`.  The two X bytes are read
also where the source need not. -/
def pixelPriorityStep (p : Ppu) (x : U8) (w : PixelPriority) (obj : Nat) :
    Option PixelPriority := do
  let indx ← objIndx p obj x
  let objX ← oam p (obj + 1)
  let currX ← oam p (w.outObj + 1)
  if w.pixel = 0 ∨ objX ≤ currX then
    if w.pixel ≠ 0 ∧ objX = currX then
      return if firstInOam obj w.outObj 40 0 = obj then ⟨indx, obj⟩ else w
    else
      return if indx ≠ 0 then ⟨indx, obj⟩ else w
  else
    return w

/-- `get_pixel_priority_from_objs`. -/
def getPixelPriorityFromObjs (p : Ppu) (x : U8) (first : Nat) (rest : List Nat) :
    Option PixelPriority := do
  let indx ← objIndx p first x
  rest.foldlM (pixelPriorityStep p x) ⟨indx, first⟩

/-- `obj_prio`, and the index of `obj_pixel`. -/
def objLayer (p : Ppu) (x : Nat) : Option (Option PixelPriority) :=
  if bit p.regs.lcdc 0x02 then do
    match ← getObjsAtXY p (BitVec.ofNat 32 x) (p.regs.ly.setWidth 32) with
    | [] => return none
    | first :: rest =>
      let w ← getPixelPriorityFromObjs p (BitVec.ofNat 8 x) first rest
      return if w.pixel ≠ 0 then some w else none
  else
    return none

/-- `obj_pixel`, where there is one. -/
def objColor (p : Ppu) : Option PixelPriority → Option (Option U32)
  | none => some none
  | some w => do
    let attr ← oam p (w.outObj + 3)
    let color ← paletteColor (if bit attr 0x10 then p.regs.obp1 else p.regs.obp0) w.pixel
    return some color

/-- `bg_indx`. -/
def bgIndx (p : Ppu) (i j : Nat) : Option Nat := do
  let regs := p.regs
  let begPixelInTile := regs.scx.toNat &&& 7
  let tile ← tileMap p (bit regs.lcdc 0x08) (bgMapCell regs i j)
  let line ← tileRow p (getTileLine regs tile ((regs.ly.toNat + regs.scy.toNat) &&& 7))
  return tileIndx line ((j + begPixelInTile) &&& 7)

/-- `win_indx`.  The column is an `int`: left of the window the cell would be
before the row. -/
def winIndx (p : Ppu) (i j : Nat) : Option Nat := do
  let regs := p.regs
  let row : Nat := (((regs.ly.toNat - regs.wy.toNat) >>> 3) <<< 5) &&& 0x3ff
  let col : Int := ((i + j + 7 : Nat) - regs.wx.toNat : Int) >>> (3 : Nat)
  let tile ← tileMap p (bit regs.lcdc 0x40) (row + col)
  let line ← tileRow p (getTileLine regs tile ((regs.ly.toNat - regs.wy.toNat) &&& 7))
  return tileIndx line ((i + j + 7 - regs.wx.toNat) &&& 7)

/-- `!obj_pixel || obj_prio[3] & 0x80`. -/
def underLayersShow (p : Ppu) : Option PixelPriority → Option Bool
  | none => some true
  | some w => do
    let attr ← oam p (w.outObj + 3)
    return bit attr 0x80

/-- One of the two lower layers; `indx` is looked up where it shows. -/
def drawLayer (p : Ppu) (obj : Option PixelPriority) (shows : Bool) (indx : Option Nat)
    (finalPixel : Option U32) : Option (Option U32) := do
  let under ← underLayersShow p obj
  if shows && under then
    let indx ← indx
    let color ← paletteColor p.regs.bgp indx
    return if obj = none ∨ indx ≠ 0 then some color else finalPixel
  else
    return finalPixel

/-- `final_pixel` at `i + j`. -/
def finalPixel (p : Ppu) (i j : Nat) : Option (Option U32) := do
  let obj ← objLayer p (i + j)
  let pixel ← objColor p obj
  let pixel ← drawLayer p obj (bit p.regs.lcdc 0x01) (bgIndx p i j) pixel
  drawLayer p obj (winCond p.regs (i + j)) (winIndx p i j) pixel

/-- `ppu_render_line`. -/
def ppuRenderLine (s : Emu) : Option Emu :=
  (List.range 20).foldlM (fun s block =>
    (List.range 8).foldlM (fun s j => do
      let pixel ← finalPixel s.ppu (8 * block) j
      return s.log (.renderDrawPixel (8 * block + j) s.ppu.regs.ly pixel)) s)
    (s.log (.ppuRenderLine s.ppu.regs.ly))

end Checked

/-! ## Palette and tiles -/

theorem checked_paletteColor (palette : U8) (indx : Nat) :
    Checked.paletteColor palette indx = some (paletteColor palette indx) := by
  have hfield : (palette.toNat &&& (3 <<< (indx <<< 1))) >>> (indx <<< 1) < colorPal.length :=
    Tiles.field_lt palette.toNat (indx <<< 1)
  rw [Checked.paletteColor, paletteColor, List.getD_eq_getElem?_getD,
    List.getElem?_eq_getElem hfield]
  rfl

section

variable {p : Ppu}

theorem checked_tileMap (second : Bool) {cell : Nat} (h : cell < 0x400) :
    Checked.tileMap p second cell = some (tileMap p second cell) := Bounded.read_natCast h _

/-- Both bytes of the row are in tile data. -/
theorem checked_tileRow {offset : Int} (h₀ : 0 ≤ offset) (h₁ : offset + 1 < 0x1800) :
    Checked.tileRow p offset = some (p.tileRow offset) := by
  have hnext : (offset + 1).toNat = offset.toNat + 1 := by omega
  have hlow : read 0x1800 p.tileData offset = some (p.tileData offset.toNat) :=
    Bounded.read_eq h₀ (by omega) p.tileData
  have hhigh : read 0x1800 p.tileData (offset + 1) = some (p.tileData (offset.toNat + 1)) :=
    hnext ▸ Bounded.read_eq (by omega) h₁ p.tileData
  rw [Checked.tileRow, bind_eq hlow, bind_eq hhigh]
  rfl

/-- A row of any tile, counted from either base. -/
theorem getTileLine_bounds (regs : PpuRegs) (tile : U8) {line : Nat} (h : line < 8) :
    0 ≤ getTileLine regs tile line ∧ getTileLine regs tile line + 1 < 0x1800 := by
  have hlt := tile.isLt
  have hge := tile.le_toInt
  have hle := tile.toInt_lt
  unfold getTileLine
  split <;> constructor <;> omega

theorem checked_getTileLine (tile : U8) {line : Nat} (h : line < 8) :
    Checked.tileRow p (getTileLine p.regs tile line) =
      some (p.tileRow (getTileLine p.regs tile line)) :=
  checked_tileRow (getTileLine_bounds p.regs tile h).1 (getTileLine_bounds p.regs tile h).2

theorem and_seven_lt (n : Nat) : n &&& 7 < 8 := Nat.lt_succ_of_le Nat.and_le_right

theorem bgMapCell_lt (regs : PpuRegs) (i j : Nat) : bgMapCell regs i j < 0x400 := by
  rw [bgMapCell, Tiles.mapRow_eq, Tiles.and_byte, Tiles.shiftRight_three]
  omega

/-- The background's lookup. -/
theorem checked_bgIndx (i j : Nat) : Checked.bgIndx p i j = some (bgIndx p i j) := by
  have htile := checked_tileMap (p := p) (bit p.regs.lcdc 0x08) (bgMapCell_lt p.regs i j)
  rw [Checked.bgIndx, bind_eq htile, bind_eq (checked_getTileLine _ (and_seven_lt _))]
  rfl

theorem winMapCell_lt (regs : PpuRegs) {i j : Nat} (hx : i + j < 160) :
    winMapCell regs i j < 0x400 := by
  rw [winMapCell, Tiles.mapRow_eq, Tiles.shiftRight_three]
  omega

theorem winCond_le {regs : PpuRegs} {x : Nat} (h : winCond regs x) : regs.wx.toNat ≤ x + 7 := by
  simp only [winCond, Bool.and_eq_true, decide_eq_true_eq] at h
  exact h.2.1.1.2

/-- The window's lookup, where it shows. -/
theorem checked_winIndx {i j : Nat} (hx : i + j < 160) (h : winCond p.regs (i + j)) :
    Checked.winIndx p i j = some (winIndx p i j) := by
  have hle := winCond_le h
  have hcell : (((((p.regs.ly.toNat - p.regs.wy.toNat) >>> 3) <<< 5) &&& 0x3ff : Nat) : Int) +
      ((i + j + 7 : Nat) - p.regs.wx.toNat : Int) >>> (3 : Nat) = winMapCell p.regs i j := by
    rw [← Int.ofNat_sub hle, ← Int.natCast_shiftRight]
    rfl
  have htile := checked_tileMap (p := p) (bit p.regs.lcdc 0x40) (winMapCell_lt p.regs hx)
  rw [Checked.winIndx, hcell, bind_eq htile, bind_eq (checked_getTileLine _ (and_seven_lt _))]
  rfl

end

/-! ## Objects -/

section

variable {p : Ppu} {obj : Nat}

/-- The four bytes of an entry are in OAM. -/
theorem OamEntry.checked (h : OamEntry obj) {k : Nat} (hk : k < 4) :
    Checked.oam p (obj + k) = some (p.oam (obj + k)) := by
  obtain ⟨e, he, rfl⟩ := h
  exact Bounded.read_natCast (by omega) p.oam

theorem OamEntry.checked_zero (h : OamEntry obj) : Checked.oam p obj = some (p.oam obj) :=
  h.checked (k := 0) (by decide)

theorem checked_objCovers (h : OamEntry obj) (x y : U32) :
    Checked.objCovers p x y obj = some (objCovers p x y obj) := by
  rw [Checked.objCovers, bind_eq h.checked_zero, bind_eq (h.checked (by decide)), objCovers]
  split
  case isTrue hy => rw [decide_eq_true hy, Bool.true_and]; rfl
  case isFalse hy => rw [decide_eq_false hy, Bool.false_and]; rfl

/-- What the lookup has made sure of: an entry of OAM, that is on the line. -/
structure OnLine (p : Ppu) (obj : Nat) : Prop where
  entry : OamEntry obj
  line : (p.regs.ly + 16 - p.oam obj).toNat < objSize p.regs

/-- A difference below the size is the same in 8 bits. -/
theorem line_of_objCovers {x : U32} (h : objCovers p x (p.regs.ly.setWidth 32) obj) :
    (p.regs.ly + 16 - p.oam obj).toNat < objSize p.regs := by
  have hsize := objSize_le p.regs
  rw [objCovers, Bool.and_eq_true, decide_eq_true_eq] at h
  have hy := h.1
  clear h
  generalize objSize p.regs = size at hsize hy ⊢
  generalize p.oam obj = Y at hy ⊢
  generalize p.regs.ly = ly at hy ⊢
  bv_omega

/-- A row of any two tiles, turned over or not. -/
theorem objTileOffset_bounds (obj : Nat) {line : U8} (h : line.toNat < objSize p.regs) :
    0 ≤ objTileOffset p obj line ∧ objTileOffset p obj line + 1 < 0x1800 := by
  have hsize := objSize_le p.regs
  have htile := (p.oam (obj + 2)).isLt
  unfold objTileOffset
  split <;> constructor <;> omega

theorem checked_getTileLineFromObject (h : OamEntry obj) {line : U8}
    (hline : line.toNat < objSize p.regs) :
    Checked.getTileLineFromObject p obj line = some (getTileLineFromObject p obj line) := by
  obtain ⟨h₀, h₁⟩ := objTileOffset_bounds obj hline
  rw [Checked.getTileLineFromObject, bind_eq (h.checked (by decide)),
    bind_eq (h.checked (by decide))]
  exact checked_tileRow h₀ h₁

theorem checked_objIndx (h : OnLine p obj) (x : U8) :
    Checked.objIndx p obj x = some (objIndx p obj x) := by
  rw [Checked.objIndx, bind_eq h.entry.checked_zero,
    bind_eq (checked_getTileLineFromObject h.entry h.line), bind_eq (h.entry.checked (by decide)),
    bind_eq (h.entry.checked (by decide))]
  rfl

theorem checked_pixelPriorityStep (h : OnLine p obj) {w : PixelPriority} (hw : OamEntry w.outObj)
    (x : U8) :
    Checked.pixelPriorityStep p x w obj = some (pixelPriorityStep p x w obj) := by
  rw [Checked.pixelPriorityStep, bind_eq (checked_objIndx h x),
    bind_eq (h.entry.checked (by decide)), bind_eq (hw.checked (by decide)), pixelPriorityStep]
  split
  · split <;> rfl
  · rfl

/-- The array of the objects on the line. -/
theorem checked_getPixelPriorityFromObjs {first : Nat} {rest : List Nat}
    (h : ∀ obj ∈ first :: rest, OnLine p obj) (x : U8) :
    Checked.getPixelPriorityFromObjs p x first rest =
        some (getPixelPriorityFromObjs p x first rest) ∧
      OamEntry (getPixelPriorityFromObjs p x first rest).outObj := by
  have hfirst := h first List.mem_cons_self
  rw [Checked.getPixelPriorityFromObjs, bind_eq (checked_objIndx hfirst x)]
  refine Bounded.foldlM_eq (fun w : PixelPriority => OamEntry w.outObj) ?_ hfirst.entry
  intro w obj hmem hw
  have hobj := h obj (List.mem_cons_of_mem first hmem)
  refine ⟨checked_pixelPriorityStep hobj hw x, ?_⟩
  rcases @step_outObj p x w obj with hkeep | hnew
  · rwa [hkeep]
  · rw [hnew]
    exact hobj.entry

/-! ### The lookup -/

variable {rows : Nat → List Nat}

theorem ObjIndex.entry (h : ObjIndex p.oam p.oamHash rows) {r : Nat} (hmem : obj ∈ rows r) :
    OamEntry obj := by
  obtain ⟨e, he, hobj, -⟩ := h.filed r obj hmem
  exact ⟨e, he, hobj⟩

/-- No row runs past the index, and no object past the array. -/
theorem ObjIndex.checked_getObjsAtXY (h : ObjIndex p.oam p.oamHash rows) (x : U32) {y : Nat}
    (hy : y < 256) :
    Checked.getObjsAtXY p x (BitVec.ofNat 32 y) =
      some (RealBoy.getObjsAtXY p x (BitVec.ofNat 32 y)) := by
  refine (Bounded.foldlM_eq (fun _ => True) (fun objs i hi _ => ⟨?_, trivial⟩) trivial).1
  have hi : i < 2 := by
    rcases List.mem_cons.mp hi with rfl | hi
    · decide
    · rw [List.mem_singleton.mp hi]
      decide
  have hr : y / 16 + i < 17 := by omega
  have hends := h.ends hr
  dsimp only
  rw [probe_row hy i hi]
  exact Bounded.collect_eq (Nat.le_refl 10) (h.table.row hr hends) (h.table.fuel hr hends)
    fun obj hmem => checked_objCovers (h.entry hmem) x _

theorem ObjIndex.onLine (h : ObjIndex p.oam p.oamHash rows) (x : U32)
    (hmem : obj ∈ RealBoy.getObjsAtXY p x (p.regs.ly.setWidth 32)) : OnLine p obj := by
  rw [← BitVec.ofNat_toNat, h.getObjsAtXY_eq x p.regs.ly.isLt, BitVec.ofNat_toNat] at hmem
  obtain ⟨hrows, hcovers⟩ := List.mem_filter.mp (List.mem_of_mem_take hmem)
  refine ⟨?_, line_of_objCovers hcovers⟩
  rcases List.mem_append.mp hrows with hrow | hrow
  · exact h.entry hrow
  · exact h.entry hrow

/-- The object layer, and the entry it delivers. -/
theorem ObjIndex.checked_objLayer (h : ObjIndex p.oam p.oamHash rows) (x : Nat) :
    Checked.objLayer p x = some (objLayer p x) ∧
      ∀ w, objLayer p x = some w → OamEntry w.outObj := by
  have hobjs := h.checked_getObjsAtXY (BitVec.ofNat 32 x) p.regs.ly.isLt
  rw [BitVec.ofNat_toNat] at hobjs
  have hline : ∀ obj ∈ RealBoy.getObjsAtXY p (BitVec.ofNat 32 x) (p.regs.ly.setWidth 32),
      OnLine p obj :=
    fun _ hmem => h.onLine (BitVec.ofNat 32 x) hmem
  unfold Checked.objLayer objLayer
  split
  case isFalse => exact ⟨rfl, nofun⟩
  case isTrue =>
    rw [bind_eq hobjs]
    cases hlist : RealBoy.getObjsAtXY p (BitVec.ofNat 32 x) (p.regs.ly.setWidth 32) with
    | nil => exact ⟨rfl, nofun⟩
    | cons first rest =>
        rw [hlist] at hline
        obtain ⟨hrun, hentry⟩ := checked_getPixelPriorityFromObjs hline (BitVec.ofNat 8 x)
        dsimp only
        rw [bind_eq hrun]
        refine ⟨rfl, fun w hw => ?_⟩
        split at hw
        · cases hw
          exact hentry
        · cases hw

/-! ## The line -/

variable {obj : Option PixelPriority}

theorem checked_objColor (h : ∀ w, obj = some w → OamEntry w.outObj) :
    Checked.objColor p obj = some (obj.map (objColor p)) := by
  cases obj with
  | none => rfl
  | some w =>
      rw [Checked.objColor, bind_eq ((h w rfl).checked (by decide)),
        bind_eq (checked_paletteColor _ _)]
      rfl

theorem checked_underLayersShow (h : ∀ w, obj = some w → OamEntry w.outObj) :
    Checked.underLayersShow p obj = some (underLayersShow p obj) := by
  cases obj with
  | none => rfl
  | some w =>
      rw [Checked.underLayersShow, bind_eq ((h w rfl).checked (by decide))]
      rfl

/-- A layer whose lookup runs through where the layer shows. -/
theorem checked_drawLayer (h : ∀ w, obj = some w → OamEntry w.outObj) {shows : Bool}
    {indx : Option Nat} {indx' : Nat} (hindx : shows → indx = some indx') (pixel : Option U32) :
    Checked.drawLayer p obj shows indx pixel = some (drawLayer p obj shows indx' pixel) := by
  rw [Checked.drawLayer, bind_eq (checked_underLayersShow h), drawLayer]
  split
  case isTrue hs =>
    have hshows : shows := (Bool.and_eq_true_iff.mp hs).1
    rw [bind_eq (hindx hshows), bind_eq (checked_paletteColor _ _)]
    split <;> rfl
  case isFalse => rfl

theorem ObjIndex.checked_finalPixel (h : ObjIndex p.oam p.oamHash rows) {i j : Nat}
    (hx : i + j < 160) :
    Checked.finalPixel p i j = some (finalPixel p i j) := by
  obtain ⟨hobj, hentry⟩ := h.checked_objLayer (i + j)
  rw [Checked.finalPixel, bind_eq hobj, bind_eq (checked_objColor hentry),
    bind_eq (checked_drawLayer hentry (fun _ => checked_bgIndx i j) _)]
  exact checked_drawLayer hentry (fun hwin => checked_winIndx hx hwin) _

end

/-- OAM and its index are what some bus writes have left there. -/
def OamReached (p : Ppu) : Prop :=
  ∃ rom boot ws, p.oam = ((powerOn rom boot).writes ws).ppu.oam ∧
    p.oamHash = ((powerOn rom boot).writes ws).ppu.oamHash

/-- **Renderer accesses stay in bounds**, whatever the registers and video memory
hold. -/
theorem ppuRenderLine_inBounds {s : Emu} (h : OamReached s.ppu) :
    Checked.ppuRenderLine s = some (ppuRenderLine s) := by
  obtain ⟨rom, boot, ws, hoam, hhash⟩ := h
  obtain ⟨rows, hi, -⟩ := indexed_writes rom boot ws
  rw [← hoam, ← hhash] at hi
  -- drawing leaves the PPU alone
  have hstart : (s.log (.ppuRenderLine s.ppu.regs.ly)).ppu = s.ppu := rfl
  rw [Checked.ppuRenderLine, ppuRenderLine]
  refine (Bounded.foldlM_eq (fun s' : Emu => s'.ppu = s.ppu) (fun s' block hblock hs => ?_) hstart).1
  refine Bounded.foldlM_eq (fun s' : Emu => s'.ppu = s.ppu) (fun s' j hj hs => ?_) hs
  have hpixel : Checked.finalPixel s'.ppu (8 * block) j =
      some (finalPixel s'.ppu (8 * block) j) := by
    have hb := List.mem_range.mp hblock
    have hj := List.mem_range.mp hj
    rw [hs]
    exact hi.checked_finalPixel (by omega)
  exact ⟨bind_eq hpixel _, hs⟩

/-- All forty objects in the last row of the index. -/
def lastRow : List (U16 × U8) :=
  (List.range 40).map fun e => (BitVec.ofNat 16 (0xfe00 + 4 * e), 0xf8)

/-- The line that scans this row, below the screen. -/
def scansLastRow : Emu :=
  let s := (powerOn #[] #[]).writes lastRow
  { s with ppu := { s.ppu with regs := { s.ppu.regs with ly := 0xf0, lcdc := 0xff } } }

theorem ppuRenderLine_scansLastRow :
    Checked.ppuRenderLine scansLastRow = some (ppuRenderLine scansLastRow) :=
  ppuRenderLine_inBounds ⟨#[], #[], lastRow, by rw [scansLastRow], by rw [scansLastRow]⟩

end RealBoy
