/-
# `RealBoy.Ppu.Compose` — the pixels of a line

Two facts about `ppu_render_line`.  The loops draw the columns 0 .. 159 once
each, left to right, and change nothing (`ppuRenderLine_eq`).  And what they
draw is the composition of three layers, object over window over background
(`composed`), but for one combination of the three: an object behind the
background, over a window pixel of index 0, over a background pixel that is
not of index 0.  There the background was painted over the object before the
window was looked at, and the window, being transparent to the test, does not
paint the object back.
-/
import RealBoy.Emu.Run

namespace RealBoy

open Emu

/-! ## The calls of a line -/

/-- Calls made one after another. -/
def Emu.logs (s : Emu) (es : List Event) : Emu := { s with events := s.events ++ es }

@[simp] theorem logs_regs (s : Emu) (es : List Event) : (s.logs es).regs = s.regs := rfl
@[simp] theorem logs_cpu (s : Emu) (es : List Event) : (s.logs es).cpu = s.cpu := rfl
@[simp] theorem logs_ppu (s : Emu) (es : List Event) : (s.logs es).ppu = s.ppu := rfl
@[simp] theorem logs_events (s : Emu) (es : List Event) : (s.logs es).events = s.events ++ es :=
  rfl

theorem logs_nil (s : Emu) : s.logs [] = s := by
  rw [Emu.logs, List.append_nil]

theorem logs_logs (s : Emu) (es es' : List Event) : (s.logs es).logs es' = s.logs (es ++ es') := by
  simp only [Emu.logs, List.append_assoc]

/-- A loop that only makes calls, chosen by looking at the PPU. -/
theorem foldl_logs {ι : Type} (f : Ppu → ι → List Event) :
    ∀ (l : List ι) (s : Emu),
      l.foldl (fun s i => s.logs (f s.ppu i)) s = s.logs (l.flatMap (f s.ppu))
  | [], s => by rw [List.foldl_nil, List.flatMap_nil, logs_nil]
  | i :: l, s => by
      rw [List.foldl_cons, foldl_logs f l, logs_ppu, logs_logs, List.flatMap_cons]

/-- Two nested loops count like one. -/
theorem range_flatMap_range {α : Type} (f : Nat → Nat → α) {m : Nat} (hm : 0 < m) (n : Nat) :
    (List.range n).flatMap (fun b => (List.range m).map (f b)) =
      (List.range (n * m)).map fun x => f (x / m) (x % m) := by
  induction n with
  | zero => simp
  | succ n ih =>
      have row : (List.range m).map (f n) =
          (List.range m).map fun j => f ((n * m + j) / m) ((n * m + j) % m) := by
        refine List.map_congr_left fun j hj => ?_
        have hj : j < m := List.mem_range.mp hj
        have hq : (n * m + j) / m = n := by
          rw [Nat.mul_comm, Nat.mul_add_div hm, Nat.div_eq_of_lt hj, Nat.add_zero]
        have hr : (n * m + j) % m = j := by
          rw [Nat.mul_comm, Nat.mul_add_mod, Nat.mod_eq_of_lt hj]
        rw [hq, hr]
      rw [List.range_succ, List.flatMap_append, ih, Nat.succ_mul, List.range_add, List.map_append,
        List.map_map, List.flatMap_singleton, row]
      rfl

/-- The pixel of column `x`. -/
def linePixel (p : Ppu) (x : Nat) : Option U32 := finalPixel p (8 * (x / 8)) (x % 8)

/-- The call that draws column `j` of a block. -/
def pixelCall (p : Ppu) (block j : Nat) : Event :=
  .renderDrawPixel (8 * block + j) p.regs.ly (finalPixel p (8 * block) j)

/-- The calls of `ppu_render_line`. -/
def lineEvents (p : Ppu) : List Event :=
  .ppuRenderLine p.regs.ly ::
    (List.range 160).map fun x => .renderDrawPixel x p.regs.ly (linePixel p x)

theorem pixelCall_div_mod (p : Ppu) (x : Nat) :
    pixelCall p (x / 8) (x % 8) = .renderDrawPixel x p.regs.ly (linePixel p x) := by
  rw [pixelCall, linePixel, Nat.div_add_mod]

/-- The inner loop draws a block of eight. -/
theorem foldl_block (s : Emu) (block : Nat) :
    (List.range 8).foldl (fun s j => s.log (pixelCall s.ppu block j)) s =
      s.logs ((List.range 8).map (pixelCall s.ppu block)) := by
  have h := foldl_logs (fun p j => [pixelCall p block j]) (List.range 8) s
  rw [← List.map_eq_flatMap] at h
  exact h

/-- **The line.**  `ppu_render_line` draws every column once, in order, and
changes nothing. -/
theorem ppuRenderLine_eq (s : Emu) : ppuRenderLine s = s.logs (lineEvents s.ppu) := by
  have hblocks : (fun (s : Emu) (b : Nat) =>
      (List.range 8).foldl (fun s j => s.log (pixelCall s.ppu b j)) s) =
        fun s b => s.logs ((List.range 8).map (pixelCall s.ppu b)) := by
    funext s b
    exact foldl_block s b
  have hloops : ppuRenderLine s = (List.range 20).foldl
      (fun s b => (List.range 8).foldl (fun s j => s.log (pixelCall s.ppu b j)) s)
        (s.logs [.ppuRenderLine s.ppu.regs.ly]) := by
    rw [ppuRenderLine]
    rfl
  rw [hloops, hblocks, foldl_logs fun p b => (List.range 8).map (pixelCall p b),
    range_flatMap_range _ (by omega), logs_logs, logs_ppu, lineEvents]
  simp only [pixelCall_div_mod]
  rfl

/-! ## The composition -/

/-- The background's or the window's colour index at column `x`, whichever is
in front. -/
def bgWinIndx (p : Ppu) (x : Nat) : Nat :=
  if winCond p.regs x then winIndx p (8 * (x / 8)) (x % 8) else bgIndx p (8 * (x / 8)) (x % 8)

/-- Attribute bit 7 of the object drawn at a column. -/
def objBehind (p : Ppu) (w : PixelPriority) : Bool := bit (p.oam (w.outObj + 3)) 0x80

/-- The pixel three layers should give at column `x`. -/
def composed (p : Ppu) (x : Nat) : U32 :=
  match objLayer p x with
  | none => paletteColor p.regs.bgp (bgWinIndx p x)
  | some w =>
    if objBehind p w = false ∨ bgWinIndx p x = 0 then objColor p w
    else paletteColor p.regs.bgp (bgWinIndx p x)

/-- The background shows through a window of index 0 and hides the object. -/
def BgThroughWindow (p : Ppu) (x : Nat) : Prop :=
  ∃ w, objLayer p x = some w ∧ objBehind p w ∧ winCond p.regs x ∧
    winIndx p (8 * (x / 8)) (x % 8) = 0 ∧ bgIndx p (8 * (x / 8)) (x % 8) ≠ 0 ∧
    paletteColor p.regs.bgp (bgIndx p (8 * (x / 8)) (x % 8)) ≠ objColor p w

theorem linePixel_eq (p : Ppu) (x : Nat) :
    linePixel p x =
      drawLayer p (objLayer p x) (winCond p.regs x) (winIndx p (8 * (x / 8)) (x % 8))
        (drawLayer p (objLayer p x) (bit p.regs.lcdc 0x01) (bgIndx p (8 * (x / 8)) (x % 8))
          ((objLayer p x).map (objColor p))) := by
  rw [linePixel, finalPixel, Nat.div_add_mod]

/-- Without an object the lower layers are painted one over the other. -/
theorem linePixel_none {p : Ppu} {x : Nat} (h : bit p.regs.lcdc 0x01) (ho : objLayer p x = none) :
    linePixel p x = some (composed p x) := by
  rw [linePixel_eq, ho, composed, ho, bgWinIndx, h]
  cases hw : winCond p.regs x with
  | false => simp [drawLayer, underLayersShow]
  | true => simp [drawLayer, underLayersShow]

/-- An object in front of the lower layers hides them. -/
theorem linePixel_front {p : Ppu} {x : Nat} {w : PixelPriority} (ho : objLayer p x = some w)
    (hb : objBehind p w = false) : linePixel p x = some (composed p x) := by
  have hu : underLayersShow p (some w) = false := hb
  rw [linePixel_eq, ho, composed, ho]
  simp [drawLayer, hu, hb]

/-- An object behind: the last lower layer that is not of index 0. -/
theorem linePixel_behind {p : Ppu} {x : Nat} {w : PixelPriority} (h : bit p.regs.lcdc 0x01)
    (ho : objLayer p x = some w) (hb : objBehind p w) :
    linePixel p x = some (
      if winCond p.regs x ∧ winIndx p (8 * (x / 8)) (x % 8) ≠ 0 then
        paletteColor p.regs.bgp (winIndx p (8 * (x / 8)) (x % 8))
      else if bgIndx p (8 * (x / 8)) (x % 8) ≠ 0 then
        paletteColor p.regs.bgp (bgIndx p (8 * (x / 8)) (x % 8))
      else objColor p w) := by
  have hu : underLayersShow p (some w) = true := hb
  rw [linePixel_eq, ho, h]
  generalize bgIndx p (8 * (x / 8)) (x % 8) = b
  generalize winIndx p (8 * (x / 8)) (x % 8) = v
  cases winCond p.regs x with
  | false => by_cases hz : b = 0 <;> simp [drawLayer, hu, hz]
  | true => by_cases hv : v = 0 <;> by_cases hz : b = 0 <;> simp [drawLayer, hu, hz, hv]

/-- **The composition of a pixel**, and exactly where it goes wrong. -/
theorem linePixel_composed_iff {p : Ppu} (x : Nat) (h : bit p.regs.lcdc 0x01) :
    linePixel p x = some (composed p x) ↔ ¬ BgThroughWindow p x := by
  cases ho : objLayer p x with
  | none =>
      have hn : ¬ BgThroughWindow p x := by
        rintro ⟨w, hw, -⟩
        rw [ho] at hw
        cases hw
      exact ⟨fun _ => hn, fun _ => linePixel_none h ho⟩
  | some w =>
      cases hb : objBehind p w with
      | false =>
          have hn : ¬ BgThroughWindow p x := by
            rintro ⟨w', hw, hb', -⟩
            rw [ho] at hw
            cases hw
            rw [hb] at hb'
            cases hb'
          exact ⟨fun _ => hn, fun _ => linePixel_front ho hb⟩
      | true =>
          have hT : BgThroughWindow p x ↔ winCond p.regs x ∧
              winIndx p (8 * (x / 8)) (x % 8) = 0 ∧ bgIndx p (8 * (x / 8)) (x % 8) ≠ 0 ∧
              paletteColor p.regs.bgp (bgIndx p (8 * (x / 8)) (x % 8)) ≠ objColor p w := by
            constructor
            · rintro ⟨w', hw, -, hc⟩
              rw [ho] at hw
              cases hw
              exact hc
            · exact fun hc => ⟨w, ho, hb, hc⟩
          rw [hT, linePixel_behind h ho hb, composed, ho, bgWinIndx]
          simp only [hb]
          generalize bgIndx p (8 * (x / 8)) (x % 8) = b
          generalize winIndx p (8 * (x / 8)) (x % 8) = v
          cases winCond p.regs x with
          | false => by_cases hz : b = 0 <;> simp [hz]
          | true => by_cases hv : v = 0 <;> by_cases hz : b = 0 <;> simp [hz, hv]

/-! ## What the line draws -/

/-- The pixels drawn at column `x` among some calls. -/
def drawnAt (x : Nat) (es : List Event) : List (Option U32) :=
  es.filterMap fun
    | .renderDrawPixel x' _ pixel => if x' = x then some pixel else none
    | _ => none

theorem drawnAt_line (s : Emu) {x : Nat} (hx : x < 160) :
    drawnAt x (eventsSince s (ppuRenderLine s)) = [linePixel s.ppu x] := by
  have hcount : (List.range 160).count x = 1 :=
    List.count_eq_one_of_mem List.nodup_range (List.mem_range.mpr hx)
  have hcol : (List.range 160).filterMap
      (fun x' => if x' = x then some (linePixel s.ppu x') else none) = [linePixel s.ppu x] := by
    have h := List.filterMap_filter (p := (· = x)) (f := fun x' => some (linePixel s.ppu x'))
      (l := List.range 160)
    rw [List.filterMap_eq_map', List.filter_eq, hcount] at h
    simpa using h.symm
  rw [ppuRenderLine_eq, eventsSince_append s _ _ rfl, lineEvents, drawnAt, List.filterMap_cons,
    List.filterMap_map]
  exact hcol

/-- **Composition.**  With the background enabled, the one pixel a line draws
at column `x` is the composition of the three layers, except where the
background shows through the window. -/
theorem drawnAt_composed_iff (s : Emu) (h : bit s.ppu.regs.lcdc 0x01) {x : Nat} (hx : x < 160) :
    drawnAt x (eventsSince s (ppuRenderLine s)) = [some (composed s.ppu x)] ↔
      ¬ BgThroughWindow s.ppu x := by
  rw [drawnAt_line s hx, List.singleton_inj]
  exact linePixel_composed_iff x h

/-- A PPU with all three layers at the left end of line 0: an object of index
3 with attribute bit 7, a window of index 0, a background of index 3. -/
def threeLayers : Emu :=
  (powerOn #[] #[]).run [
    .write 0x8010 0xff, .write 0x8011 0xff,         -- tile 1: a row of index 3
    .write 0x9c00 1,                                -- the background's map
    .write 0xfe00 16, .write 0xfe01 8, .write 0xfe02 1, .write 0xfe03 0x80,
    .write 0xff47 0xe4, .write 0xff48 0x1b,         -- BGP and OBP0
    .write 0xff4a 0, .write 0xff4b 7,               -- the window covers the line
    .write 0xff40 0xbb]

/-- Where the object has left the line, the three layers compose. -/
theorem drawnAt_composed_threeLayers :
    drawnAt 8 (eventsSince threeLayers (ppuRenderLine threeLayers)) =
      [some (composed threeLayers.ppu 8)] := by
  refine (drawnAt_composed_iff threeLayers (by decide +kernel) (by decide)).mpr ?_
  rintro ⟨w, hw, -⟩
  have : objLayer threeLayers.ppu 8 = none := by decide +kernel
  rw [this] at hw
  cases hw

/-- At column 0 the background hides the object, and the window should not. -/
theorem not_drawnAt_composed :
    ¬ ∀ (s : Emu) (x : Nat), bit s.ppu.regs.lcdc 0x01 → s.ppu.regs.ly < 144 → x < 160 →
      drawnAt x (eventsSince s (ppuRenderLine s)) = [some (composed s.ppu x)] := by
  intro h
  have h0 := h threeLayers 0 (by decide +kernel) (by decide +kernel) (by decide)
  exact absurd h0 (by decide +kernel)

end RealBoy
