/-
# `RealBoy.Ppu.Panel` — the frame buffer

`render_draw_pixel` stores a pixel in `dmg_buf`, behind an assertion that admits
one column and one row more than the image has; `render_draw_framebuffer` hands the
image to pixman.  Calls that keep to the image fail no assertion, and leave in each
pixel the last one drawn there (`calls_of_inImage`, `src_calls`); a line that is
drawn replaces a line of the image (`calls_lineEvents`).
-/
import RealBoy.Lib.Canvas
import RealBoy.Ppu.Compose

namespace RealBoy

open Emu
open History (latest latest_append_none)

/-! ## `render.c` -/

/-- The image of 160 by 144 pixels. -/
abbrev Image := Fin 160 → Fin 144 → Option U32

/-- `dmg_buf`, and the images composited so far. -/
structure Render where
  dmgBuf : Canvas.Buffer
  composited : List Image

/-- After `render_init`: the buffer is from `malloc`. -/
def renderInit : Render := ⟨fun _ => none, []⟩

namespace Render

/-- `render.src`: the buffer as pixman sees it, in rows of `160*(32/8)` bytes. -/
def src (r : Render) : Image := fun x y => Canvas.load r.dmgBuf (Canvas.offset 160 x y)

/-- `render_draw_pixel`; `none` where the assertion fails. -/
def drawPixel (x y : Nat) (pixel : Option U32) (r : Render) : Option Render :=
  if x ≤ 160 ∧ y ≤ 144 then
    some { r with dmgBuf := Canvas.store r.dmgBuf (y * 160 * (32 / 8) + x * 4) pixel }
  else none

/-- `render_draw_framebuffer`. -/
def drawFramebuffer (r : Render) : Render := { r with composited := r.composited ++ [r.src] }

/-- A call, if it is one to `render.c`. -/
def call (r : Render) : Event → Option Render
  | .renderDrawPixel x y pixel => r.drawPixel x y.toNat pixel
  | .renderDrawFramebuffer => some r.drawFramebuffer
  | _ => some r

/-- Some calls, up to the first assertion that fails. -/
def calls (r : Render) (es : List Event) : Option Render := es.foldlM call r

@[simp] theorem calls_nil (r : Render) : r.calls [] = some r := rfl

theorem calls_cons (r : Render) (e : Event) (es : List Event) :
    r.calls (e :: es) = (r.call e).bind fun r => r.calls es := List.foldlM_cons

theorem calls_append (r : Render) (es es' : List Event) :
    r.calls (es ++ es') = (r.calls es).bind fun r => r.calls es' := List.foldlM_append

end Render

/-! ## What the calls paint -/

/-- The pixels drawn, as strokes. -/
def strokesOf (es : List Event) : List Canvas.Stroke :=
  es.filterMap fun
    | .renderDrawPixel x y pixel => some ⟨x, y.toNat, pixel⟩
    | _ => none

/-- A call draws at pixel `x` of line `y`. -/
def pixelAt (x : Fin 160) (y : Fin 144) : Event → Option (Option U32)
  | .renderDrawPixel x' y' pixel => if x' = x ∧ y'.toNat = y then some pixel else none
  | _ => none

theorem latest_strokesOf (x : Fin 160) (y : Fin 144) (es : List Event) :
    latest (Canvas.Stroke.paints x y) (strokesOf es) = latest (pixelAt x y) es := by
  have hpaints : (fun e : Event => Option.bind (α := Canvas.Stroke)
      (match e with
        | .renderDrawPixel x y pixel => some ⟨x, y.toNat, pixel⟩
        | _ => none) (Canvas.Stroke.paints x y)) = pixelAt x y := by
    funext e
    cases e <;> rfl
  rw [latest, strokesOf, List.filterMap_filterMap, hpaints, latest]

/-- The pixels drawn are pixels of the image. -/
def InImage (es : List Event) : Prop := ∀ c ∈ strokesOf es, c.x < 160 ∧ c.y < 144

/-- **Calls within the image** fail no assertion and paint their pixels. -/
theorem calls_of_inImage {es : List Event} (h : InImage es) (r : Render) :
    ∃ r', r.calls es = some r' ∧ r'.dmgBuf = Canvas.paint 160 r.dmgBuf (strokesOf es) := by
  induction es generalizing r with
  | nil => exact ⟨r, rfl, rfl⟩
  | cons e es ih =>
      cases e with
      | renderDrawPixel x y pixel =>
          obtain ⟨hx, hy⟩ := h ⟨x, y.toNat, pixel⟩ List.mem_cons_self
          have hx : x < 160 := hx
          have hy : y.toNat < 144 := hy
          have hdraw : r.drawPixel x y.toNat pixel = some
              { r with dmgBuf := Canvas.store r.dmgBuf (Canvas.offset 160 x y.toNat) pixel } :=
            if_pos ⟨by omega, by omega⟩
          obtain ⟨r', hr', hbuf⟩ := ih (fun c hc => h c (List.mem_cons_of_mem _ hc))
            { r with dmgBuf := Canvas.store r.dmgBuf (Canvas.offset 160 x y.toNat) pixel }
          refine ⟨r', ?_, hbuf⟩
          rw [Render.calls_cons, Render.call, hdraw]
          exact hr'
      | renderDrawFramebuffer =>
          obtain ⟨r', hr', hbuf⟩ := ih h r.drawFramebuffer
          exact ⟨r', hr', hbuf⟩
      | _ =>
          obtain ⟨r', hr', hbuf⟩ := ih h r
          exact ⟨r', hr', hbuf⟩

/-- Each pixel of the image after such calls. -/
theorem src_calls {es : List Event} (h : InImage es) {r r' : Render}
    (hbuf : r'.dmgBuf = Canvas.paint 160 r.dmgBuf (strokesOf es)) (x : Fin 160) (y : Fin 144) :
    r'.src x y = (latest (pixelAt x y) es).getD (r.src x y) := by
  rw [← latest_strokesOf, Render.src, hbuf]
  exact Canvas.pixel_paint _ (fun c hc => (h c hc).1) x.isLt

/-! ## A line of the image -/

theorem lineEvents_inImage {p : Ppu} (hly : p.regs.ly < 144) : InImage (lineEvents p) := by
  intro c hc
  obtain ⟨e, he, hce⟩ := List.mem_filterMap.mp hc
  rcases List.mem_cons.mp he with rfl | he
  · cases hce
  · obtain ⟨x, hx, rfl⟩ := List.mem_map.mp he
    cases hce
    exact ⟨List.mem_range.mp hx, hly⟩

/-- A line draws its pixels, and no others. -/
theorem latest_lineEvents (p : Ppu) (x : Fin 160) (y : Fin 144) :
    latest (pixelAt x y) (lineEvents p) =
      if p.regs.ly.toNat = y then some (linePixel p x) else none := by
  have hpaints (x' : Nat) : pixelAt x y (.renderDrawPixel x' p.regs.ly (linePixel p x')) =
      if x' = x ∧ p.regs.ly.toNat = y then some (linePixel p x') else none := rfl
  by_cases hy : p.regs.ly.toNat = y
  · rw [if_pos hy]
    refine History.latest_of_agree ⟨_, List.mem_cons_of_mem _ (List.mem_map.mpr
      ⟨x.1, List.mem_range.mpr x.isLt, rfl⟩), ?_⟩ fun e he w hw => ?_
    · rw [hpaints, if_pos ⟨rfl, hy⟩]
    · rcases List.mem_cons.mp he with rfl | he
      · cases hw
      · obtain ⟨x', -, rfl⟩ := List.mem_map.mp he
        rw [hpaints] at hw
        split at hw
        case isTrue hx =>
          cases hw
          rw [hx.1]
        case isFalse => cases hw
  · rw [if_neg hy]
    refine latest_append_none (l := []) fun e he => ?_
    rcases List.mem_cons.mp he with rfl | he
    · rfl
    · obtain ⟨x', -, rfl⟩ := List.mem_map.mp he
      rw [hpaints, if_neg fun h => hy h.2]

/-- Without a handover no image is added. -/
theorem composited_calls {es : List Event} (h : ∀ e ∈ es, e ≠ .renderDrawFramebuffer) {r r' : Render}
    (hr : r.calls es = some r') : r'.composited = r.composited := by
  induction es generalizing r with
  | nil =>
      cases hr
      rfl
  | cons e es ih =>
      rw [Render.calls_cons] at hr
      obtain ⟨r₁, hr₁, hr⟩ := Option.bind_eq_some_iff.mp hr
      refine (ih (fun e he => h e (List.mem_cons_of_mem _ he)) hr).trans ?_
      cases e with
      | renderDrawPixel x y pixel =>
          rw [Render.call, Render.drawPixel] at hr₁
          split at hr₁
          · cases hr₁
            rfl
          · cases hr₁
      | renderDrawFramebuffer => exact absurd rfl (h _ List.mem_cons_self)
      | _ =>
          cases hr₁
          rfl

/-- **A line that is drawn** replaces that line of the image. -/
theorem calls_lineEvents {p : Ppu} (hly : p.regs.ly < 144) (r : Render) :
    ∃ r', r.calls (lineEvents p) = some r' ∧ r'.composited = r.composited ∧
      ∀ x y, r'.src x y = if p.regs.ly.toNat = y then linePixel p x else r.src x y := by
  obtain ⟨r', hr', hbuf⟩ := calls_of_inImage (lineEvents_inImage hly) r
  refine ⟨r', hr', composited_calls (fun e he => ?_) hr', fun x y => ?_⟩
  · rcases List.mem_cons.mp he with rfl | he
    · simp
    · obtain ⟨x, -, rfl⟩ := List.mem_map.mp he
      simp
  · rw [src_calls (lineEvents_inImage hly) hbuf, latest_lineEvents]
    split <;> rfl

end RealBoy
