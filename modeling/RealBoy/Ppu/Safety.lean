/-
# `RealBoy.Ppu.Safety` — the bounds the renderer relies on

`render_draw_pixel` asserts that a pixel lies in the frame buffer; what keeps
it there is LY, and what keeps LY is the clock.  The refreshes preserve the
bounds (`RasterInv.tick`), and so does every bus write but one: a store to LY
of a value that is no line of the current mode.  So the bounds hold throughout
a run exactly when no such store is made (`renderable_iff`).
-/
import RealBoy.Ppu.Raster

namespace RealBoy

open Emu

/-! ## The bounds -/

/-- What the renderer relies on. -/
structure Renderable (r : Raster) : Prop where
  ly_le : r.ly ≤ 153
  ly_lt : r.mode ≠ .vblank → r.ly < 144
  dots_gt : -24 < r.dots
  dots_le : r.dots ≤ 4640

/-- Every pixel so far was drawn inside the frame buffer. -/
def InFrame (r : Raster) : Prop := ∀ c ∈ r.draws, c.1 < 160 ∧ c.2 < 144

/-- What the refreshes preserve.  The vblank phase starts with at most 4560
dots, so that the 80 of the next frame fit on top of what a vblank cut short
by LY leaves over. -/
structure RasterInv (r : Raster) : Prop extends Renderable r where
  dots_vblank : r.mode = .vblank → r.dots ≤ 4560
  inFrame : InFrame r

theorem int16_eq {x : Int} (h₁ : -32768 ≤ x) (h₂ : x < 32768) : int16 x = x :=
  Int.bmod_eq_of_le (by omega) (by omega)

/-- Spending the dots of a refresh does not wrap. -/
theorem Renderable.spend_dots {r : Raster} (h : Renderable r) {ticks : U8} (h₆ : ticks ≤ 6) :
    (r.spend ticks).dots = r.dots - 4 * ticks.toNat := by
  have := h.dots_gt
  have := h.dots_le
  have : ticks.toNat ≤ 6 := h₆
  exact int16_eq (by omega) (by omega)

/-- Outside vblank a phase ends by its dots alone. -/
theorem Renderable.ends {r : Raster} (h : Renderable r) {ticks : U8}
    (he : (r.spend ticks).Ends) (hm : r.mode ≠ .vblank) : (r.spend ticks).dots ≤ 0 := by
  rcases he with he | he
  · exact he
  · have hly := h.ly_lt hm
    have : r.ly = 0x99 := he
    bv_omega

/-- The end of a phase keeps the bounds. -/
theorem RasterInv.next {r : Raster} (h : RasterInv r) {ticks : U8} (h₁ : 1 ≤ ticks)
    (h₆ : ticks ≤ 6) (he : (r.spend ticks).Ends) : RasterInv (r.spend ticks).next := by
  have hd := h.spend_dots h₆
  have hgt := h.dots_gt
  have hle := h.dots_le
  have h₁ : 1 ≤ ticks.toNat := h₁
  have h₆ : ticks.toNat ≤ 6 := h₆
  have hmode : (r.spend ticks).mode = r.mode := rfl
  have hly : (r.spend ticks).ly = r.ly := rfl
  -- no phase's budget leaves the 16 bits
  have budget (k : Int) (h₀ : 0 ≤ k) (hk : k ≤ 4560) :
      int16 ((r.spend ticks).dots + k) = (r.spend ticks).dots + k :=
    int16_eq (by omega) (by omega)
  cases hm : r.mode with
  | oam =>
      have hlt := h.ly_lt (by simp [hm])
      have h0 := h.ends he (by simp [hm])
      simp only [Raster.next, hmode, hm, budget 230 (by decide) (by decide)]
      exact
        { ly_le := h.ly_le
          ly_lt := fun _ => hlt
          dots_gt := by show -24 < (r.spend ticks).dots + 230; omega
          dots_le := by show (r.spend ticks).dots + 230 ≤ 4640; omega
          dots_vblank := by simp
          inFrame := h.inFrame }
  | draw =>
      have hlt := h.ly_lt (by simp [hm])
      have h0 := h.ends he (by simp [hm])
      simp only [Raster.next, hmode, hm, budget 145 (by decide) (by decide)]
      refine
        { ly_le := h.ly_le
          ly_lt := fun _ => hlt
          dots_gt := by show -24 < (r.spend ticks).dots + 145; omega
          dots_le := by show (r.spend ticks).dots + 145 ≤ 4640; omega
          dots_vblank := by simp
          inFrame := ?_ }
      -- the line just drawn is LY
      intro c hc
      rcases List.mem_append.mp hc with hc | hc
      · exact h.inFrame c hc
      · obtain ⟨x, hx, rfl⟩ := List.mem_map.mp hc
        exact ⟨List.mem_range.mp hx, hlt⟩
  | hblank =>
      have hlt := h.ly_lt (by simp [hm])
      have h0 := h.ends he (by simp [hm])
      simp only [Raster.next, hmode, hm, hly, budget 4560 (by decide) (by decide),
        budget 80 (by decide) (by decide)]
      split
      case isTrue hge =>
        exact
          { ly_le := by show r.ly + 1 ≤ 153; bv_omega
            ly_lt := fun hv => absurd rfl hv
            dots_gt := by show -24 < (r.spend ticks).dots + 4560; omega
            dots_le := by show (r.spend ticks).dots + 4560 ≤ 4640; omega
            dots_vblank := fun _ => by show (r.spend ticks).dots + 4560 ≤ 4560; omega
            inFrame := h.inFrame }
      case isFalse hge =>
        exact
          { ly_le := by show r.ly + 1 ≤ 153; bv_omega
            ly_lt := fun _ => by show r.ly + 1 < 144; bv_omega
            dots_gt := by show -24 < (r.spend ticks).dots + 80; omega
            dots_le := by show (r.spend ticks).dots + 80 ≤ 4640; omega
            dots_vblank := by simp
            inFrame := h.inFrame }
  | vblank =>
      -- LY 0x99 may end the phase with most of its dots unspent
      have hv := h.dots_vblank hm
      simp only [Raster.next, hmode, hm, budget 80 (by decide) (by decide)]
      exact
        { ly_le := by show (0 : U8) ≤ 153; decide
          ly_lt := fun _ => by show (0 : U8) < 144; decide
          dots_gt := by show -24 < (r.spend ticks).dots + 80; omega
          dots_le := by show (r.spend ticks).dots + 80 ≤ 4640; omega
          dots_vblank := by simp
          inFrame := h.inFrame }

/-- Within a phase only vblank counts lines, and LY 0x99 has ended it before
the count leaves the frame. -/
theorem RasterInv.countVblank {r : Raster} (h : RasterInv r) {ticks : U8} (h₆ : ticks ≤ 6)
    (he : ¬ (r.spend ticks).Ends) : RasterInv ((r.spend ticks).countVblank ticks) := by
  have hd := h.spend_dots h₆
  have hle := h.dots_le
  obtain ⟨hpos, hne⟩ := not_or.mp he
  have hpos : 0 < (r.spend ticks).dots := by omega
  have hne : r.ly ≠ 0x99 := hne
  have hly := h.ly_le
  have base : RasterInv (r.spend ticks) :=
    { ly_le := h.ly_le
      ly_lt := h.ly_lt
      dots_gt := by omega
      dots_le := by omega
      dots_vblank := fun hv => by
        have := h.dots_vblank hv
        omega
      inFrame := h.inFrame }
  unfold Raster.countVblank
  split
  case isTrue hv =>
    dsimp only
    split
    case isTrue =>
      exact
        { base with
          ly_le := by show r.ly + 1 ≤ 153; bv_omega
          ly_lt := fun hn => absurd hv hn }
    case isFalse => exact { base with }
  case isFalse => exact base

/-- **A refresh keeps the bounds.** -/
theorem RasterInv.tick {r : Raster} (h : RasterInv r) {ticks : U8} (h₁ : 1 ≤ ticks)
    (h₆ : ticks ≤ 6) : RasterInv (r.tick ticks) := by
  unfold Raster.tick
  split
  case isTrue he => exact h.next h₁ h₆ he
  case isFalse he => exact h.countVblank h₆ he

/-! ## Runs -/

/-- The actions a run is made of: refreshes after 1 to 6 cycles, bus writes. -/
def Clocked (_ : Emu) : Action → Prop
  | .exec => False
  | .refresh ticks => 1 ≤ ticks ∧ ticks ≤ 6
  | .write _ _ => True

/-- A store to LY is of a line the mode has. -/
def LyStoreOk (s : Emu) : Action → Prop
  | .write addr value =>
    addr = 0xff44 → value < 144 ∨ (value ≤ 153 ∧ s.ppu.mode = .vblank)
  | _ => True

theorem RasterInv.act {s : Emu} (h : RasterInv s.raster) {a : Action} (ha : Clocked s a)
    (hok : LyStoreOk s a) : RasterInv (s.act a).raster := by
  cases a with
  | exec => exact ha.elim
  | refresh ticks =>
      obtain ⟨h₁, h₆⟩ := ha
      have hn : ticks ≠ 0 := by bv_omega
      show RasterInv (ppuRefresh ticks s).raster
      rw [ppuRefresh_raster hn]
      split
      · exact h.tick h₁ h₆
      · exact h
  | write addr value =>
      have hw := monitorWrMem_raster addr value s
      show RasterInv (monitorWrMem addr value s).raster
      generalize (monitorWrMem addr value s).raster = r at hw ⊢
      cases hw with
      | same => exact h
      | ly hly =>
          have hv : value < 144 ∨ (value ≤ 153 ∧ s.raster.mode = .vblank) := hok hly
          exact
            { h with
              ly_le := by show value ≤ 153; rcases hv with hv | hv <;> bv_omega
              ly_lt := fun hn => by
                rcases hv with hv | ⟨-, hv⟩
                · exact hv
                · exact absurd hv hn }
      | toggle =>
          exact
            { ly_le := by show (0 : U8) ≤ 153; decide
              ly_lt := fun _ => by show (0 : U8) < 144; decide
              dots_gt := by show (-24 : Int) < 80; decide
              dots_le := by show (80 : Int) ≤ 4640; decide
              dots_vblank := nofun
              inFrame := h.inFrame }

/-- A store to LY that is not of a line of the mode breaks the bounds at once. -/
theorem not_renderable_act {s : Emu} {a : Action} (hok : ¬ LyStoreOk s a) :
    ¬ Renderable (s.act a).raster := by
  cases a with
  | exec => exact absurd trivial hok
  | refresh => exact absurd trivial hok
  | write addr value =>
      rintro hr
      refine hok fun hly => ?_
      subst hly
      have hw := monitorWrMem_raster 0xff44 value s
      have hr : Renderable (monitorWrMem 0xff44 value s).raster := hr
      generalize (monitorWrMem 0xff44 value s).raster = r at hw hr
      cases hw with
      | same ha => exact absurd rfl ha
      | toggle ha => exact absurd ha (by decide)
      | ly =>
          by_cases hm : s.ppu.mode = .vblank
          · exact .inr ⟨hr.ly_le, hm⟩
          · exact .inl (hr.ly_lt hm)

theorem rasterInv_powerOn (rom boot : Array U8) : RasterInv (powerOn rom boot).raster where
  ly_le := by show (0 : U8) ≤ 153; decide
  ly_lt := fun _ => by show (0 : U8) < 144; decide
  dots_gt := by show (-24 : Int) < 0; decide
  dots_le := by show (0 : Int) ≤ 4640; decide
  dots_vblank := nofun
  inFrame := fun c hc => absurd hc List.not_mem_nil

/-- **Renderable, and when.**  In a run of refreshes and bus writes from
power-on, the bounds hold in every state, and every pixel was drawn inside the
frame buffer, if and only if every store to LY is of a line of the mode. -/
theorem renderable_iff (rom boot : Array U8) (acts : List Action)
    (h : Runs.Steps Emu.act Clocked (powerOn rom boot) acts) :
    (∀ s ∈ (powerOn rom boot).states acts, Renderable s.raster ∧ InFrame s.raster) ↔
      Runs.Steps Emu.act LyStoreOk (powerOn rom boot) acts := by
  refine Runs.forall_states_iff (I := fun s => RasterInv s.raster)
    (fun s hs => ⟨hs.toRenderable, hs.inFrame⟩) ?_ ?_ (rasterInv_powerOn rom boot) h
  · exact fun s a hs ha hok => hs.act ha hok
  · exact fun s a _ _ hok hr => not_renderable_act hok hr.1

/-- The LCD is switched on, and the clock runs before and after a store to LY. -/
def twoRefreshes : List Action :=
  [.write 0xff40 0x80, .refresh 6, .write 0xff44 7, .refresh 1]

theorem renderable_two_refreshes :
    Runs.Steps Emu.act LyStoreOk (powerOn #[] #[]) twoRefreshes ∧
      ∀ s ∈ (powerOn #[] #[]).states twoRefreshes, Renderable s.raster ∧ InFrame s.raster := by
  have hok : Runs.Steps Emu.act LyStoreOk (powerOn #[] #[]) twoRefreshes :=
    ⟨fun h => absurd h (by decide), trivial, fun _ => .inl (by decide), trivial, trivial⟩
  refine ⟨hok, (renderable_iff #[] #[] twoRefreshes ?_).mpr hok⟩
  exact ⟨trivial, ⟨by decide, by decide⟩, trivial, ⟨by decide, by decide⟩, trivial⟩

/-- A store of 200 to LY in the first line of a frame, and the refreshes that
bring the PPU to the end of that line. -/
def storeLy : List Action :=
  [.write 0xff40 0x80, .write 0xff44 200] ++ List.replicate 24 (.refresh 6)

/-- After the store the line is drawn at row 200 of the frame buffer. -/
theorem not_renderable_storeLy :
    ¬ ∀ acts, Runs.Steps Emu.act Clocked (powerOn #[] #[]) acts →
      ∀ s ∈ (powerOn #[] #[]).states acts, Renderable s.raster ∧ InFrame s.raster := by
  intro h
  have hc : Runs.Steps Emu.act Clocked (powerOn #[] #[]) storeLy := by
    simp [storeLy, Runs.Steps, Clocked, List.replicate]
  have hin := (h storeLy hc _ (Runs.run_mem_states _ _)).2
  have hdraw : (0, (200 : U8)) ∈ ((powerOn #[] #[]).run storeLy).raster.draws := by
    decide +kernel
  exact absurd (hin _ hdraw).2 (by decide)

end RealBoy
