/-
# `RealBoy.Ppu.Beam` — where the beam gets

A PPU that is left to its clock comes to every line.  `untilLine v` is the number of
dots until LY becomes `v` at the end of an hblank; every refresh takes its own dots
off it, or is the one in which LY does (`tick_untilLine`).  So from any state the
beam gets to vblank (`leads_vblank`), from there through the lines of vblank
(`leads_vblankLine`), to the next frame (`leads_frame`), and to each line of it
(`leads_line`).
-/
import RealBoy.Lib.Logic
import RealBoy.Ppu.Schedule

namespace RealBoy

open Logic (Leads)

namespace Raster

/-- The refresh ends the hblank before line `v`. -/
def EntersLine (ticks v : U8) (q : Raster) : Prop :=
  q.mode = .hblank ∧ (q.spend ticks).Ends ∧ q.ly + 1 = v

/-- Line `v` is still to come. -/
def Before (v : U8) (q : Raster) : Prop := q.mode = .vblank ∨ q.ly < v

/-- The dots until then. -/
def untilLine (v : U8) (q : Raster) : Int :=
  match q.mode with
  | .oam => q.dots + 375 + 455 * (v.toNat - 1 - q.ly.toNat)
  | .draw => q.dots + 145 + 455 * (v.toNat - 1 - q.ly.toNat)
  | .hblank => q.dots + 455 * (v.toNat - 1 - q.ly.toNat)
  | .vblank => q.dots + 455 * v.toNat

/-- In vblank only LY and its counter are counted. -/
theorem countVblank_same (q : Raster) (ticks : U8) :
    (q.countVblank ticks).mode = q.mode ∧ (q.countVblank ticks).dots = q.dots ∧
      (q.mode ≠ .vblank → (q.countVblank ticks).ly = q.ly) := by
  unfold countVblank
  split
  case isTrue hm =>
    dsimp only
    split <;> exact ⟨rfl, rfl, fun h => absurd hm h⟩
  case isFalse => exact ⟨rfl, rfl, fun _ => rfl⟩

end Raster

section

variable {q : Raster} {ticks v : U8}

open Raster

/-- The bound on the way to any line. -/
theorem RasterInv.untilLine_le (h : RasterInv q) (hv : v ≤ 144) : q.untilLine v ≤ 70080 := by
  have hv : v.toNat ≤ 144 := hv
  have hle := h.dots_le
  have hvb := h.dots_vblank
  unfold untilLine
  cases hm : q.mode with
  | vblank =>
      have := hvb hm
      dsimp only
      omega
  | _ =>
      dsimp only
      omega

/-- **A refresh comes nearer**, or is there. -/
theorem RasterInv.tick_untilLine (h : RasterInv q) (hb : q.Before v) (h₁ : 1 ≤ ticks)
    (h₆ : ticks ≤ 6) (hv₁ : 1 ≤ v) (hv : v ≤ 144) (hno : ¬ q.EntersLine ticks v) :
    (q.tick ticks).Before v ∧
      (q.tick ticks).untilLine v = q.untilLine v - 4 * ticks.toNat ∧
      4 * (ticks.toNat : Int) < q.untilLine v := by
  have hd := h.spend_dots h₆
  have hgt := h.dots_gt
  have hle := h.dots_le
  have h₁ : 1 ≤ ticks.toNat := h₁
  have h₆ : ticks.toNat ≤ 6 := h₆
  have hv₁ : 1 ≤ v.toNat := hv₁
  have hv : v.toNat ≤ 144 := hv
  have hmode : (q.spend ticks).mode = q.mode := rfl
  have hly : (q.spend ticks).ly = q.ly := rfl
  have budget (k : Int) (h₀ : 0 ≤ k) (hk : k ≤ 4560) :
      int16 ((q.spend ticks).dots + k) = (q.spend ticks).dots + k :=
    int16_eq (by omega) (by omega)
  unfold Raster.tick
  by_cases he : (q.spend ticks).Ends
  · rw [if_pos he, Raster.next, hmode, hly]
    unfold untilLine
    cases hm : q.mode with
    | oam =>
        have hlt : q.ly.toNat < v.toNat := hb.resolve_left (by simp [hm])
        simp only [budget 230 (by decide) (by decide)]
        exact ⟨.inr hlt, by omega, by omega⟩
    | draw =>
        have hlt : q.ly.toNat < v.toNat := hb.resolve_left (by simp [hm])
        simp only [budget 145 (by decide) (by decide)]
        exact ⟨.inr hlt, by omega, by omega⟩
    | hblank =>
        have hlt : q.ly.toNat < v.toNat := hb.resolve_left (by simp [hm])
        have hne : q.ly + 1 ≠ v := fun h => hno ⟨hm, he, h⟩
        have hsucc : (q.ly + 1).toNat = q.ly.toNat + 1 := by bv_omega
        have hne : q.ly.toNat + 1 ≠ v.toNat := fun h =>
          hne (BitVec.eq_of_toNat_eq (hsucc.trans h))
        have hlow : ¬ q.ly + 1 ≥ 144 := by bv_omega
        dsimp only
        rw [if_neg hlow]
        simp only [budget 80 (by decide) (by decide)]
        refine ⟨.inr ?_, by omega, by omega⟩
        show (q.ly + 1).toNat < v.toNat
        omega
    | vblank =>
        simp only [budget 80 (by decide) (by decide)]
        refine ⟨.inr hv₁, ?_, by omega⟩
        show (q.spend ticks).dots + 80 + 375 + 455 * ((v.toNat : Int) - 1 - 0) = _
        omega
  · rw [if_neg he]
    obtain ⟨hpos, -⟩ := not_or.mp he
    obtain ⟨hm', hd', hly'⟩ := (q.spend ticks).countVblank_same ticks
    have hly' : q.mode ≠ .vblank → _ = q.ly := hly'
    unfold Raster.Before untilLine
    rw [hm', hd', hmode]
    cases hm : q.mode with
    | vblank => exact ⟨.inl rfl, by dsimp only; omega, by dsimp only; omega⟩
    | _ =>
        have hlt : q.ly.toNat < v.toNat := hb.resolve_left (by simp [hm])
        rw [hly' (by simp [hm])]
        exact ⟨.inr hlt, by dsimp only; omega, by dsimp only; omega⟩

/-! ## The way there -/

/-- The beam goes on by refreshes of so many ticks. -/
abbrev BeamLeads (ticks : U8) (Q : Raster → Prop) (q : Raster) : Prop :=
  Leads (Raster.tick ticks) (fun _ => True) Q q

/-- **To each line**, from before it. -/
theorem leads_line (h : RasterInv q) (hb : q.Before v) (h₁ : 1 ≤ ticks) (h₆ : ticks ≤ 6)
    (hv₁ : 1 ≤ v) (hv : v ≤ 144) :
    BeamLeads ticks (fun q => RasterInv q ∧ q.EntersLine ticks v) q := by
  have hticks : 1 ≤ ticks.toNat := h₁
  have hway : BeamLeads ticks (fun q => (RasterInv q ∧ q.Before v) ∧ q.EntersLine ticks v) q := by
    refine Leads.of_rank (fun q => (q.untilLine v).toNat) (fun q hq hno => ?_) ⟨h, hb⟩
    obtain ⟨hbefore, hdots, hlt⟩ := hq.1.tick_untilLine hq.2 h₁ h₆ hv₁ hv hno
    exact ⟨trivial, ⟨hq.1.tick h₁ h₆, hbefore⟩, by omega⟩
  exact hway.mono fun q hq => ⟨hq.1.1, hq.2⟩

/-- A vblank that began as it should, with the dots for all of its lines. -/
structure FreshVblank (q : Raster) : Prop where
  inv : RasterInv q
  mode : q.mode = .vblank
  ly_ge : 144 ≤ q.ly
  vblankDots_lt : q.vblankDots.toNat < 456
  slack : 4512 < q.dots + 456 * (q.ly.toNat - 144) + q.vblankDots.toNat

/-- **To vblank**, from anywhere. -/
theorem leads_vblank (h : RasterInv q) (h₁ : 1 ≤ ticks) (h₆ : ticks ≤ 6) :
    BeamLeads ticks (fun q => RasterInv q ∧ q.EntersLine ticks 144) q := by
  refine leads_line h ?_ h₁ h₆ (by decide) (by decide)
  by_cases hm : q.mode = .vblank
  · exact .inl hm
  · exact .inr (h.ly_lt hm)

/-- It is a fresh one. -/
theorem freshVblank_tick (h : RasterInv q) (he : q.EntersLine ticks 144) (h₁ : 1 ≤ ticks)
    (h₆ : ticks ≤ 6) : FreshVblank (q.tick ticks) := by
  obtain ⟨hm, hends, hly⟩ := he
  have hinv := h.tick h₁ h₆
  have hd := h.spend_dots h₆
  have hgt := h.dots_gt
  have hticks : ticks.toNat ≤ 6 := h₆
  have h0 := h.ends hends (by simp [hm])
  have hge : (q.spend ticks).ly + 1 ≥ 144 := by
    show q.ly + 1 ≥ 144
    rw [hly]
    decide
  have hnext : q.tick ticks = { q.spend ticks with
      mode := .vblank, ly := q.ly + 1, dots := int16 ((q.spend ticks).dots + 4560)
      vblankDots := 0, vblanks := q.vblanks + 1 } := by
    rw [Raster.tick, if_pos hends, Raster.next, show (q.spend ticks).mode = .hblank from hm]
    exact if_pos hge
  have hbudget : int16 ((q.spend ticks).dots + 4560) = (q.spend ticks).dots + 4560 :=
    int16_eq (by omega) (by omega)
  rw [hnext] at hinv ⊢
  refine ⟨hinv, rfl, ?_, (by decide : (0 : U32).toNat < 456), ?_⟩
  · show 144 ≤ q.ly + 1
    rw [hly]
    decide
  · show 4512 < int16 ((q.spend ticks).dots + 4560) + 456 * ((q.ly + 1).toNat - 144) + 0
    rw [hbudget, hly, hd]
    show 4512 < q.dots - 4 * ticks.toNat + 4560 + 456 * (144 - 144) + 0
    omega

/-- A refresh of vblank that counts line `v`. -/
def Raster.CountsLine (ticks v : U8) (q : Raster) : Prop :=
  q.mode = .vblank ∧ ¬ (q.spend ticks).Ends ∧ (q.tick ticks).ly = v ∧ q.ly ≠ v

/-- A refresh before the last line of vblank: within the line, or to the next. -/
theorem FreshVblank.tick (h : FreshVblank q) (hly : q.ly < 153) (h₁ : 1 ≤ ticks)
    (h₆ : ticks ≤ 6) :
    ¬ (q.spend ticks).Ends ∧ FreshVblank (q.tick ticks) ∧
      (((q.tick ticks).ly = q.ly ∧
          (q.tick ticks).vblankDots.toNat = q.vblankDots.toNat + 4 * ticks.toNat) ∨
        (q.tick ticks).ly = q.ly + 1) := by
  have hinv := h.inv.tick h₁ h₆
  have hd := h.inv.spend_dots h₆
  have hvd := h.vblankDots_lt
  have hslack := h.slack
  have hge : 144 ≤ q.ly.toNat := h.ly_ge
  have hticks : ticks.toNat ≤ 6 := h₆
  have hlt : q.ly.toNat < 153 := hly
  have hends : ¬ (q.spend ticks).Ends := by
    rintro (he | he)
    · omega
    · have he : q.ly = 0x99 := he
      rw [he] at hlt
      exact absurd hlt (by decide)
  have htick : q.tick ticks = (q.spend ticks).countVblank ticks := if_neg hends
  have hmode : (q.spend ticks).mode = .vblank := h.mode
  refine ⟨hends, ?_⟩
  rw [htick] at hinv ⊢
  unfold Raster.countVblank at hinv ⊢
  rw [if_pos hmode] at hinv ⊢
  dsimp only at hinv ⊢
  rw [show (q.spend ticks).vblankDots = q.vblankDots from rfl] at hinv ⊢
  by_cases hline : (q.vblankDots + ticks.setWidth 32 <<< 2) / 456 = 0
  · rw [if_neg (not_not.mpr hline)] at hinv ⊢
    have hsame := (vblankDots_div hvd h₆).mp hline
    have hsum := vblankDots_add hvd h₆
    exact
      ⟨{ inv := hinv
         mode := hmode
         ly_ge := h.ly_ge
         vblankDots_lt := by show (q.vblankDots + _).toNat < 456; omega
         slack := by
           show 4512 < (q.spend ticks).dots + _ + ((q.vblankDots + _).toNat : Int)
           rw [hsum]
           show 4512 < (q.spend ticks).dots + 456 * ((q.ly.toNat : Int) - 144) + _
           omega },
        .inl ⟨rfl, hsum⟩⟩
  · rw [if_pos hline] at hinv ⊢
    have hnext := mt (vblankDots_div hvd h₆).mpr hline
    have hrest := vblankDots_mod hvd h₆ (by omega)
    have hsucc : (q.ly + 1).toNat = q.ly.toNat + 1 := by bv_omega
    exact
      ⟨{ inv := hinv
         mode := hmode
         ly_ge := by show 144 ≤ (q.ly + 1).toNat; omega
         vblankDots_lt := by show ((q.vblankDots + _) % 456 : U32).toNat < 456; omega
         slack := by
           show 4512 < (q.spend ticks).dots + 456 * (((q.ly + 1).toNat : Int) - 144) +
             (((q.vblankDots + _) % 456 : U32).toNat : Int)
           rw [hrest, hsucc]
           omega },
        .inr rfl⟩

/-- **Through the lines of vblank.** -/
theorem leads_vblankLine (h : FreshVblank q) (hlt : q.ly < v) (h₁ : 1 ≤ ticks) (h₆ : ticks ≤ 6)
    (hv : v ≤ 153) : BeamLeads ticks (fun q => RasterInv q ∧ q.CountsLine ticks v) q := by
  have hv : v.toNat ≤ 153 := hv
  have hticks : 1 ≤ ticks.toNat := h₁
  have hway : BeamLeads ticks (fun q => (FreshVblank q ∧ q.ly < v) ∧ q.CountsLine ticks v) q := by
    refine Leads.of_rank (fun q => 456 * (v.toNat - q.ly.toNat) + 456 - q.vblankDots.toNat)
      (fun q hq hno => ?_) ⟨h, hlt⟩
    obtain ⟨hfresh, hlt⟩ := hq
    have hlt' : q.ly.toNat < v.toNat := hlt
    have hvd := hfresh.vblankDots_lt
    obtain ⟨hends, hnext, hstep⟩ := hfresh.tick (show q.ly.toNat < 153 by omega) h₁ h₆
    refine ⟨trivial, ⟨hnext, ?_⟩, ?_⟩
    · rcases hstep with ⟨hly, -⟩ | hly
      · rw [hly]
        exact hlt
      · -- to the next line, which is not `v` yet
        have hne : (q.tick ticks).ly ≠ v := fun he =>
          hno ⟨hfresh.mode, hends, he, fun he' => by rw [he'] at hlt'; omega⟩
        rw [hly] at hne ⊢
        bv_omega
    · have hvd' := hnext.vblankDots_lt
      rcases hstep with ⟨hly, hdots⟩ | hly
      · rw [hly, hdots]
        omega
      · have hsucc : (q.ly + 1).toNat = q.ly.toNat + 1 := by bv_omega
        rw [hly, hsucc]
        omega
  exact hway.mono fun q hq => ⟨hq.1.1.inv, hq.2⟩

/-- **To the next frame**, from vblank. -/
theorem leads_frame (h : RasterInv q) (hm : q.mode = .vblank) (h₁ : 1 ≤ ticks) (h₆ : ticks ≤ 6) :
    BeamLeads ticks (fun q => RasterInv q ∧ q.mode = .vblank ∧ (q.spend ticks).Ends) q := by
  have hticks : 1 ≤ ticks.toNat := h₁
  have hway : BeamLeads ticks (fun q => (RasterInv q ∧ q.mode = .vblank) ∧
      (q.spend ticks).Ends) q := by
    refine Leads.of_rank (fun q => q.dots.toNat) (fun q hq hno => ?_) ⟨h, hm⟩
    obtain ⟨hmode, hdots, -⟩ := (q.spend ticks).countVblank_same ticks
    have hd := hq.1.spend_dots h₆
    obtain ⟨hpos, -⟩ := not_or.mp hno
    have htick : q.tick ticks = (q.spend ticks).countVblank ticks := if_neg hno
    refine ⟨trivial, ⟨hq.1.tick h₁ h₆, ?_⟩, ?_⟩
    · rw [htick, hmode]
      exact hq.2
    · rw [htick, hdots, hd]
      omega
  exact hway.mono fun q hq => ⟨hq.1.1, hq.1.2, hq.2⟩

end

end RealBoy
