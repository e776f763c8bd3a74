/-
# `RealBoy.Ppu.Schedule` — the frame, phase by phase

`frame` is the order in which a frame visits the pairs of mode and LY: three
phases for each of the 144 lines, then ten lines of vblank.  From the state
`ppu_reset` leaves, and as long as nobody writes the PPU's registers, the PPU
goes through frame after frame without skipping or repeating a pair, whatever
the lengths of the refreshes (`follows_schedule`).

The invariant is `OnSchedule`.  Outside vblank it is the sign of
`dots_remaining` that matters.  In vblank two counters run against each other:
`dots_remaining` down from 4560 plus the overshoot of hblank, and LY with
`vblank_dots` up; their sum stays what it was when the phase was entered, so
LY reaches 0x99 before the dots are spent.
-/
import RealBoy.Lib.Stutter
import RealBoy.Ppu.Safety

namespace RealBoy

open Emu

/-! ## The schedule -/

/-- The pairs of mode and LY of a frame, in order. -/
def frame : List (PpuMode × U8) :=
  ((List.range 144).flatMap fun l =>
    [(.oam, BitVec.ofNat 8 l), (.draw, BitVec.ofNat 8 l), (.hblank, BitVec.ofNat 8 l)]) ++
  (List.range 10).map fun i => (.vblank, BitVec.ofNat 8 (144 + i))

/-- The pair at a position of the frame: three to a line, then one to a line. -/
def framePhase (p : Nat) : PpuMode × U8 :=
  if p < 432 then
    (if p % 3 = 0 then .oam else if p % 3 = 1 then .draw else .hblank, BitVec.ofNat 8 (p / 3))
  else (.vblank, BitVec.ofNat 8 (p - 288))

theorem map_framePhase_range : (List.range 442).map framePhase = frame := by decide +kernel

/-- Frame after frame. -/
def schedule (n : Nat) : PpuMode × U8 := framePhase (n % 442)

/-- The pair that follows a pair. -/
def nextPhase : PpuMode × U8 → PpuMode × U8
  | (.oam, ly) => (.draw, ly)
  | (.draw, ly) => (.hblank, ly)
  | (.hblank, ly) => if ly + 1 ≥ 144 then (.vblank, ly + 1) else (.oam, ly + 1)
  | (.vblank, ly) => if ly = 0x99 then (.oam, 0) else (.vblank, ly + 1)

theorem schedule_add_frames (n k : Nat) : schedule (442 * k + n) = schedule n := by
  rw [schedule, Nat.mul_add_mod, schedule]

/-- What holds of every pair of a frame holds of the schedule. -/
theorem schedule_forall {P : PpuMode × U8 → Prop} (h : ∀ p < 442, P (framePhase p))
    (n : Nat) : P (schedule n) := h _ (Nat.mod_lt n (by decide))

theorem schedule_succ (n : Nat) : schedule (n + 1) = nextPhase (schedule n) := by
  have key : ∀ p < 442, framePhase ((p + 1) % 442) = nextPhase (framePhase p) := by
    decide +kernel
  have h := key _ (Nat.mod_lt n (by decide))
  rwa [Nat.mod_add_mod] at h

theorem schedule_ne_succ (n : Nat) : schedule n ≠ schedule (n + 1) := by
  rw [schedule_succ]
  refine schedule_forall (P := fun ph => ph ≠ nextPhase ph) ?_ n
  decide +kernel

/-- The lines the phases have. -/
theorem schedule_ly (n : Nat) :
    ((schedule n).1 = .vblank → 144 ≤ (schedule n).2 ∧ (schedule n).2 ≤ 153) ∧
      ((schedule n).1 ≠ .vblank → (schedule n).2 < 144) := by
  refine schedule_forall (P := fun ph => (ph.1 = .vblank → 144 ≤ ph.2 ∧ ph.2 ≤ 153) ∧
    (ph.1 ≠ .vblank → ph.2 < 144)) ?_ n
  decide +kernel

/-- The first frames of the schedule. -/
theorem map_schedule_range (k : Nat) :
    (List.range (442 * k)).map schedule = (List.replicate k frame).flatten := by
  have hframe : (List.range 442).map schedule = frame := by
    rw [← map_framePhase_range]
    refine List.map_congr_left fun p hp => ?_
    rw [schedule, Nat.mod_eq_of_lt (List.mem_range.mp hp)]
  induction k with
  | zero => rfl
  | succ k ih =>
      rw [Nat.mul_succ, List.range_add, List.map_append, List.map_map, ih, List.replicate_succ',
        List.flatten_append, List.flatten_singleton]
      congr 1
      rw [← hframe]
      exact List.map_congr_left fun i _ => schedule_add_frames i k

/-! ## What entering a phase does -/

/-- The line rendered on entering a phase. -/
def lineOf : PpuMode × U8 → Option U8
  | (.hblank, ly) => some ly
  | _ => none

/-- The phases entered on the way to position `n`. -/
def entered (n : Nat) : List (PpuMode × U8) := (List.range n).map fun i => schedule (i + 1)

theorem entered_succ (n : Nat) : entered (n + 1) = entered n ++ [schedule (n + 1)] := by
  rw [entered, List.range_succ, List.map_append]
  rfl

/-- A frame later, a frame's phases more have been entered. -/
theorem entered_add_frame (c : Nat) :
    entered (442 * (c + 1)) = entered (442 * c) ++ (frame.drop 1 ++ frame.take 1) := by
  have hframe : (List.range 442).map (fun i => schedule (i + 1)) = frame.drop 1 ++ frame.take 1 := by
    decide +kernel
  rw [entered, Nat.mul_succ, List.range_add, List.map_append, List.map_map, ← hframe]
  congr 1
  exact List.map_congr_left fun i _ => schedule_add_frames (i + 1) c

/-- What has come of the phases entered since `r₀`. -/
structure Tally (r₀ : Raster) (phases : List (PpuMode × U8)) (r : Raster) : Prop where
  lines : r.lines = r₀.lines ++ phases.filterMap lineOf
  vblanks : r.vblanks = r₀.vblanks + phases.count (.vblank, 144)
  frameCount : r.frameCount = r₀.frameCount + BitVec.ofNat 64 (phases.count (.oam, 0))

theorem Tally.refl (r : Raster) : Tally r [] r := ⟨by simp, rfl, by simp⟩

theorem Tally.same {r₀ r : Raster} (hl : r.lines = r₀.lines) (hv : r.vblanks = r₀.vblanks)
    (hf : r.frameCount = r₀.frameCount) : Tally r₀ [] r :=
  ⟨by simp [hl], hv, by simp [hf]⟩

theorem Tally.trans {r₀ r₁ r₂ : Raster} {ps qs : List (PpuMode × U8)} (h : Tally r₀ ps r₁)
    (h' : Tally r₁ qs r₂) : Tally r₀ (ps ++ qs) r₂ where
  lines := by rw [h'.lines, h.lines, List.filterMap_append, List.append_assoc]
  vblanks := by rw [h'.vblanks, h.vblanks, List.count_append, Nat.add_assoc]
  frameCount := by
    rw [h'.frameCount, h.frameCount, List.count_append, BitVec.ofNat_add, BitVec.add_assoc]

/-- Two tallies from one start differ by the phases in between. -/
theorem Tally.between {r₀ r₁ r₂ : Raster} {ps qs : List (PpuMode × U8)} (h : Tally r₀ ps r₁)
    (h' : Tally r₀ (ps ++ qs) r₂) : Tally r₁ qs r₂ where
  lines := by rw [h'.lines, h.lines, List.filterMap_append, List.append_assoc]
  vblanks := by rw [h'.vblanks, h.vblanks, List.count_append, Nat.add_assoc]
  frameCount := by
    rw [h'.frameCount, h.frameCount, List.count_append, BitVec.ofNat_add, BitVec.add_assoc]

/-! ## The invariant -/

/-- The dots a phase is given. -/
def phaseDots : PpuMode → Int
  | .oam => 80
  | .draw => 230
  | .hblank => 145
  | .vblank => 4560

/-- The raster is at position `n` of the schedule. -/
structure OnSchedule (n : Nat) (r : Raster) : Prop where
  on : r.on
  phase : (r.mode, r.ly) = schedule n
  dots_pos : 0 < r.dots
  dots_le : r.dots ≤ 4560
  /-- What is left of vblank and what is counted of it, against the whole. -/
  vblank : r.mode = .vblank → r.vblankDots.toNat < 456 ∧
    4536 < r.dots + 456 * ((r.ly.toNat : Int) - 144) + r.vblankDots.toNat ∧
    r.dots + 456 * ((r.ly.toNat : Int) - 144) + r.vblankDots.toNat ≤ 4560

section

variable {n : Nat} {r : Raster}

theorem OnSchedule.mode_eq (h : OnSchedule n r) : (schedule n).1 = r.mode := by rw [← h.phase]

theorem OnSchedule.ly_eq (h : OnSchedule n r) : (schedule n).2 = r.ly := by rw [← h.phase]

/-- Where the schedule goes from here. -/
theorem OnSchedule.succ (h : OnSchedule n r) : schedule (n + 1) = nextPhase (r.mode, r.ly) := by
  rw [schedule_succ, h.phase]

theorem OnSchedule.ly_lt (h : OnSchedule n r) (hm : r.mode ≠ .vblank) : r.ly < 144 := by
  rw [← h.ly_eq]
  exact (schedule_ly n).2 (by rwa [h.mode_eq])

theorem OnSchedule.ly_vblank (h : OnSchedule n r) (hm : r.mode = .vblank) :
    144 ≤ r.ly ∧ r.ly ≤ 153 := by
  rw [← h.ly_eq]
  exact (schedule_ly n).1 (by rwa [h.mode_eq])

theorem OnSchedule.renderable (h : OnSchedule n r) : Renderable r where
  ly_le := by
    by_cases hm : r.mode = .vblank
    · exact (h.ly_vblank hm).2
    · have := h.ly_lt hm
      bv_omega
  ly_lt := h.ly_lt
  dots_gt := by have := h.dots_pos; omega
  dots_le := by have := h.dots_le; omega

/-- Vblank ends by LY, its dots still being positive. -/
theorem OnSchedule.ends_vblank (h : OnSchedule n r) {ticks : U8} (h₆ : ticks ≤ 6)
    (he : (r.spend ticks).Ends) (hm : r.mode = .vblank) : r.ly = 0x99 := by
  rcases he with he | he
  · by_contra hne
    rw [h.renderable.spend_dots h₆] at he
    obtain ⟨hlt, hgt, -⟩ := h.vblank hm
    have hly : r.ly.toNat ≤ 152 := by
      have := (h.ly_vblank hm).2
      bv_omega
    have h₆ : ticks.toNat ≤ 6 := h₆
    omega
  · exact he

/-- Another line of the same mode is not the one that is counted. -/
theorem count_line (m : PpuMode) {line line' : U8} (h : line' ≠ line) :
    List.count (m, line) [(m, line')] = 0 := by
  refine List.count_eq_zero.mpr fun hmem => h ?_
  exact (congrArg Prod.snd (List.mem_singleton.mp hmem)).symm

/-- The end of a phase is the next position. -/
theorem OnSchedule.next (h : OnSchedule n r) {ticks : U8} (h₆ : ticks ≤ 6)
    (he : (r.spend ticks).Ends) :
    OnSchedule (n + 1) (r.spend ticks).next ∧ Tally r [schedule (n + 1)] (r.spend ticks).next ∧
      (r.spend ticks).next.mode ≠ r.mode ∧
      (r.spend ticks).next.dots =
        r.dots - 4 * ticks.toNat + phaseDots (r.spend ticks).next.mode := by
  have hd := h.renderable.spend_dots h₆
  have hpos := h.dots_pos
  have hle := h.dots_le
  have hticks : ticks.toNat ≤ 6 := h₆
  have hsucc := h.succ
  have hmode : (r.spend ticks).mode = r.mode := rfl
  have hly : (r.spend ticks).ly = r.ly := rfl
  have budget (k : Int) (h₀ : 0 ≤ k) (hk : k ≤ 4560) :
      int16 ((r.spend ticks).dots + k) = r.dots - 4 * ticks.toNat + k := by
    rw [hd]
    exact int16_eq (by omega) (by omega)
  cases hm : r.mode with
  | oam =>
      have h0 := h.renderable.ends he (by simp [hm])
      rw [hd] at h0
      rw [hm] at hsucc
      simp only [Raster.next, hmode, hm, budget 230 (by decide) (by decide)]
      refine ⟨⟨h.on, hsucc.symm, ?_, ?_, by simp⟩, ?_, by simp, rfl⟩
      · show 0 < r.dots - 4 * ticks.toNat + 230; omega
      · show r.dots - 4 * ticks.toNat + 230 ≤ 4560; omega
      · rw [hsucc]
        exact ⟨(List.append_nil _).symm, rfl, (BitVec.add_zero _).symm⟩
  | draw =>
      have h0 := h.renderable.ends he (by simp [hm])
      rw [hd] at h0
      rw [hm] at hsucc
      simp only [Raster.next, hmode, hm, budget 145 (by decide) (by decide)]
      refine ⟨⟨h.on, hsucc.symm, ?_, ?_, by simp⟩, ?_, by simp, rfl⟩
      · show 0 < r.dots - 4 * ticks.toNat + 145; omega
      · show r.dots - 4 * ticks.toNat + 145 ≤ 4560; omega
      · rw [hsucc]
        exact ⟨rfl, rfl, (BitVec.add_zero _).symm⟩
  | hblank =>
      have h0 := h.renderable.ends he (by simp [hm])
      have hlt := h.ly_lt (by simp [hm])
      rw [hd] at h0
      rw [hm] at hsucc
      simp only [Raster.next, hmode, hm, hly, budget 4560 (by decide) (by decide),
        budget 80 (by decide) (by decide)]
      simp only [nextPhase] at hsucc
      split
      case isTrue hge =>
        -- the only line that has none after it
        have hly143 : r.ly = 143 := by bv_omega
        rw [if_pos hge] at hsucc
        refine ⟨⟨h.on, hsucc.symm, ?_, ?_, fun _ => ⟨?_, ?_, ?_⟩⟩, ?_, by simp, rfl⟩
        · show 0 < r.dots - 4 * ticks.toNat + 4560; omega
        · show r.dots - 4 * ticks.toNat + 4560 ≤ 4560; omega
        · show (0 : U32).toNat < 456; decide
        · simp only [hly143]
          show 4536 < r.dots - 4 * ticks.toNat + 4560 + 456 * (((144 : Nat) : Int) - 144) + (0 : Nat)
          omega
        · simp only [hly143]
          show r.dots - 4 * ticks.toNat + 4560 + 456 * (((144 : Nat) : Int) - 144) + (0 : Nat) ≤ 4560
          omega
        · rw [hsucc, hly143]
          exact ⟨(List.append_nil _).symm, rfl, (BitVec.add_zero _).symm⟩
      case isFalse hge =>
        rw [if_neg hge] at hsucc
        have hcount := count_line .oam (show r.ly + 1 ≠ 0 by bv_omega)
        refine ⟨⟨h.on, hsucc.symm, ?_, ?_, by simp⟩, ?_, by simp, rfl⟩
        · show 0 < r.dots - 4 * ticks.toNat + 80; omega
        · show r.dots - 4 * ticks.toNat + 80 ≤ 4560; omega
        · rw [hsucc]
          refine ⟨(List.append_nil _).symm, rfl, ?_⟩
          rw [hcount]
          exact (BitVec.add_zero _).symm
  | vblank =>
      have hly99 := h.ends_vblank h₆ he hm
      obtain ⟨-, hgt, hsum⟩ := h.vblank hm
      rw [hm, hly99] at hsucc
      rw [hly99] at hgt hsum
      change 4536 < r.dots + 456 * (((153 : Nat) : Int) - 144) + _ at hgt
      change r.dots + 456 * (((153 : Nat) : Int) - 144) + _ ≤ 4560 at hsum
      simp only [Raster.next, hmode, hm, budget 80 (by decide) (by decide)]
      refine ⟨⟨h.on, hsucc.symm, ?_, ?_, by simp⟩, ?_, by simp, rfl⟩
      · show 0 < r.dots - 4 * ticks.toNat + 80; omega
      · show r.dots - 4 * ticks.toNat + 80 ≤ 4560; omega
      · rw [hsucc]
        exact ⟨(List.append_nil _).symm, rfl, rfl⟩

/-- `cycles << 2`, in the 32 bits of `vblank_dots`. -/
theorem vblankDots_add {d : U32} {ticks : U8} (hd : d.toNat < 456) (h₆ : ticks ≤ 6) :
    (d + ticks.setWidth 32 <<< 2).toNat = d.toNat + 4 * ticks.toNat := by
  have h₆ : ticks.toNat ≤ 6 := h₆
  have hshift : (ticks.setWidth 32 <<< 2 : U32).toNat = 4 * ticks.toNat := by
    rw [BitVec.toNat_shiftLeft, BitVec.toNat_setWidth, Nat.shiftLeft_eq,
      Nat.mod_eq_of_lt (a := ticks.toNat) (by omega), Nat.mod_eq_of_lt (by omega)]
    omega
  rw [BitVec.toNat_add, hshift, Nat.mod_eq_of_lt (by omega)]

/-- Whether the refresh stays in the line. -/
theorem vblankDots_div {d : U32} {ticks : U8} (hd : d.toNat < 456) (h₆ : ticks ≤ 6) :
    (d + ticks.setWidth 32 <<< 2) / 456 = 0 ↔ d.toNat + 4 * ticks.toNat < 456 := by
  rw [← vblankDots_add hd h₆]
  constructor
  · intro hq
    have := congrArg BitVec.toNat hq
    rw [BitVec.toNat_udiv] at this
    exact (Nat.div_eq_zero_iff.mp this).resolve_left (by decide)
  · intro hlt
    refine BitVec.eq_of_toNat_eq ?_
    rw [BitVec.toNat_udiv]
    exact Nat.div_eq_of_lt hlt

/-- Where it does not, the rest of it is in the next one. -/
theorem vblankDots_mod {d : U32} {ticks : U8} (hd : d.toNat < 456) (h₆ : ticks ≤ 6)
    (hline : 456 ≤ d.toNat + 4 * ticks.toNat) :
    ((d + ticks.setWidth 32 <<< 2) % 456 : U32).toNat = d.toNat + 4 * ticks.toNat - 456 := by
  have hticks : ticks.toNat ≤ 6 := h₆
  rw [BitVec.toNat_umod, vblankDots_add hd h₆]
  show _ % 456 = _
  omega

/-- Within a phase the position moves with the lines of vblank. -/
theorem OnSchedule.countVblank (h : OnSchedule n r) {ticks : U8} (h₆ : ticks ≤ 6)
    (he : ¬ (r.spend ticks).Ends) :
    let r' := (r.spend ticks).countVblank ticks
    ((OnSchedule n r' ∧ Tally r [] r') ∨ (OnSchedule (n + 1) r' ∧ Tally r [schedule (n + 1)] r')) ∧
      r'.mode = r.mode ∧ r'.dots = r.dots - 4 * ticks.toNat := by
  have hd := h.renderable.spend_dots h₆
  have hle := h.dots_le
  have hticks : ticks.toNat ≤ 6 := h₆
  obtain ⟨hpos, hne⟩ := not_or.mp he
  have hne : r.ly ≠ 0x99 := hne
  rw [hd] at hpos
  unfold Raster.countVblank
  split
  case isFalse hm =>
    have hm : r.mode ≠ .vblank := hm
    refine ⟨.inl ⟨⟨h.on, h.phase, ?_, ?_, fun hv => absurd hv hm⟩, Tally.same rfl rfl rfl⟩, rfl, hd⟩
    · rw [hd]; omega
    · rw [hd]; omega
  case isTrue hm =>
    have hm : r.mode = .vblank := hm
    obtain ⟨hlt, hgt, hsum⟩ := h.vblank hm
    obtain ⟨hly144, hly153⟩ := h.ly_vblank hm
    have hv := vblankDots_add hlt h₆
    dsimp only
    split
    case isFalse hq =>
      have hv456 := (vblankDots_div hlt h₆).mp (not_not.mp hq)
      refine ⟨.inl ⟨⟨h.on, h.phase, ?_, ?_, fun _ => ⟨?_, ?_, ?_⟩⟩, Tally.same rfl rfl rfl⟩, rfl, hd⟩
      · rw [hd]; omega
      · rw [hd]; omega
      · exact hv.trans_lt hv456
      · rw [hd]
        show 4536 < r.dots - 4 * ticks.toNat + 456 * ((r.ly.toNat : Int) - 144) +
          ((r.vblankDots + ticks.setWidth 32 <<< 2).toNat : Int)
        omega
      · rw [hd]
        show r.dots - 4 * ticks.toNat + 456 * ((r.ly.toNat : Int) - 144) +
          ((r.vblankDots + ticks.setWidth 32 <<< 2).toNat : Int) ≤ 4560
        omega
    case isTrue hq =>
      have hv456 : 456 ≤ r.vblankDots.toNat + 4 * ticks.toNat :=
        Nat.le_of_not_lt fun hline => hq ((vblankDots_div hlt h₆).mpr hline)
      have hmod := vblankDots_mod hlt h₆ hv456
      have hly : (r.ly + 1).toNat = r.ly.toNat + 1 := by bv_omega
      have hsucc : schedule (n + 1) = (.vblank, r.ly + 1) := by
        rw [h.succ, hm]
        exact if_neg hne
      have hcount := count_line .vblank (show r.ly + 1 ≠ 144 by bv_omega)
      refine ⟨.inr ⟨⟨h.on, ?_, ?_, ?_, fun _ => ⟨?_, ?_, ?_⟩⟩, ?_⟩, rfl, hd⟩
      · rw [hsucc]
        exact congrArg (·, r.ly + 1) hm
      · rw [hd]; omega
      · rw [hd]; omega
      · exact hmod.trans_lt (by omega)
      · rw [hd]
        show 4536 < r.dots - 4 * ticks.toNat + 456 * (((r.ly + 1).toNat : Int) - 144) +
          (((r.vblankDots + ticks.setWidth 32 <<< 2) % 456 : U32).toNat : Int)
        omega
      · rw [hd]
        show r.dots - 4 * ticks.toNat + 456 * (((r.ly + 1).toNat : Int) - 144) +
          (((r.vblankDots + ticks.setWidth 32 <<< 2) % 456 : U32).toNat : Int) ≤ 4560
        omega
      · rw [hsucc]
        refine ⟨(List.append_nil _).symm, ?_, (BitVec.add_zero _).symm⟩
        rw [hcount]
        rfl

/-- The dots after a step, no reduction to 16 bits in between. -/
def DotsExact (ticks : U8) (r r' : Raster) : Prop :=
  r'.dots = r.dots - 4 * ticks.toNat + if r'.mode = r.mode then 0 else phaseDots r'.mode

/-- **One refresh** leaves the position or moves it by one. -/
theorem OnSchedule.tick (h : OnSchedule n r) {ticks : U8} (h₆ : ticks ≤ 6) :
    ((OnSchedule n (r.tick ticks) ∧ Tally r [] (r.tick ticks)) ∨
      (OnSchedule (n + 1) (r.tick ticks) ∧ Tally r [schedule (n + 1)] (r.tick ticks))) ∧
      DotsExact ticks r (r.tick ticks) := by
  unfold Raster.tick DotsExact
  split
  case isTrue he =>
    obtain ⟨hn, ht, hmode, hdots⟩ := h.next h₆ he
    exact ⟨.inr ⟨hn, ht⟩, by rw [if_neg hmode, hdots]⟩
  case isFalse he =>
    obtain ⟨hn, hmode, hdots⟩ := h.countVblank h₆ he
    exact ⟨hn, by rw [if_pos hmode, hdots, Int.add_zero]⟩

end

/-! ## Runs -/

/-- The pair of mode and LY. -/
def phaseOf (s : Emu) : PpuMode × U8 := (s.ppu.mode, s.ppu.regs.ly)

/-- Refreshes after 1 to 6 cycles, and bus writes outside the PPU's registers. -/
def Undisturbed (_ : Emu) : Action → Prop
  | .exec => False
  | .refresh ticks => 1 ≤ ticks ∧ ticks ≤ 6
  | .write addr _ => addr < 0xff40 ∨ addr > 0xff4b

/-- The position and the tally of a run that started at `r₀`. -/
structure OnTrack (r₀ : Raster) (n : Nat) (s : Emu) : Prop where
  position : OnSchedule n s.raster
  tally : Tally r₀ (entered n) s.raster

theorem monitorWrMem_raster_of_ne {addr : U16} (h : addr < 0xff40 ∨ addr > 0xff4b) (value : U8)
    (s : Emu) : (monitorWrMem addr value s).raster = s.raster := by
  have hw := monitorWrMem_raster addr value s
  generalize (monitorWrMem addr value s).raster = r at hw ⊢
  cases hw with
  | same => rfl
  | ly ha => exact absurd ha (by bv_omega)
  | toggle ha => exact absurd ha (by bv_omega)

theorem refresh_raster {s : Emu} (hon : s.raster.on) {ticks : U8} (h₁ : 1 ≤ ticks) :
    (s.act (.refresh ticks)).raster = s.raster.tick ticks := by
  have hn : ticks ≠ 0 := by bv_omega
  show (ppuRefresh ticks s).raster = _
  rw [ppuRefresh_raster hn, if_pos hon]

theorem run_refreshes {s : Emu} (hon : s.raster.on = true) {ticks : U8} (h₁ : 1 ≤ ticks) (n : Nat) :
    (s.run (List.replicate n (.refresh ticks))).raster = (Raster.tick ticks)^[n] s.raster := by
  induction n generalizing s with
  | zero => rfl
  | succ n ih =>
      have hr := refresh_raster hon h₁
      have hon' : (s.act (.refresh ticks)).raster.on = true := by
        rw [hr, Raster.tick_on]
        exact hon
      rw [Function.iterate_succ_apply, ← hr, ← ih hon']
      rfl

theorem OnTrack.act {r₀ : Raster} {n : Nat} {s : Emu} (h : OnTrack r₀ n s) {a : Action}
    (ha : Undisturbed s a) : OnTrack r₀ n (s.act a) ∨ OnTrack r₀ (n + 1) (s.act a) := by
  cases a with
  | exec => exact ha.elim
  | write addr value =>
      have he : (s.act (.write addr value)).raster = s.raster :=
        monitorWrMem_raster_of_ne ha value s
      exact .inl ⟨he ▸ h.position, he ▸ h.tally⟩
  | refresh ticks =>
      obtain ⟨h₁, h₆⟩ := ha
      have he := refresh_raster h.position.on h₁
      rcases (h.position.tick h₆).1 with ⟨hp, ht⟩ | ⟨hp, ht⟩
      · refine .inl ⟨he ▸ hp, ?_⟩
        have := h.tally.trans (he ▸ ht)
        rwa [List.append_nil] at this
      · refine .inr ⟨he ▸ hp, ?_⟩
        rw [entered_succ]
        exact h.tally.trans (he ▸ ht)

/-- What `ppu_reset` leaves of a PPU that is on. -/
structure AfterReset (s : Emu) : Prop where
  on : bit s.ppu.regs.lcdc 0x80
  mode : s.ppu.mode = .oam
  ly : s.ppu.regs.ly = 0
  dots : s.ppu.dotsRemaining = 80

theorem AfterReset.onTrack {s : Emu} (h : AfterReset s) : OnTrack s.raster 0 s where
  position :=
    { on := h.on
      phase := congrArg₂ Prod.mk h.mode h.ly
      dots_pos := by show 0 < s.ppu.dotsRemaining; rw [h.dots]; decide
      dots_le := by show s.ppu.dotsRemaining ≤ 4560; rw [h.dots]; decide
      vblank := fun hv => by
        have : s.ppu.mode = .vblank := hv
        rw [h.mode] at this
        cases this }
  tally := .refl _

/-- What is visible of a run, and where it has come to. -/
theorem onTrack_run {s : Emu} (h : AfterReset s) {acts : List Action}
    (ha : Runs.Steps Emu.act Undisturbed s acts) :
    ∃ n, OnTrack s.raster n (s.run acts) ∧
      Runs.visited Emu.act phaseOf s acts = (List.range (n + 1)).map schedule := by
  have hphase (n : Nat) (s' : Emu) (h : OnTrack s.raster n s') : phaseOf s' = schedule n :=
    h.position.phase
  obtain ⟨n, hn, hv⟩ := Runs.visited_eq schedule_ne_succ hphase (fun n s a h ha => h.act ha)
    h.onTrack ha
  rw [Nat.zero_add] at hn
  rw [← List.range_eq_range'] at hv
  exact ⟨n, hn, hv⟩

/-- Between two moments in the first phase of consecutive frames: every line is
rendered once, in order; one VBLANK interrupt; one frame counted. -/
structure FrameDone (s s' : Emu) : Prop where
  lines : s'.raster.lines = s.raster.lines ++ (List.range 144).map (BitVec.ofNat 8)
  vblanks : s'.raster.vblanks = s.raster.vblanks + 1
  frameCount : s'.ppu.frameCount = s.ppu.frameCount + 1

theorem Tally.frameDone {s s' : Emu}
    (h : Tally s.raster (frame.drop 1 ++ frame.take 1) s'.raster) : FrameDone s s' where
  lines := by
    have : (frame.drop 1 ++ frame.take 1).filterMap lineOf =
        (List.range 144).map (BitVec.ofNat 8) := by decide +kernel
    rw [h.lines, this]
  vblanks := by
    have : (frame.drop 1 ++ frame.take 1).count (.vblank, 144) = 1 := by decide +kernel
    rw [h.vblanks, this]
  frameCount := by
    have hc : (frame.drop 1 ++ frame.take 1).count (.oam, 0) = 1 := by decide +kernel
    have := h.frameCount
    rw [hc] at this
    exact this

/-- What holds of every step: VBLANK is requested on entering LY 144 and at no
other time; `dots_remaining` is computed without leaving its 16 bits. -/
structure StepExact (s : Emu) (a : Action) : Prop where
  vblank : (s.act a).raster.vblanks = s.raster.vblanks +
    if phaseOf s ≠ (.vblank, 144) ∧ phaseOf (s.act a) = (.vblank, 144) then 1 else 0
  dots : ∀ ticks, a = .refresh ticks → DotsExact ticks s.raster (s.act a).raster ∧
    -32768 ≤ s.ppu.dotsRemaining - 4 * ticks.toNat
  dots_range : -32768 ≤ (s.act a).ppu.dotsRemaining ∧ (s.act a).ppu.dotsRemaining < 32768

theorem OnSchedule.dots_range {n : Nat} {s : Emu} (h : OnSchedule n s.raster) :
    -32768 ≤ s.ppu.dotsRemaining ∧ s.ppu.dotsRemaining < 32768 := by
  have h₀ : 0 < s.ppu.dotsRemaining := h.dots_pos
  have h₁ : s.ppu.dotsRemaining ≤ 4560 := h.dots_le
  omega

theorem OnTrack.stepExact {r₀ : Raster} {n : Nat} {s : Emu} (h : OnTrack r₀ n s) {a : Action}
    (ha : Undisturbed s a) : StepExact s a := by
  have range : -32768 ≤ (s.act a).ppu.dotsRemaining ∧ (s.act a).ppu.dotsRemaining < 32768 := by
    rcases h.act ha with h' | h'
    · exact h'.position.dots_range
    · exact h'.position.dots_range
  have hphase : phaseOf s = schedule n := h.position.phase
  cases a with
  | exec => exact ha.elim
  | write addr value =>
      have he : (s.act (.write addr value)).raster = s.raster :=
        monitorWrMem_raster_of_ne ha value s
      have hp : phaseOf (s.act (.write addr value)) = phaseOf s :=
        congrArg (fun r : Raster => (r.mode, r.ly)) he
      refine ⟨?_, nofun, range⟩
      rw [he, hp, if_neg fun hc => hc.1 hc.2]
      rfl
  | refresh ticks =>
      obtain ⟨h₁, h₆⟩ := ha
      have he := refresh_raster h.position.on h₁
      obtain ⟨hmove, hdots⟩ := h.position.tick h₆
      have hlow : -32768 ≤ s.ppu.dotsRemaining - 4 * ticks.toNat := by
        have : 0 < s.ppu.dotsRemaining := h.position.dots_pos
        have : ticks.toNat ≤ 6 := h₆
        omega
      refine ⟨?_, fun t ht => ?_, range⟩
      · rw [← he] at hmove
        rcases hmove with ⟨hp, ht⟩ | ⟨hp, ht⟩
        · have hp : phaseOf (s.act (.refresh ticks)) = phaseOf s := hp.phase.trans hphase.symm
          rw [hp, if_neg fun hc => hc.1 hc.2]
          exact ht.vblanks
        · have hp : phaseOf (s.act (.refresh ticks)) = schedule (n + 1) := hp.phase
          have hne : phaseOf s ≠ schedule (n + 1) := by
            rw [hphase]
            exact schedule_ne_succ n
          rw [ht.vblanks, hp, List.count_singleton]
          by_cases hv : schedule (n + 1) = (.vblank, 144)
          · rw [hv] at hne
            rw [hv, if_pos (beq_self_eq_true _), if_pos ⟨hne, rfl⟩]
          · rw [if_neg fun hb => hv (eq_of_beq hb), if_neg fun hc => hv hc.2]
      · cases ht
        rw [he]
        exact ⟨hdots, hlow⟩

/-- **The schedule.**  From the state `ppu_reset` leaves, whatever the lengths
of the refreshes: the pairs visited are those of frame after frame; a frame
renders its lines, requests VBLANK and counts itself once; every step is
exact. -/
theorem follows_schedule (s : Emu) (h : AfterReset s) (acts : List Action)
    (ha : Runs.Steps Emu.act Undisturbed s acts) :
    (∃ k, Runs.visited Emu.act phaseOf s acts <+: (List.replicate k frame).flatten) ∧
    (∀ xs ys c, xs ++ ys <+: acts →
      (Runs.visited Emu.act phaseOf s xs).length = 442 * c + 1 →
      (Runs.visited Emu.act phaseOf s (xs ++ ys)).length = 442 * (c + 1) + 1 →
      FrameDone (s.run xs) (s.run (xs ++ ys))) ∧
    Runs.Steps Emu.act StepExact s acts := by
  refine ⟨?_, ?_, ?_⟩
  · obtain ⟨n, -, hv⟩ := onTrack_run h ha
    refine ⟨n + 1, ?_⟩
    rw [hv, ← map_schedule_range]
    have hlen : 442 * (n + 1) = (n + 1) + 441 * (n + 1) := by omega
    generalize n + 1 = m at hlen ⊢
    rw [hlen, List.range_add, List.map_append]
    exact List.prefix_append _ _
  · rintro xs ys c ⟨zs, rfl⟩ hx hy
    have hxy := (Runs.steps_append.mp ha).1
    obtain ⟨m, hm, hmv⟩ := onTrack_run h (Runs.steps_append.mp hxy).1
    obtain ⟨m', hm', hmv'⟩ := onTrack_run h hxy
    rw [hmv, List.length_map, List.length_range] at hx
    rw [hmv', List.length_map, List.length_range] at hy
    obtain rfl : m = 442 * c := by omega
    obtain rfl : m' = 442 * (c + 1) := by omega
    have ht := hm'.tally
    rw [entered_add_frame] at ht
    exact (hm.tally.between ht).frameDone
  · refine Runs.steps_of_inv (I := fun s' => ∃ n, OnTrack s.raster n s') ?_ ?_ ⟨0, h.onTrack⟩ ha
    · rintro s' a ⟨n, hn⟩ ha
      rcases hn.act ha with h' | h'
      · exact ⟨n, h'⟩
      · exact ⟨n + 1, h'⟩
    · rintro s' a ⟨n, hn⟩ ha
      exact hn.stepExact ha

/-- The LCD is switched on at power-on. -/
def lcdOn : Emu := (powerOn #[] #[]).run [.write 0xff40 0x80]

/-- Refreshes after 6 cycles. -/
def sixes (n : Nat) : List Action := List.replicate n (.refresh 6)

theorem steps_sixes {C : Emu → Action → Prop} (h : ∀ s, C s (.refresh 6)) (s : Emu) (n : Nat) :
    Runs.Steps Emu.act C s (sixes n) := by
  refine Runs.steps_of_forall fun a ha s => ?_
  rw [List.eq_of_mem_replicate ha]
  exact h s

theorem lcdOn_sixes (n : Nat) : (lcdOn.run (sixes n)).raster =
    (Raster.tick 6)^[n] ⟨true, .oam, 0, 80, 0, 0, [], 0, []⟩ := by
  have h₀ : lcdOn.raster = ⟨true, .oam, 0, 80, 0, 0, [], 0, []⟩ := rfl
  rw [sixes, run_refreshes (by rw [h₀]) (by decide), h₀]

set_option maxRecDepth 100000 in
/-- A frame of refreshes of 6 cycles, with every phase in it. -/
theorem follows_schedule_sixes :
    (∃ k, Runs.visited Emu.act phaseOf lcdOn (sixes 2920) <+:
      (List.replicate k frame).flatten) ∧
    Runs.Steps Emu.act StepExact lcdOn (sixes 2920) ∧
    (lcdOn.run (sixes 2920)).ppu.frameCount = 1 := by
  have hreset : AfterReset lcdOn := ⟨by decide +kernel, rfl, rfl, rfl⟩
  have hsteps : Runs.Steps Emu.act Undisturbed lcdOn (sixes 2920) :=
    steps_sixes (fun _ => ⟨by decide, by decide⟩) _ _
  have hcount (n : Nat) : (lcdOn.run (sixes n)).ppu.frameCount =
      ((Raster.tick 6)^[n] ⟨true, .oam, 0, 80, 0, 0, [], 0, []⟩).frameCount :=
    congrArg Raster.frameCount (lcdOn_sixes n)
  obtain ⟨hvisited, -, hexact⟩ := follows_schedule lcdOn hreset (sixes 2920) hsteps
  refine ⟨hvisited, hexact, ?_⟩
  rw [hcount]
  decide +kernel

end RealBoy
