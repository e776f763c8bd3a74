/-
# `RealBoy.Emu.Throttle` — sixty frames a second

After every frame `monitor_throttle_fps` sleeps for the `sleep_factor`-th part of a
second, and once a second it corrects the factor by one, from the frames it has
counted.  The factor is divided by, and the quotient is the `tv_nsec` of a
`nanosleep`; nothing in the function keeps it from becoming 0.

What keeps it is the sleeping itself: a frame takes no less time than was slept, so
there are not more than sixty of them in a second unless the factor is about sixty.
It never falls below 58, however fast the frames and however the clock is read
(`throttle_bounds`).
-/
import RealBoy.Emu.Loop
import RealBoy.Lib.Traces

namespace RealBoy

open Emu

/-- `struct timespec`, as `clock_gettime` fills it in. -/
structure Timespec where
  tvSec : Nat
  tvNsec : Nat
  tvNsec_lt : tvNsec < 1000000000

/-- The nanoseconds of it. -/
def Timespec.ns (t : Timespec) : Nat := 1000000000 * t.tvSec + t.tvNsec

/-- The statics of `monitor_throttle_fps`.  `sleep_factor` is an `int`: it starts with 60
and grows by no more than one a frame (`throttle_bounds`), so that an integer does as
well while 60 and the number of frames are below 2 ^ 31. -/
structure Throttle where
  frameCountLast : U64
  last : Timespec
  sleepFactor : Int

/-- They start with 0, but for the factor. -/
def Throttle.init : Throttle := ⟨0, ⟨0, 0, by decide⟩, 60⟩

/-- `monitor_throttle_fps`, called at `now` with `ppu_get_frame_count()`; the result is
the `tv_nsec` that it sleeps for, if it gets there.  A division by 0 is `none`. -/
def monitorThrottleFps (now : Timespec) (frameCount : U64) (t : Throttle) :
    Option (Throttle × Option Int) :=
  if t.frameCountLast = 0 then
    some ({ t with frameCountLast := frameCount, last := now }, none)
  else
    let t := if now.tvSec > t.last.tvSec then
        let fps := frameCount - t.frameCountLast
        { frameCountLast := frameCount
          last := now
          sleepFactor := if fps > 60 then t.sleepFactor - 1
            else if fps < 60 then t.sleepFactor + 1 else t.sleepFactor }
      else t
    if t.sleepFactor = 0 then none else some (t, some (Int.tdiv 1000000000 t.sleepFactor))

/-! ## The frames and the clock -/

/-- The statics, with the frames so far, and when and for how long the last call slept. -/
structure Pacing where
  throttle : Throttle
  frameCount : U64
  now : Timespec
  slept : Int

/-- Before the first frame. -/
def Pacing.init : Pacing := ⟨.init, 0, ⟨0, 0, by decide⟩, 0⟩

/-- A frame: `ppu.frame_count++; monitor_throttle_fps()`, with what the clock reads. -/
def Pacing.frame (p : Pacing) (now : Timespec) : Option Pacing :=
  (monitorThrottleFps now (p.frameCount + 1) p.throttle).map fun (throttle, slept) =>
    { throttle := throttle, frameCount := p.frameCount + 1, now := now, slept := slept.getD 0 }

/-- The clock is monotonic, and `nanosleep` sleeps for as long as it is asked to. -/
def Pacing.Reads (p : Pacing) (now : Timespec) : Prop := (p.now.ns : Int) + p.slept ≤ now.ns

instance (p : Pacing) (now : Timespec) : Decidable (p.Reads now) :=
  inferInstanceAs (Decidable (_ ≤ _))

/-- What one call does.  `q` is the quotient the factor gives. -/
inductive FrameStep (p : Pacing) (now : Timespec) : Pacing → Prop where
  | first : p.throttle.frameCountLast = 0 →
      FrameStep p now
        { throttle := { p.throttle with frameCountLast := p.frameCount + 1, last := now }
          frameCount := p.frameCount + 1, now := now, slept := 0 }
  | within : p.throttle.frameCountLast ≠ 0 → now.tvSec ≤ p.throttle.last.tvSec →
      FrameStep p now
        { throttle := p.throttle, frameCount := p.frameCount + 1, now := now
          slept := Int.tdiv 1000000000 p.throttle.sleepFactor }
  | second (factor : Int) : p.throttle.frameCountLast ≠ 0 → p.throttle.last.tvSec < now.tvSec →
      factor = p.throttle.sleepFactor ∨ factor = p.throttle.sleepFactor + 1 ∨
        (factor = p.throttle.sleepFactor - 1 ∧
          60 < p.frameCount + 1 - p.throttle.frameCountLast) →
      FrameStep p now
        { throttle := ⟨p.frameCount + 1, now, factor⟩, frameCount := p.frameCount + 1, now := now
          slept := Int.tdiv 1000000000 factor }

/-- A frame goes through, if the factor is away from 0. -/
theorem frame_cases {p : Pacing} (hpos : 1 < p.throttle.sleepFactor) (now : Timespec) :
    ∃ p', p.frame now = some p' ∧ FrameStep p now p' := by
  unfold Pacing.frame monitorThrottleFps
  by_cases h₀ : p.throttle.frameCountLast = 0
  · rw [if_pos h₀]
    exact ⟨_, rfl, .first h₀⟩
  · rw [if_neg h₀]
    by_cases hsec : now.tvSec > p.throttle.last.tvSec
    · simp only [if_pos hsec]
      split
      case isTrue hf =>
        rw [if_neg (by omega)]
        exact ⟨_, rfl, .second _ h₀ hsec (.inr (.inr ⟨rfl, hf⟩))⟩
      case isFalse =>
        split
        · rw [if_neg (by omega)]
          exact ⟨_, rfl, .second _ h₀ hsec (.inr (.inl rfl))⟩
        · rw [if_neg (by omega)]
          exact ⟨_, rfl, .second _ h₀ hsec (.inl rfl)⟩
    · simp only [if_neg hsec]
      rw [if_neg (by omega)]
      exact ⟨_, rfl, .within h₀ (Nat.not_lt.mp hsec)⟩

/-! ## The bounds -/

/-- The pacing of the frames since the factor was last looked at: `n` of them have taken
the time of `n`, but for one that is still slept. -/
structure Paced (p : Pacing) : Prop where
  factor_ge : 58 ≤ p.throttle.sleepFactor
  slept_nonneg : 0 ≤ p.slept
  slept_le : p.slept ≤ 1000000000 / p.throttle.sleepFactor
  second : p.throttle.frameCountLast ≠ 0 → p.now.tvSec ≤ p.throttle.last.tvSec
  frames : p.throttle.frameCountLast ≠ 0 → ∃ n : Nat,
    p.frameCount = p.throttle.frameCountLast + BitVec.ofNat 64 n ∧
      p.throttle.last.ns + n * (1000000000 / p.throttle.sleepFactor) ≤ p.now.ns + p.slept

theorem paced_init : Paced .init where
  factor_ge := by decide
  slept_nonneg := by decide
  slept_le := by decide
  second h := absurd rfl h
  frames h := absurd rfl h

/-- The quotient is less than a second. -/
theorem quotient_bounds {factor : Int} (h : 58 ≤ factor) :
    Int.tdiv 1000000000 factor = 1000000000 / factor ∧ 0 ≤ 1000000000 / factor ∧
      1000000000 / factor < 1000000000 := by
  refine ⟨Int.tdiv_eq_ediv_of_nonneg (by decide), Int.ediv_nonneg (by decide) (by omega), ?_⟩
  exact Int.ediv_lt_self_of_pos_of_ne_one (by decide) (by omega)

/-- Within a second the nanoseconds differ by less than one. -/
theorem ns_lt_of_le {t t' : Timespec} (h : t.tvSec ≤ t'.tvSec) : t.ns < t'.ns + 1000000000 := by
  have hlt := t.tvNsec_lt
  unfold Timespec.ns
  omega

/-- **Not more than sixty frames**, where the factor is 58. -/
theorem Paced.factor_gt {p : Pacing} (h : Paced p) (h₀ : p.throttle.frameCountLast ≠ 0)
    (hfps : 60 < p.frameCount + 1 - p.throttle.frameCountLast) : 59 ≤ p.throttle.sleepFactor := by
  by_contra hlt
  have hge := h.factor_ge
  have hfactor : p.throttle.sleepFactor = 58 := by omega
  obtain ⟨n, hcount, hns⟩ := h.frames h₀
  have hsecond := ns_lt_of_le (h.second h₀)
  have hslept := h.slept_le
  rw [hfactor] at hns hslept
  have hn : n ≤ 59 := by omega
  have hfew : p.frameCount + 1 - p.throttle.frameCountLast = BitVec.ofNat 64 (n + 1) := by
    rw [hcount, BitVec.ofNat_add]
    bv_omega
  rw [hfew] at hfps
  bv_omega

/-- **A frame** leaves the factor where the time that was slept allows it to be. -/
theorem Paced.frame {p p' : Pacing} {now : Timespec} (h : Paced p) (hreads : p.Reads now)
    (hstep : FrameStep p now p') : Paced p' := by
  have hreads : (p.now.ns : Int) + p.slept ≤ now.ns := hreads
  cases hstep with
  | first =>
      exact
        { factor_ge := h.factor_ge
          slept_nonneg := Int.le_refl 0
          slept_le := (quotient_bounds h.factor_ge).2.1
          second := fun _ => Nat.le_refl _
          frames := fun _ => ⟨0, by simp, by simp⟩ }
  | within h₀ hsec =>
      obtain ⟨hdiv, hnonneg, -⟩ := quotient_bounds h.factor_ge
      obtain ⟨n, hcount, hns⟩ := h.frames h₀
      refine ⟨h.factor_ge, hdiv ▸ hnonneg, hdiv ▸ Int.le_refl _, fun _ => hsec, fun _ => ?_⟩
      refine ⟨n + 1, ?_, ?_⟩
      · dsimp only
        rw [hcount, BitVec.ofNat_add, BitVec.add_assoc]
        rfl
      · dsimp only
        rw [hdiv, Int.natCast_add, Int.add_mul]
        omega
  | second factor h₀ hsec hfactor =>
      have hge : 58 ≤ factor := by
        have hold := h.factor_ge
        rcases hfactor with rfl | rfl | ⟨rfl, hfps⟩
        · exact hold
        · omega
        · have hgt := h.factor_gt h₀ hfps
          omega
      obtain ⟨hdiv, hnonneg, -⟩ := quotient_bounds hge
      refine ⟨hge, hdiv ▸ hnonneg, hdiv ▸ Int.le_refl _, fun _ => Nat.le_refl _, fun _ => ?_⟩
      refine ⟨0, by simp, ?_⟩
      dsimp only
      rw [hdiv]
      omega

/-! ## The frames of a run -/

/-- `frame_count` counts the calls. -/
def FramesCounted (s : Emu) : Prop :=
  s.ppu.frameCount = BitVec.ofNat 64 (s.events.count .monitorThrottleFps)

theorem FramesCounted.log {s : Emu} (h : FramesCounted s) {e : Event} (he : e ≠ .monitorThrottleFps) :
    FramesCounted (s.log e) := by
  show s.ppu.frameCount = BitVec.ofNat 64 ((s.events ++ [e]).count .monitorThrottleFps)
  rw [List.count_append, List.count_singleton, beq_eq_false_iff_ne.mpr he]
  exact h

theorem FramesCounted.logs {s : Emu} (h : FramesCounted s) {es : List Event}
    (hes : .monitorThrottleFps ∉ es) : FramesCounted (s.logs es) := by
  rw [FramesCounted, logs_ppu, logs_events, List.count_append, List.count_eq_zero.mpr hes]
  exact h

theorem FramesCounted.statIntr {s : Emu} (h : FramesCounted s) (mask : U8) :
    FramesCounted (statIntr mask s) := by
  unfold RealBoy.statIntr
  split
  · exact h.log (s := s.updCpu _) nofun
  · exact h

theorem FramesCounted.setLy {s : Emu} (h : FramesCounted s) (value : U8) :
    FramesCounted (setLy value s) := by
  unfold RealBoy.setLy checkLyLyc
  split
  · exact FramesCounted.statIntr (s := (s.updPpuRegs _).updStat _) h 0x40
  · exact h

theorem FramesCounted.renderLine {s : Emu} (h : FramesCounted s) :
    FramesCounted (ppuRenderLine s) := by
  rw [ppuRenderLine_eq]
  exact h.logs (by simp [lineEvents])

/-- The end of a frame counts it, and calls once. -/
theorem FramesCounted.countFrame {s : Emu} (h : FramesCounted s) :
    FramesCounted (s.countFrame.log .monitorThrottleFps) := by
  show s.ppu.frameCount + 1 =
    BitVec.ofNat 64 ((s.events ++ [Event.monitorThrottleFps]).count .monitorThrottleFps)
  rw [List.count_append, List.count_singleton_self, BitVec.ofNat_add, h]
  rfl

theorem FramesCounted.changePhase {s : Emu} (h : FramesCounted s) :
    FramesCounted (changePhase s) := by
  unfold RealBoy.changePhase
  split
  · have hly := h.setLy (s.ppu.regs.ly + 1)
    unfold hblankEndCycle
    generalize RealBoy.setLy (s.ppu.regs.ly + 1) s = s₁ at hly ⊢
    dsimp only
    split
    · have hvblank : FramesCounted
          ((((s₁.updVblankDots fun _ => 0).updDots (· + 4560)).setMode .vblank).updStat (· ||| 1)) := hly
      have hintr := hvblank.statIntr 0x10
      exact FramesCounted.log (s := Emu.updCpu _ _) hintr nofun
    · have hoam : FramesCounted (((s₁.updDots (· + 80)).setMode .oam).updStat (· ||| 2)) := hly
      exact hoam.statIntr 0x20
  · have hdraw : FramesCounted ((s.log .renderDrawFramebuffer).updDots (· + 80)) := h.log nofun
    have hly := hdraw.setLy 0
    unfold vblankEndCycle
    generalize RealBoy.setLy 0 ((s.log .renderDrawFramebuffer).updDots (· + 80)) = s₁ at hly ⊢
    have hoam : FramesCounted (((s₁.setMode .oam).updStat (· &&& ~~~3)).updStat (· ||| 2)) := hly
    exact hoam.countFrame
  · exact h
  · exact FramesCounted.renderLine (s := ((s.updDots _).updStat _).setMode _) h

theorem FramesCounted.refreshTicks {s : Emu} (h : FramesCounted s) (ticks : U8) :
    FramesCounted (refreshTicks ticks s) := by
  have hspent : FramesCounted (s.updDots (· - 4 * ticks.toNat)) := h
  unfold RealBoy.refreshTicks
  dsimp only
  split
  · exact hspent.changePhase
  · unfold countVblankDots
    split
    · dsimp only
      split
      · exact FramesCounted.setLy (s := (s.updDots _).updVblankDots _) h _
      · exact h
    · exact h

theorem FramesCounted.ppuRefresh {s : Emu} (h : FramesCounted s) (ticks : U8) :
    FramesCounted (ppuRefresh ticks s) := by
  unfold RealBoy.ppuRefresh
  split
  · split
    · refine FramesCounted.refreshTicks ?_ 3
      split
      · exact h
      · exact h
    · exact h.refreshTicks ticks
  · exact h

theorem framesCounted_guarded : Guarded (fun _ => False) FramesCounted where
  regs _ _ h := h
  cpu _ _ h := h
  timer s e he h := h.log (by rcases he with rfl | rfl <;> nofun)
  write s addr value hdma _ h := by
    have hcount : (monitorWrMem addr value s).ppu.frameCount = s.ppu.frameCount := by
      have hr := monitorWrMem_raster addr value s
      show (monitorWrMem addr value s).raster.frameCount = s.raster.frameCount
      generalize (monitorWrMem addr value s).raster = r at hr
      cases hr <;> rfl
    have hlog : FramesCounted (s.log (.monitorWrMem addr value)) := h.log nofun
    rw [FramesCounted, hcount, (monitorWrMem_cases addr value s).events hdma]
    exact hlog
  dma s value _ h := h.log nofun

/-- **The frames are the calls**, in every run. -/
theorem framesCounted_passes (rom boot : Array U8) (steps : List LoopStep) :
    FramesCounted ((powerOn rom boot).passes steps) :=
  (framesCounted_guarded.passes (fun _ ticks _ _ h => h.ppuRefresh ticks) (fun _ _ h => h)
    (.refl (s := powerOn rom boot) rfl) steps).holds fun _ _ h => h

/-- A run of frames from any that is paced. -/
theorem Paced.exec {p : Pacing} (h : Paced p) {times : List Timespec}
    (hreads : Traces.Steps Pacing.frame Pacing.Reads p times) :
    ∃ p', Traces.exec Pacing.frame p times = some p' ∧ Paced p' ∧
      p'.frameCount = p.frameCount + BitVec.ofNat 64 times.length ∧
      p'.throttle.sleepFactor ≤ p.throttle.sleepFactor + times.length := by
  induction times generalizing p with
  | nil => exact ⟨p, rfl, h, (BitVec.add_zero _).symm, by simp⟩
  | cons now times ih =>
      have hge := h.factor_ge
      obtain ⟨m, hm, hstep⟩ := frame_cases (p := p) (by omega) now
      obtain ⟨hnow, hrest⟩ := (Traces.steps_cons hm).mp hreads
      obtain ⟨p', hp', hpaced, hcount, hfactor⟩ := ih (h.frame hnow hstep) hrest
      have hone : m.frameCount = p.frameCount + 1 ∧
          m.throttle.sleepFactor ≤ p.throttle.sleepFactor + 1 := by
        cases hstep with
        | first | within =>
            refine ⟨rfl, ?_⟩
            dsimp only
            omega
        | second factor _ _ hfactor =>
            refine ⟨rfl, ?_⟩
            dsimp only
            omega
      refine ⟨p', Traces.exec_cons.mpr ⟨m, hm, hp'⟩, hpaced, ?_, ?_⟩
      · rw [hcount, hone.1, List.length_cons, BitVec.ofNat_add, BitVec.add_assoc,
          BitVec.add_comm (BitVec.ofNat 64 times.length)]
        rfl
      · rw [List.length_cons]
        omega

/-- **The factor stays positive.**  Whatever is run, and whatever a monotonic clock reads
at the frames, `nanosleep` sleeping for as long as it is asked to: no call divides by 0,
the factor is at least 58 and grows by no more than one a frame, and `nanosleep` is asked
for less than a second. -/
theorem throttle_bounds (rom boot : Array U8) (steps : List LoopStep) (times : List Timespec)
    (hlen : times.length =
      ((powerOn rom boot).passes steps).events.count .monitorThrottleFps)
    (hreads : Traces.Steps Pacing.frame Pacing.Reads .init times) :
    ∃ p, Traces.exec Pacing.frame .init times = some p ∧
      p.frameCount = ((powerOn rom boot).passes steps).ppu.frameCount ∧
      58 ≤ p.throttle.sleepFactor ∧ p.throttle.sleepFactor ≤ 60 + times.length ∧
      0 ≤ p.slept ∧ p.slept < 1000000000 := by
  obtain ⟨p, hp, hpaced, hcount, hfactor⟩ := paced_init.exec hreads
  obtain ⟨-, -, hlt⟩ := quotient_bounds hpaced.factor_ge
  have hslept := hpaced.slept_le
  refine ⟨p, hp, ?_, hpaced.factor_ge, hfactor, hpaced.slept_nonneg, by omega⟩
  rw [framesCounted_passes, ← hlen, hcount]
  exact BitVec.zero_add _

/-- The LCD is switched on, and two frames are cut short by stores to LY. -/
def shortFrames : Array U8 :=
  #[0x3e, 0x80, 0xe0, 0x40, 0x3e, 0x99, 0xe0, 0x44, 0x00, 0x00, 0xe0, 0x44,
    0xe0, 0x44, 0x00, 0x00, 0xe0, 0x44]

set_option maxRecDepth 8000 in
theorem throttle_bounds_shortFrames :
    ∃ p, Traces.exec Pacing.frame .init [⟨1, 0, by decide⟩, ⟨2, 500, by decide⟩] = some p ∧
      p.frameCount = ((powerOn shortFrames #[]).passes (List.replicate 11 .execNext)).ppu.frameCount ∧
      58 ≤ p.throttle.sleepFactor ∧ p.throttle.sleepFactor ≤ 62 := by
  obtain ⟨p, hp, hcount, hge, hle, -⟩ := throttle_bounds shortFrames #[] (List.replicate 11 .execNext)
    [⟨1, 0, by decide⟩, ⟨2, 500, by decide⟩] (by decide) (by decide)
  exact ⟨p, hp, hcount, hge, hle⟩

end RealBoy
