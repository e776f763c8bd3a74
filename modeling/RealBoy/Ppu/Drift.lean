/-
# `RealBoy.Ppu.Drift` — how long a frame is

No dot is lost at a phase change: along a run of the schedule the dots fed are
the dots still in hand at its start, less those in hand at its end, plus the
budgets of the phases entered in between (`OnSchedule.balance`, `Runs.total_eq`).

But the budgets do not add up to a frame.  The three phases of a line are given
80, 230 and 145 dots, 455 together, where a line of vblank is 456; so a frame
is 144 dots short, and `k` frames are `144 * k` dots early (`frame_drift`).
-/
import RealBoy.Lib.Ledger
import RealBoy.Ppu.Schedule

namespace RealBoy

open Emu

/-- The dots an action feeds to the PPU. -/
def dotsOf : Action → Int
  | .refresh ticks => 4 * ticks.toNat
  | _ => 0

/-- The dots some actions feed to the PPU. -/
def dotsFed (acts : List Action) : Int := (acts.map dotsOf).sum

/-- The mode changes to VBLANK. -/
def EntersVblank (s : Emu) (a : Action) : Prop :=
  s.ppu.mode ≠ .vblank ∧ (s.act a).ppu.mode = .vblank

instance (s : Emu) (a : Action) : Decidable (EntersVblank s a) :=
  inferInstanceAs (Decidable (_ ∧ _))

/-- The changes to VBLANK in a run. -/
def vblankEntries (s : Emu) (acts : List Action) : Nat :=
  Runs.total Emu.act (fun s a => if EntersVblank s a then 1 else 0) s acts

/-- The dots fed in `k` frames are those of `k` times 154 lines. -/
def NoDrift (fed : Int) (k : Nat) : Prop := |fed - k * (154 * 456)| < 24

/-! ## What a move along the schedule costs -/

/-- What leaving position `n` adds: the budget of the phase entered, if it is a
new one, and whether it is vblank. -/
def price (n : Nat) : Int × Nat :=
  let before := (schedule n).1
  let after := (schedule (n + 1)).1
  (if after = before then 0 else phaseDots after,
    if before ≠ .vblank ∧ after = .vblank then 1 else 0)

theorem price_periodic : Function.Periodic price 442 := by
  intro n
  have hn : schedule (n + 442) = schedule n := by
    rw [schedule, Nat.add_mod_right, schedule]
  have hn' : schedule (n + 442 + 1) = schedule (n + 1) := by
    rw [schedule, Nat.add_right_comm, Nat.add_mod_right, schedule]
  rw [price, hn, hn', price]

/-- **A frame of the schedule**: 144 lines of 455 dots, and the vblank. -/
theorem sum_price : ∑ i ∈ Finset.range 442, price (432 + i) = (70080, 1) := by
  decide +kernel

/-- What a step is worth: the dots in hand it adds, with those fed, and whether
it enters vblank. -/
def balance (s : Emu) (a : Action) : Int × Nat :=
  ((s.act a).ppu.dotsRemaining - s.ppu.dotsRemaining + dotsOf a,
    if EntersVblank s a then 1 else 0)

theorem dotsOf_bounds {s : Emu} {a : Action} (ha : Undisturbed s a) :
    0 ≤ dotsOf a ∧ dotsOf a ≤ 24 := by
  cases a with
  | exec => exact ha.elim
  | write addr value =>
      show 0 ≤ (0 : Int) ∧ (0 : Int) ≤ 24
      decide
  | refresh ticks =>
      have h₆ : ticks.toNat ≤ 6 := ha.2
      rw [dotsOf]
      omega

/-- **One step of the account.** -/
theorem OnSchedule.balance {n : Nat} {s : Emu} (h : OnSchedule n s.raster) {a : Action}
    (ha : Undisturbed s a) :
    (OnSchedule n (s.act a).raster ∧ balance s a = 0) ∨
      (OnSchedule (n + 1) (s.act a).raster ∧ balance s a = price n) := by
  have hmode : (schedule n).1 = s.ppu.mode := h.mode_eq
  cases a with
  | exec => exact ha.elim
  | write addr value =>
      have he : (s.act (.write addr value)).raster = s.raster :=
        monitorWrMem_raster_of_ne ha value s
      have hd : (s.act (.write addr value)).ppu.dotsRemaining = s.ppu.dotsRemaining :=
        congrArg Raster.dots he
      have hm : (s.act (.write addr value)).ppu.mode = s.ppu.mode := congrArg Raster.mode he
      refine .inl ⟨he ▸ h, ?_⟩
      have hnot : ¬ EntersVblank s (.write addr value) := fun hv => hv.1 (hm ▸ hv.2)
      rw [RealBoy.balance, if_neg hnot, hd, Int.sub_self]
      rfl
  | refresh ticks =>
      obtain ⟨h₁, h₆⟩ := ha
      have he := refresh_raster h.on h₁
      obtain ⟨hmove, hdots⟩ := h.tick h₆
      rw [← he] at hmove hdots
      have hd : (s.act (.refresh ticks)).ppu.dotsRemaining - s.ppu.dotsRemaining +
          4 * ticks.toNat = if (s.act (.refresh ticks)).ppu.mode = s.ppu.mode then 0
            else phaseDots (s.act (.refresh ticks)).ppu.mode := by
        have : (s.act (.refresh ticks)).ppu.dotsRemaining = s.ppu.dotsRemaining - 4 * ticks.toNat +
          if (s.act (.refresh ticks)).ppu.mode = s.ppu.mode then 0
            else phaseDots (s.act (.refresh ticks)).ppu.mode := hdots
        omega
      rw [RealBoy.balance, dotsOf, hd]
      rcases hmove with ⟨hp, -⟩ | ⟨hp, -⟩
      · refine .inl ⟨hp, ?_⟩
        have hm : (s.act (.refresh ticks)).ppu.mode = s.ppu.mode := hp.mode_eq.symm.trans hmode
        have hnot : ¬ EntersVblank s (.refresh ticks) := fun hv => hv.1 (hm ▸ hv.2)
        rw [hm, if_pos rfl, if_neg hnot]
        rfl
      · refine .inr ⟨hp, ?_⟩
        have hm : (schedule (n + 1)).1 = (s.act (.refresh ticks)).ppu.mode := hp.mode_eq
        rw [price, hm, hmode]
        exact congrArg (Prod.mk _) (if_congr Iff.rfl rfl rfl)

/-- Vblank begins at line 144, with the dots that its budget leaves. -/
theorem OnSchedule.enters {n : Nat} {s : Emu} (h : OnSchedule n s.raster) {a : Action}
    (ha : Undisturbed s a) (he : EntersVblank s a) :
    OnSchedule (n + 1) (s.act a).raster ∧ schedule (n + 1) = (.vblank, 144) ∧
      4536 < (s.act a).ppu.dotsRemaining ∧ (s.act a).ppu.dotsRemaining ≤ 4560 := by
  have hfirst : (schedule n).1 ≠ .vblank → (schedule (n + 1)).1 = .vblank →
      schedule (n + 1) = (.vblank, 144) := by
    rw [schedule_succ]
    refine schedule_forall (P := fun ph => ph.1 ≠ .vblank → (nextPhase ph).1 = .vblank →
      nextPhase ph = (.vblank, 144)) ?_ n
    decide +kernel
  have hmode : (schedule n).1 = s.ppu.mode := h.mode_eq
  rcases h.balance ha with ⟨hp, -⟩ | ⟨hp, hb⟩
  · have hmode' : (schedule n).1 = (s.act a).ppu.mode := hp.mode_eq
    exact absurd (hmode.symm.trans (hmode'.trans he.2)) he.1
  · have hmode' : (schedule (n + 1)).1 = (s.act a).ppu.mode := hp.mode_eq
    have hv := hfirst (hmode ▸ he.1) (hmode'.trans he.2)
    refine ⟨hp, hv, ?_, hp.dots_le⟩
    have hne : ¬ (.vblank : PpuMode) = s.ppu.mode := Ne.symm he.1
    have hdots : (s.act a).ppu.dotsRemaining - s.ppu.dotsRemaining + dotsOf a = 4560 := by
      have := congrArg Prod.fst hb
      rw [price, hmode, hv, if_neg hne] at this
      exact this
    have hpos : 0 < s.ppu.dotsRemaining := h.dots_pos
    have := (dotsOf_bounds ha).2
    omega

/-- **The account of a run** on the schedule. -/
theorem OnSchedule.account {n : Nat} {s : Emu} (h : OnSchedule n s.raster) {acts : List Action}
    (ha : Runs.Steps Emu.act Undisturbed s acts) :
    ∃ k, OnSchedule (n + k) (s.run acts).raster ∧
      ((s.run acts).ppu.dotsRemaining - s.ppu.dotsRemaining + dotsFed acts,
        vblankEntries s acts) = ∑ i ∈ Finset.range k, price (n + i) := by
  obtain ⟨k, hk, ht⟩ := Runs.total_eq (I := fun n s => OnSchedule n s.raster)
    (fun n s a h ha => h.balance ha) h ha
  refine ⟨k, hk, ?_⟩
  rw [← ht]
  refine Prod.ext ?_ ?_
  · have hfst : _ = Runs.total Emu.act _ s acts :=
      Runs.map_total (AddMonoidHom.fst Int Nat) RealBoy.balance acts s
    refine Eq.trans ?_ hfst.symm
    show _ = Runs.total Emu.act (fun s a => (s.act a).ppu.dotsRemaining - s.ppu.dotsRemaining +
      dotsOf a) s acts
    rw [Runs.total_add, Runs.total_const, Runs.total_sub fun s : Emu => s.ppu.dotsRemaining]
    rfl
  · exact (Runs.map_total (AddMonoidHom.snd Int Nat) RealBoy.balance acts s).symm

/-! ## The drift -/

theorem schedule_eq_vblank {n : Nat} (h : schedule n = (.vblank, 144)) : n % 442 = 432 := by
  have hp : n % 442 < 442 := Nat.mod_lt n (by decide)
  rw [schedule, framePhase] at h
  by_cases hlines : n % 442 < 432
  · rw [if_pos hlines] at h
    have hmode := congrArg Prod.fst h
    dsimp only at hmode
    split_ifs at hmode
  · rw [if_neg hlines] at h
    have hly : (n % 442 - 288) % 256 = 144 := congrArg (fun q => q.2.toNat) h
    omega

/-- Between two beginnings of vblank lie whole frames of 70080 dots. -/
theorem OnSchedule.frames {s : Emu} (h : OnSchedule 431 s.raster) {a b : Action}
    {ys : List Action} (hrun : Runs.Steps Emu.act Undisturbed s (a :: (ys ++ [b])))
    (ha : EntersVblank s a) (hb : EntersVblank ((s.act a).run ys) b) :
    1 ≤ vblankEntries (s.act a) (ys ++ [b]) ∧
      |dotsFed (ys ++ [b]) - vblankEntries (s.act a) (ys ++ [b]) * 70080| < 24 := by
  obtain ⟨hca, hrest⟩ := hrun
  obtain ⟨hys, hcb, -⟩ := Runs.steps_append.mp hrest
  obtain ⟨h₁, -, hgt₁, hle₁⟩ := h.enters hca ha
  -- the state before `b`, and the one after it
  obtain ⟨m, hm, -⟩ := h₁.account hys
  obtain ⟨hend, hvblank, hgt₂, hle₂⟩ := hm.enters hcb hb
  have hlast : ((s.act a).run (ys ++ [b])) = (((s.act a).run ys).act b) := by
    rw [Emu.run, Runs.run_append]
    rfl
  obtain ⟨k, hk, hsum⟩ := h₁.account hrest
  rw [hlast] at hk hsum
  have hk432 : (432 + k) % 442 = 432 := by
    refine schedule_eq_vblank ?_
    rw [← hk.phase, hend.phase, hvblank]
  obtain ⟨q, rfl⟩ : ∃ q, k = q * 442 := ⟨k / 442, by omega⟩
  rw [Runs.sum_periods price_periodic, sum_price] at hsum
  have hq : vblankEntries (s.act a) (ys ++ [b]) = q := by
    have := congrArg Prod.snd hsum
    simpa using this
  have hfed : (((s.act a).run ys).act b).ppu.dotsRemaining - (s.act a).ppu.dotsRemaining +
      dotsFed (ys ++ [b]) = q * 70080 := by
    have := congrArg Prod.fst hsum
    simpa using this
  refine ⟨?_, ?_⟩
  · rw [vblankEntries, Runs.total_append]
    have hone : Runs.total Emu.act (fun s a => if EntersVblank s a then 1 else 0)
        ((s.act a).run ys) [b] = 1 := by
      rw [Runs.total, if_pos hb]
      rfl
    have : Runs.run Emu.act (s.act a) ys = (s.act a).run ys := rfl
    rw [this, hone]
    omega
  · rw [hq, abs_lt]
    omega

/-! ## Entering vblank from any reachable state -/

theorem Raster.next_dots (r : Raster) : r.next.dots = int16 (r.dots + phaseDots r.next.mode) := by
  unfold Raster.next
  split
  case h_3 => split <;> rfl
  all_goals rfl

/-- What the refreshes keep of a PPU that is on: there are dots in hand. -/
structure InHand (r : Raster) : Prop extends RasterInv r where
  dots_pos : r.on = true → 0 < r.dots

theorem phaseDots_bounds (mode : PpuMode) : 80 ≤ phaseDots mode ∧ phaseDots mode ≤ 4560 := by
  cases mode <;> decide

theorem Raster.countVblank_dots (ticks : U8) (r : Raster) : (r.countVblank ticks).dots = r.dots := by
  unfold Raster.countVblank
  split
  · dsimp only
    split <;> rfl
  · rfl

theorem Raster.countVblank_mode (ticks : U8) (r : Raster) : (r.countVblank ticks).mode = r.mode := by
  unfold Raster.countVblank
  split
  · dsimp only
    split <;> rfl
  · rfl

theorem InHand.tick {r : Raster} (h : InHand r) (hon : r.on = true) {ticks : U8} (h₁ : 1 ≤ ticks)
    (h₆ : ticks ≤ 6) : InHand (r.tick ticks) := by
  refine ⟨h.toRasterInv.tick h₁ h₆, fun _ => ?_⟩
  have hd := h.spend_dots h₆
  have hpos := h.dots_pos hon
  have hle := h.dots_le
  have h₆ : ticks.toNat ≤ 6 := h₆
  unfold Raster.tick
  split
  case isTrue he =>
    obtain ⟨hmin, hmax⟩ := phaseDots_bounds (r.spend ticks).next.mode
    rw [Raster.next_dots, hd, int16_eq (by omega) (by omega)]
    omega
  case isFalse he =>
    rw [Raster.countVblank_dots]
    exact not_le.mp (not_or.mp he).1

theorem InHand.act {s : Emu} (h : InHand s.raster) {a : Action} (ha : Clocked s a)
    (hok : LyStoreOk s a) : InHand (s.act a).raster := by
  cases a with
  | exec => exact ha.elim
  | refresh ticks =>
      obtain ⟨h₁, h₆⟩ := ha
      have hn : ticks ≠ 0 := by bv_omega
      show InHand (ppuRefresh ticks s).raster
      rw [ppuRefresh_raster hn]
      split
      case isTrue hon => exact h.tick hon h₁ h₆
      case isFalse => exact h
  | write addr value =>
      refine ⟨h.toRasterInv.act ha hok, ?_⟩
      have hw := monitorWrMem_raster addr value s
      show (monitorWrMem addr value s).raster.on = true → 0 < (monitorWrMem addr value s).raster.dots
      generalize (monitorWrMem addr value s).raster = r at hw ⊢
      cases hw with
      | same | ly => exact h.dots_pos
      | toggle =>
          intro _
          show (0 : Int) < 80
          decide

theorem inHand_powerOn (rom boot : Array U8) : InHand (powerOn rom boot).raster := by
  refine ⟨rasterInv_powerOn rom boot, fun hon => ?_⟩
  have hoff : (powerOn rom boot).raster.on = bit (powerOn rom boot).ppu.regs.lcdc 0x80 := rfl
  exact absurd (hoff.symm.trans hon) (by show ¬ bit 0 0x80 = true; decide)

/-- A refresh enters vblank from the end of line 143 only. -/
theorem InHand.tick_vblank {r : Raster} (h : InHand r) {ticks : U8}
    (hm : r.mode ≠ .vblank) (hv : (r.tick ticks).mode = .vblank) :
    r.mode = .hblank ∧ r.ly = 143 ∧ (r.spend ticks).dots ≤ 0 := by
  unfold Raster.tick at hv
  split at hv
  case isFalse =>
    rw [Raster.countVblank_mode] at hv
    exact absurd hv hm
  case isTrue he =>
    have hdots := h.ends he hm
    have hly := h.ly_lt hm
    unfold Raster.next at hv
    split at hv
    case h_1 | h_2 | h_4 => exact nomatch hv
    case h_3 hh =>
      split at hv
      case isTrue hge =>
        have hge : r.ly + 1 ≥ 144 := hge
        exact ⟨hh, by bv_omega, hdots⟩
      case isFalse => exact nomatch hv

/-- A state whose next step enters vblank is at the last position before it. -/
theorem InHand.onSchedule {s : Emu} (h : InHand s.raster) (hon : s.raster.on = true)
    {a : Action} (ha : Undisturbed s a) (he : EntersVblank s a) : OnSchedule 431 s.raster := by
  cases a with
  | exec => exact ha.elim
  | write addr value =>
      have hr : (s.act (.write addr value)).raster = s.raster :=
        monitorWrMem_raster_of_ne ha value s
      exact absurd ((congrArg Raster.mode hr).symm.trans he.2) he.1
  | refresh ticks =>
      obtain ⟨h₁, h₆⟩ := ha
      have hr := refresh_raster hon h₁
      have hv : (s.raster.tick ticks).mode = .vblank := hr ▸ he.2
      obtain ⟨hm, hly, hdots⟩ := h.tick_vblank he.1 hv
      rw [h.spend_dots h₆] at hdots
      have h₆ : ticks.toNat ≤ 6 := h₆
      have hphase : (s.raster.mode, s.raster.ly) = schedule 431 := by
        rw [hm, hly]
        decide
      exact ⟨hon, hphase, h.dots_pos hon, by omega, fun hv => absurd hv he.1⟩

/-- The LCD is on, in a state reached from power-on by refreshes and bus writes,
the stores to LY being of lines of the mode. -/
def Running (s : Emu) : Prop :=
  ∃ rom boot acts, Runs.Steps Emu.act Clocked (powerOn rom boot) acts ∧
    Runs.Steps Emu.act LyStoreOk (powerOn rom boot) acts ∧
    s = (powerOn rom boot).run acts ∧ bit s.ppu.regs.lcdc 0x80 = true

theorem Running.inHand {s : Emu} (h : Running s) : InHand s.raster := by
  obtain ⟨rom, boot, acts, hc, hok, rfl, -⟩ := h
  exact Runs.inv_run (I := fun s => InHand s.raster) (C := fun s a => Clocked s a ∧ LyStoreOk s a)
    (fun s a hs ha => hs.act ha.1 ha.2) (inHand_powerOn rom boot) (Runs.steps_and.mpr ⟨hc, hok⟩)

/-- **Drift.**  Whatever the refreshes, two beginnings of vblank that are `k`
frames apart are `k * 70080` dots apart, up to the 24 of a refresh, and never
the `k * 154 * 456` of as many lines. -/
theorem frame_drift (s : Emu) (hs : Running s) (a b : Action) (ys : List Action)
    (hrun : Runs.Steps Emu.act Undisturbed s (a :: (ys ++ [b])))
    (ha : EntersVblank s a) (hb : EntersVblank ((s.act a).run ys) b) :
    let k := vblankEntries (s.act a) (ys ++ [b])
    1 ≤ k ∧ |dotsFed (ys ++ [b]) - k * 70080| < 24 ∧ ¬ NoDrift (dotsFed (ys ++ [b])) k := by
  have hon : s.raster.on = true := by
    obtain ⟨rom, boot, acts, -, -, -, hon⟩ := hs
    exact hon
  have h := hs.inHand.onSchedule hon hrun.1 ha
  obtain ⟨hk, hfed⟩ := h.frames hrun ha hb
  refine ⟨hk, hfed, fun hno => ?_⟩
  -- 144 dots are missing for each of the frames
  rw [NoDrift, abs_lt] at hno
  rw [abs_lt] at hfed
  omega

/-! ## A frame of refreshes of one length -/

theorem running_sixes (n : Nat) : Running (lcdOn.run (sixes n)) := by
  refine ⟨#[], #[], .write 0xff40 0x80 :: sixes n, ⟨trivial, ?_⟩, ⟨nofun, ?_⟩, rfl, ?_⟩
  · exact steps_sixes (fun _ => ⟨by decide, by decide⟩) _ n
  · exact steps_sixes (fun _ => trivial) _ n
  · have hon : (lcdOn.run (sixes n)).raster.on = true := by
      rw [lcdOn_sixes]
      induction n with
      | zero => rfl
      | succ n ih => rw [Function.iterate_succ_apply', Raster.tick_on, ih]
    exact hon

theorem sixes_succ (n : Nat) : sixes n ++ [.refresh 6] = sixes (n + 1) :=
  List.replicate_succ'.symm

theorem undisturbed_sixes (s : Emu) (n : Nat) :
    Runs.Steps Emu.act Undisturbed s (.refresh 6 :: (sixes n ++ [.refresh 6])) := by
  have h₆ : Undisturbed s (.refresh 6) := ⟨by decide, by decide⟩
  rw [sixes_succ]
  exact ⟨h₆, steps_sixes (fun _ => h₆) _ _⟩

theorem dotsFed_sixes (n : Nat) : dotsFed (sixes n) = n * 24 := by
  rw [dotsFed, sixes, List.map_replicate, List.sum_replicate, nsmul_eq_mul]
  rfl

theorem lcdOn_act (n : Nat) :
    (lcdOn.run (sixes n)).act (.refresh 6) = lcdOn.run (sixes (n + 1)) := by
  rw [← sixes_succ, Emu.run, Emu.run, Runs.run_append]
  rfl

theorem lcdOn_run (m n : Nat) :
    (lcdOn.run (sixes m)).run (sixes n) = lcdOn.run (sixes (m + n)) := by
  rw [sixes, sixes, sixes, List.replicate_add, Emu.run, Emu.run, Emu.run, Runs.run_append]

set_option maxRecDepth 100000 in
/-- When vblank begins, with refreshes of 6 cycles. -/
theorem entersVblank_sixes {n : Nat} (h : n = 2729 ∨ n = 5649) :
    EntersVblank (lcdOn.run (sixes n)) (.refresh 6) := by
  have hmode (n : Nat) : (lcdOn.run (sixes n)).ppu.mode =
      ((Raster.tick 6)^[n] ⟨true, .oam, 0, 80, 0, 0, [], 0, []⟩).mode :=
    congrArg Raster.mode (lcdOn_sixes n)
  rw [EntersVblank, lcdOn_act, hmode, hmode, Function.iterate_succ_apply']
  rcases h with rfl | rfl
  · decide +kernel
  · decide +kernel

/-- The second beginning of vblank. -/
theorem entersVblank_again :
    EntersVblank (((lcdOn.run (sixes 2729)).act (.refresh 6)).run (sixes 2919)) (.refresh 6) := by
  rw [lcdOn_act, lcdOn_run]
  exact entersVblank_sixes (.inr rfl)

theorem frame_drift_sixes :
    let k := vblankEntries (lcdOn.run (sixes 2730)) (sixes 2920)
    1 ≤ k ∧ |dotsFed (sixes 2920) - k * 70080| < 24 ∧ ¬ NoDrift (dotsFed (sixes 2920)) k := by
  have h := frame_drift (lcdOn.run (sixes 2729)) (running_sixes 2729) (.refresh 6) (.refresh 6)
    (sixes 2919) (undisturbed_sixes _ 2919)
    (entersVblank_sixes (.inl rfl)) entersVblank_again
  rw [lcdOn_act, sixes_succ] at h
  exact h

/-- Two beginnings of vblank 70080 dots apart. -/
theorem not_noDrift_sixes :
    ¬ ∀ (s : Emu) (a b : Action) (ys : List Action), Running s →
      Runs.Steps Emu.act Undisturbed s (a :: (ys ++ [b])) →
      EntersVblank s a → EntersVblank ((s.act a).run ys) b →
      NoDrift (dotsFed (ys ++ [b])) (vblankEntries (s.act a) (ys ++ [b])) := by
  intro h
  have hno := h (lcdOn.run (sixes 2729)) (.refresh 6) (.refresh 6) (sixes 2919)
    (running_sixes 2729) (undisturbed_sixes _ 2919)
    (entersVblank_sixes (.inl rfl)) entersVblank_again
  rw [sixes_succ] at hno
  -- 70080 dots are not within 24 of a multiple of 70224
  rw [NoDrift, dotsFed_sixes, abs_lt] at hno
  omega

end RealBoy
