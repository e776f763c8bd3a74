/-
# `RealBoy.Ppu.Stat` — the copies in STAT, and its interrupts

Bits 0 and 1 of STAT are the mode, bit 2 is LY = LYC.  The refreshes keep both
copies (`Status.Mirrored.next`, `Status.Coincides.next`); a store to STAT, LY
or LYC and the LCD switch do not recompute them, so the copies are right in
every state of a run if and only if the stores leave them right
(`modeMirrored_iff`, `lycCoincides_iff`).

Of the four changes of mode only those at the end of hblank ask for their STAT
interrupt: the request is missing on entering HBLANK, and on entering OAM from
vblank (`modeIntr_iff`).
-/
import RealBoy.Ppu.Status

namespace RealBoy

open Emu

/-- `enum ppu_mode`, as the number in STAT. -/
def modeBits : PpuMode → U8
  | .hblank => 0
  | .vblank => 1
  | .oam => 2
  | .draw => 3

/-- Bus writes and refreshes, of any length. -/
def BusAction (_ : Emu) : Action → Prop
  | .exec => False
  | .refresh _ => True
  | .write _ _ => True

/-! ## Masks -/

/-- Or-ing bits in leaves the bits of another mask. -/
theorem or_and_mask (x : U8) {y mask : U8} (h : y &&& mask = 0) :
    (x ||| y) &&& mask = x &&& mask := by
  rw [BitVec.and_or_distrib_right, h]
  exact BitVec.or_zero

/-- So does clearing them. -/
theorem andNot_and_mask (x : U8) {y mask : U8} (h : y &&& mask = 0) :
    (x &&& ~~~y) &&& mask = x &&& mask := by
  have hx : x &&& mask = (x &&& ~~~y &&& mask) ||| (x &&& (y &&& mask)) := by
    ext i
    simp only [BitVec.getElem_and, BitVec.getElem_or, BitVec.getElem_not]
    cases x[i] <;> cases y[i] <;> cases mask[i] <;> rfl
  rw [h] at hx
  simpa using hx.symm

theorem or_and_self (x mask : U8) : (x ||| mask) &&& mask = mask := by
  ext i
  rw [BitVec.getElem_and, BitVec.getElem_or]
  cases x[i] <;> cases mask[i] <;> rfl

theorem andNot_and_self (x mask : U8) : (x &&& ~~~mask) &&& mask = 0 := by
  ext i
  simp

theorem bit_or (x y mask : U8) (h : y &&& mask = 0) : bit (x ||| y) mask = bit x mask := by
  rw [bit, or_and_mask x h, bit]

theorem bit_andNot (x y mask : U8) (h : y &&& mask = 0) : bit (x &&& ~~~y) mask = bit x mask := by
  rw [bit, andNot_and_mask x h, bit]

theorem bit_or_self (x : U8) {mask : U8} (h : mask ≠ 0) : bit (x ||| mask) mask = true := by
  rw [bit, or_and_self, bne_iff_ne]
  exact h

theorem bit_andNot_self (x mask : U8) : bit (x &&& ~~~mask) mask = false := by
  rw [bit, andNot_and_self]
  rfl

namespace Status

variable (r : Status) (mask value bits : U8) (mode : PpuMode)

@[simp] theorem intr_on : (r.intr mask).on = r.on := by
  unfold intr
  split <;> rfl
@[simp] theorem intr_mode : (r.intr mask).mode = r.mode := by
  unfold intr
  split <;> rfl
@[simp] theorem intr_ly : (r.intr mask).ly = r.ly := by
  unfold intr
  split <;> rfl
@[simp] theorem intr_lyc : (r.intr mask).lyc = r.lyc := by
  unfold intr
  split <;> rfl
@[simp] theorem intr_stat : (r.intr mask).stat = r.stat := by
  unfold intr
  split <;> rfl

@[simp] theorem toLy_on : (r.toLy value).on = r.on := by
  unfold toLy
  split
  · rw [intr_on]
  · rfl
@[simp] theorem toLy_mode : (r.toLy value).mode = r.mode := by
  unfold toLy
  split
  · rw [intr_mode]
  · rfl
@[simp] theorem toLy_ly : (r.toLy value).ly = value := by
  unfold toLy
  split
  · rw [intr_ly]
  · rfl
@[simp] theorem toLy_lyc : (r.toLy value).lyc = r.lyc := by
  unfold toLy
  split
  · rw [intr_lyc]
  · rfl
theorem toLy_stat : (r.toLy value).stat =
    if value = r.lyc then r.stat ||| 0x4 else r.stat &&& ~~~0x4 := by
  unfold toLy
  split
  · rw [intr_stat]
  · rfl

@[simp] theorem enter_on : (r.enter mode bits).on = r.on := rfl
@[simp] theorem enter_mode : (r.enter mode bits).mode = mode := rfl
@[simp] theorem enter_ly : (r.enter mode bits).ly = r.ly := rfl
@[simp] theorem enter_lyc : (r.enter mode bits).lyc = r.lyc := rfl
@[simp] theorem enter_stat : (r.enter mode bits).stat = r.stat ||| bits := rfl

/-! ## The mode bits -/

/-- STAT has the mode in its low bits. -/
def Mirrored (r : Status) : Prop := r.on = true → r.stat &&& 3 = modeBits r.mode

theorem toLy_and_three : (r.toLy value).stat &&& 3 = r.stat &&& 3 := by
  rw [toLy_stat]
  split
  · exact or_and_mask _ (by decide)
  · exact andNot_and_mask _ (by decide)

variable {r}

theorem Mirrored.toLy (h : r.Mirrored) : (r.toLy value).Mirrored := by
  intro hon
  rw [toLy_on] at hon
  rw [toLy_and_three, toLy_mode]
  exact h hon

/-- **Every change of mode** leaves STAT with the new mode, whatever the old
bits were outside hblank. -/
theorem Mirrored.next (h : r.Mirrored) : r.next.Mirrored := by
  unfold Status.next
  split
  case h_1 =>
    intro _
    exact or_and_self r.stat 3
  case h_2 =>
    intro _
    exact andNot_and_self r.stat 3
  case h_3 hm =>
    have h0 (hon : r.on = true) : r.stat &&& 3 = 0 := by
      rw [h hon, hm]
      rfl
    split
    · intro hon
      simp only [intr_on, enter_on, toLy_on] at hon
      simp only [intr_stat, intr_mode, enter_stat, enter_mode,
        BitVec.and_or_distrib_right, toLy_and_three, h0 hon]
      decide
    · intro hon
      simp only [intr_on, enter_on, toLy_on] at hon
      simp only [intr_stat, intr_mode, enter_stat, enter_mode,
        BitVec.and_or_distrib_right, toLy_and_three, h0 hon]
      decide
  case h_4 =>
    intro _
    show ((r.toLy 0).stat &&& ~~~3 ||| 2) &&& 3 = 2
    rw [BitVec.and_or_distrib_right, andNot_and_self]
    decide

/-! ## The coincidence flag -/

/-- Bit 2 of STAT says whether LY is LYC. -/
def Coincides (r : Status) : Prop := r.on = true → (bit r.stat 0x4 = true ↔ r.ly = r.lyc)

theorem toLy_bit (r : Status) : bit (r.toLy value).stat 0x4 = decide (value = r.lyc) := by
  rw [toLy_stat]
  split
  case isTrue he => rw [bit_or_self _ (by decide), decide_eq_true he]
  case isFalse he => rw [bit_andNot_self, decide_eq_false he]

/-- An assignment to LY by `set_ly` makes the flag right. -/
theorem coincides_toLy (r : Status) : (r.toLy value).Coincides := by
  intro _
  rw [toLy_bit, toLy_ly, toLy_lyc, decide_eq_true_eq]

/-- **Every change of phase** keeps the flag right: it sets LY by `set_ly`, or
leaves LY, LYC and the flag. -/
theorem Coincides.next (h : r.Coincides) : r.next.Coincides := by
  have hline (mode : PpuMode) (bits : U8) (hb : bits &&& 0x4 = 0) (value : U8) :
      ((r.toLy value).enter mode bits).Coincides := by
    intro hon
    rw [enter_stat, enter_ly, enter_lyc, bit_or _ _ _ hb]
    exact coincides_toLy value r hon
  unfold Status.next
  split
  case h_1 =>
    intro hon
    rw [enter_stat, enter_ly, enter_lyc, bit_or _ _ _ (by decide)]
    exact h hon
  case h_2 =>
    intro hon
    show bit (r.stat &&& ~~~3) 0x4 = true ↔ r.ly = r.lyc
    rw [bit_andNot _ _ _ (by decide)]
    exact h hon
  case h_3 =>
    split
    · intro hon
      have := hline .vblank 1 (by decide) (r.ly + 1)
      simp only [Coincides, intr_on, intr_stat, intr_ly, intr_lyc] at hon this ⊢
      exact this hon
    · intro hon
      have := hline .oam 2 (by decide) (r.ly + 1)
      simp only [Coincides, intr_on, intr_stat, intr_ly, intr_lyc] at hon this ⊢
      exact this hon
  case h_4 =>
    intro hon
    show bit ((r.toLy 0).stat &&& ~~~3 ||| 2) 0x4 = true ↔ (r.toLy 0).ly = (r.toLy 0).lyc
    rw [bit_or _ _ _ (by decide), bit_andNot _ _ _ (by decide)]
    exact coincides_toLy 0 r hon

end Status

/-- The value read at 0xff41 has the mode in its low bits. -/
def ModeMirrored (s : Emu) : Prop :=
  bit s.ppu.regs.lcdc 0x80 = true → monitorRdMem s 0xff41 &&& 3 = modeBits s.ppu.mode

/-- A store to STAT while the LCD is on is of the mode, and the LCD is switched
on with mode 2 in STAT. -/
def ModeStoreOk (s : Emu) : Action → Prop
  | .write addr value =>
    (addr = 0xff41 → bit s.ppu.regs.lcdc 0x80 = true → value &&& 3 = modeBits s.ppu.mode) ∧
      (addr = 0xff40 → bit value 0x80 = true → bit s.ppu.regs.lcdc 0x80 = false →
        s.ppu.regs.stat &&& 3 = 2)
  | _ => True

instance (s : Emu) (a : Action) : Decidable (ModeStoreOk s a) := by
  cases a
  case write => exact inferInstanceAs (Decidable ((_ → _ → _) ∧ (_ → _ → _ → _)))
  all_goals exact inferInstanceAs (Decidable True)

theorem StatusRefresh.mirrored {ticks : U8} {s : Emu} {r : Status} (h : StatusRefresh ticks s r)
    (hm : s.status.Mirrored) : r.Mirrored := by
  cases h with
  | off | same => exact hm
  | next => exact hm.next
  | line => exact hm.toLy _

theorem modeMirrored_act {s : Emu} {a : Action} (h : ModeMirrored s) (ha : BusAction s a)
    (hok : ModeStoreOk s a) : ModeMirrored (s.act a) := by
  have hm : s.status.Mirrored := h
  cases a with
  | exec => exact ha.elim
  | refresh ticks => exact (ppuRefresh_status ticks s).mirrored hm
  | write addr value =>
      have hw := monitorWrMem_status addr value s
      show (monitorWrMem addr value s).status.Mirrored
      generalize (monitorWrMem addr value s).status = r at hw ⊢
      cases hw with
      | same | ly | lyc => exact hm
      | stat ha => exact fun hon => hok.1 ha hon
      | on ha hv hoff => exact fun _ => hok.2 ha hv hoff
      | off => exact nofun

theorem not_modeMirrored_act {s : Emu} {a : Action} (hok : ¬ ModeStoreOk s a) :
    ¬ ModeMirrored (s.act a) := by
  cases a with
  | exec | refresh => exact absurd trivial hok
  | write addr value =>
      intro h
      have hw := monitorWrMem_status addr value s
      have h : (monitorWrMem addr value s).status.Mirrored := h
      generalize (monitorWrMem addr value s).status = r at hw h
      refine hok ⟨fun ha hon => ?_, fun ha hv hoff => ?_⟩
      · cases hw with
        | stat => exact h hon
        | same _ hne => exact absurd ha hne
        | ly ha' | lyc ha' | on ha' | off ha' => exact absurd (ha.symm.trans ha') (by decide)
      · cases hw with
        | on => exact h rfl
        | same _ _ _ _ he => exact absurd ((hv.symm.trans (he ha)).trans hoff) (by decide)
        | off _ hv' => exact absurd (hv.symm.trans hv') (by decide)
        | stat ha' | ly ha' | lyc ha' => exact absurd (ha.symm.trans ha') (by decide)

theorem lcdOff_powerOn (rom boot : Array U8) :
    ¬ bit (powerOn rom boot).ppu.regs.lcdc 0x80 = true := by
  show ¬ bit 0 0x80 = true
  decide

/-- **STAT mirrors the mode**, in every state of a run of bus writes and
refreshes, if and only if the stores leave the mode in it. -/
theorem modeMirrored_iff (rom boot : Array U8) (acts : List Action)
    (h : Runs.Steps Emu.act BusAction (powerOn rom boot) acts) :
    (∀ s ∈ (powerOn rom boot).states acts, ModeMirrored s) ↔
      Runs.Steps Emu.act ModeStoreOk (powerOn rom boot) acts :=
  Runs.forall_states_iff (I := ModeMirrored) (fun _ hs => hs)
    (fun _ _ hs ha hok => modeMirrored_act hs ha hok)
    (fun _ _ _ _ hok => not_modeMirrored_act hok)
    (fun hon => absurd hon (lcdOff_powerOn rom boot)) h

/-- The LCD is switched on with 2 in STAT, and the mode changes. -/
def mirroredStores : List Action :=
  [.write 0xff41 0x2a, .write 0xff40 0x80, .refresh 6, .refresh 6, .refresh 6, .refresh 6,
    .write 0xff41 0x03]

theorem modeMirrored_stores :
    Runs.Steps Emu.act ModeStoreOk (powerOn #[] #[]) mirroredStores ∧
      ∀ s ∈ (powerOn #[] #[]).states mirroredStores, ModeMirrored s := by
  have hok : Runs.Steps Emu.act ModeStoreOk (powerOn #[] #[]) mirroredStores := by
    refine ⟨?_, ?_, trivial, trivial, trivial, trivial, ?_, trivial⟩
    · decide +kernel
    · decide +kernel
    · decide +kernel
  refine ⟨hok, (modeMirrored_iff #[] #[] mirroredStores ?_).mpr hok⟩
  exact ⟨trivial, trivial, trivial, trivial, trivial, trivial, trivial, trivial⟩

/-- At power-on STAT is 0; the LCD is switched on in mode OAM. -/
theorem not_modeMirrored_lcdOn :
    ¬ ∀ (rom boot : Array U8) (acts : List Action),
      Runs.Steps Emu.act BusAction (powerOn rom boot) acts →
        ∀ s ∈ (powerOn rom boot).states acts, ModeMirrored s := by
  intro h
  have hm := h #[] #[] [.write 0xff40 0x80] ⟨trivial, trivial⟩ _ (Runs.run_mem_states _ _)
  have hread : monitorRdMem (Runs.run Emu.act (powerOn #[] #[]) [.write 0xff40 0x80]) 0xff41 &&& 3 ≠
      modeBits (Runs.run Emu.act (powerOn #[] #[]) [.write 0xff40 0x80]).ppu.mode := by
    decide +kernel
  exact hread (hm (by decide +kernel))

/-! ## LY = LYC -/

/-- Bit 2 of the value read at 0xff41 says whether LY is LYC. -/
def LycCoincides (s : Emu) : Prop :=
  bit s.ppu.regs.lcdc 0x80 = true →
    (bit (monitorRdMem s 0xff41) 0x4 = true ↔ s.ppu.regs.ly = s.ppu.regs.lyc)

/-- A store to STAT, LY or LYC while the LCD is on leaves the flag right, and
the LCD is switched on with the flag right for LY 0. -/
def LycStoreOk (s : Emu) : Action → Prop
  | .write addr value =>
    let regs := s.ppu.regs
    (bit regs.lcdc 0x80 = true →
      (addr = 0xff41 → (bit value 0x4 = true ↔ regs.ly = regs.lyc)) ∧
      (addr = 0xff44 → (bit regs.stat 0x4 = true ↔ value = regs.lyc)) ∧
      (addr = 0xff45 → (bit regs.stat 0x4 = true ↔ regs.ly = value))) ∧
    (addr = 0xff40 → bit value 0x80 = true → bit regs.lcdc 0x80 = false →
      (bit regs.stat 0x4 = true ↔ 0 = regs.lyc))
  | _ => True

instance (s : Emu) (a : Action) : Decidable (LycStoreOk s a) := by
  cases a
  case write =>
    exact inferInstanceAs (Decidable
      ((_ → (_ → (_ ↔ _)) ∧ (_ → (_ ↔ _)) ∧ (_ → (_ ↔ _))) ∧ (_ → _ → _ → (_ ↔ _))))
  all_goals exact inferInstanceAs (Decidable True)

theorem StatusRefresh.coincides {ticks : U8} {s : Emu} {r : Status} (h : StatusRefresh ticks s r)
    (hc : s.status.Coincides) : r.Coincides := by
  cases h with
  | off | same => exact hc
  | next => exact hc.next
  | line => exact Status.coincides_toLy _ _

theorem lycCoincides_act {s : Emu} {a : Action} (h : LycCoincides s) (ha : BusAction s a)
    (hok : LycStoreOk s a) : LycCoincides (s.act a) := by
  have hc : s.status.Coincides := h
  cases a with
  | exec => exact ha.elim
  | refresh ticks => exact (ppuRefresh_status ticks s).coincides hc
  | write addr value =>
      have hw := monitorWrMem_status addr value s
      show (monitorWrMem addr value s).status.Coincides
      generalize (monitorWrMem addr value s).status = r at hw ⊢
      cases hw with
      | same => exact hc
      | stat ha => exact fun hon => (hok.1 hon).1 ha
      | ly ha => exact fun hon => (hok.1 hon).2.1 ha
      | lyc ha => exact fun hon => (hok.1 hon).2.2 ha
      | on ha hv hoff => exact fun _ => hok.2 ha hv hoff
      | off => exact nofun

theorem not_lycCoincides_act {s : Emu} {a : Action} (hok : ¬ LycStoreOk s a) :
    ¬ LycCoincides (s.act a) := by
  cases a with
  | exec | refresh => exact absurd trivial hok
  | write addr value =>
      intro h
      have hw := monitorWrMem_status addr value s
      have h : (monitorWrMem addr value s).status.Coincides := h
      generalize (monitorWrMem addr value s).status = r at hw h
      refine hok ⟨fun hon => ⟨fun ha => ?_, fun ha => ?_, fun ha => ?_⟩, fun ha hv hoff => ?_⟩
      · cases hw with
        | stat => exact h hon
        | same _ hne => exact absurd ha hne
        | ly ha' | lyc ha' | on ha' | off ha' => exact absurd (ha.symm.trans ha') (by decide)
      · cases hw with
        | ly => exact h hon
        | same _ _ hne => exact absurd ha hne
        | stat ha' | lyc ha' | on ha' | off ha' => exact absurd (ha.symm.trans ha') (by decide)
      · cases hw with
        | lyc => exact h hon
        | same _ _ _ hne => exact absurd ha hne
        | stat ha' | ly ha' | on ha' | off ha' => exact absurd (ha.symm.trans ha') (by decide)
      · cases hw with
        | on => exact h rfl
        | same _ _ _ _ he => exact absurd ((hv.symm.trans (he ha)).trans hoff) (by decide)
        | off _ hv' => exact absurd (hv.symm.trans hv') (by decide)
        | stat ha' | ly ha' | lyc ha' => exact absurd (ha.symm.trans ha') (by decide)

/-- **The coincidence flag** is right in every state of a run of bus writes and
refreshes if and only if the stores leave it right. -/
theorem lycCoincides_iff (rom boot : Array U8) (acts : List Action)
    (h : Runs.Steps Emu.act BusAction (powerOn rom boot) acts) :
    (∀ s ∈ (powerOn rom boot).states acts, LycCoincides s) ↔
      Runs.Steps Emu.act LycStoreOk (powerOn rom boot) acts :=
  Runs.forall_states_iff (I := LycCoincides) (fun _ hs => hs)
    (fun _ _ hs ha hok => lycCoincides_act hs ha hok)
    (fun _ _ _ _ hok => not_lycCoincides_act hok)
    (fun hon => absurd hon (lcdOff_powerOn rom boot)) h

/-- LYC is stored while the LCD is off, and again while it is on; LY is neither. -/
def coincidingStores : List Action :=
  [.write 0xff45 7, .write 0xff40 0x80, .refresh 6, .refresh 6, .write 0xff45 9]

theorem lycCoincides_stores :
    Runs.Steps Emu.act LycStoreOk (powerOn #[] #[]) coincidingStores ∧
      ∀ s ∈ (powerOn #[] #[]).states coincidingStores, LycCoincides s := by
  have hok : Runs.Steps Emu.act LycStoreOk (powerOn #[] #[]) coincidingStores := by
    refine ⟨?_, ?_, trivial, trivial, ?_, trivial⟩
    · decide +kernel
    · decide +kernel
    · decide +kernel
  refine ⟨hok, (lycCoincides_iff #[] #[] coincidingStores ?_).mpr hok⟩
  exact ⟨trivial, trivial, trivial, trivial, trivial, trivial⟩

/-- At power-on LY and LYC are both 0, and the flag is clear. -/
theorem not_lycCoincides_lcdOn :
    ¬ ∀ (rom boot : Array U8) (acts : List Action),
      Runs.Steps Emu.act BusAction (powerOn rom boot) acts →
        ∀ s ∈ (powerOn rom boot).states acts, LycCoincides s := by
  intro h
  have hc := h #[] #[] [.write 0xff40 0x80] ⟨trivial, trivial⟩ _ (Runs.run_mem_states _ _)
  have hflag : ¬ (bit (monitorRdMem (Runs.run Emu.act (powerOn #[] #[]) [.write 0xff40 0x80])
        0xff41) 0x4 = true ↔
      (Runs.run Emu.act (powerOn #[] #[]) [.write 0xff40 0x80]).ppu.regs.ly =
        (Runs.run Emu.act (powerOn #[] #[]) [.write 0xff40 0x80]).ppu.regs.lyc) := by
    decide +kernel
  exact hflag (hc (by decide +kernel))

/-! ## The interrupts of the modes -/

/-- The bit of STAT that enables the interrupt of a mode; DRAW has none. -/
def statIntrMask : PpuMode → U8
  | .hblank => 0x08
  | .vblank => 0x10
  | .oam => 0x20
  | .draw => 0

/-- A refresh that changes the mode requests the LCD interrupt if STAT enables
it for the new mode. -/
def ModeIntr (ticks : U8) (s : Emu) : Prop :=
  (ppuRefresh ticks s).ppu.mode ≠ s.ppu.mode →
    bit s.ppu.regs.stat (statIntrMask (ppuRefresh ticks s).ppu.mode) = true →
      bit (ppuRefresh ticks s).cpu.ifReg 0x2 = true

/-- The changes of mode that do not ask: the end of DRAW with the HBLANK
interrupt enabled, and the end of vblank with the OAM interrupt enabled, where
LY 0 is not LYC with that interrupt enabled.  The request may be there already. -/
def MissedIntr (ticks : U8) (s : Emu) : Prop :=
  PhaseEnds ticks s ∧ bit s.cpu.ifReg 0x2 = false ∧
    ((s.ppu.mode = .draw ∧ bit s.ppu.regs.stat 0x08 = true) ∨
      (s.ppu.mode = .vblank ∧ bit s.ppu.regs.stat 0x20 = true ∧
        ¬ (s.ppu.regs.lyc = 0 ∧ bit s.ppu.regs.stat 0x40 = true)))

namespace Status

/-- The LCD interrupt is requested. -/
def Asks (r : Status) : Prop := bit r.ifReg 0x2 = true

theorem asks_intr (mask : U8) (r : Status) :
    (r.intr mask).Asks ↔ bit r.stat mask = true ∨ r.Asks := by
  unfold intr Asks
  split
  case isTrue h => exact ⟨fun _ => .inl h, fun _ => bit_or_self _ (by decide)⟩
  case isFalse h => simp [h]

theorem asks_vblank (r : Status) : ({ r with ifReg := r.ifReg ||| 0x1 } : Status).Asks ↔ r.Asks := by
  show bit (r.ifReg ||| 0x1) 0x2 = true ↔ bit r.ifReg 0x2 = true
  rw [bit_or _ _ _ (by decide)]

/-- An assignment to LY asks for the interrupt of LY = LYC. -/
theorem asks_toLy (value : U8) (r : Status) :
    (r.toLy value).Asks ↔ (r.lyc = value ∧ bit r.stat 0x40 = true) ∨ r.Asks := by
  unfold toLy
  split
  case isTrue h =>
    rw [asks_intr, bit_or _ _ _ (by decide)]
    simp [h, Asks]
  case isFalse h =>
    have h : r.lyc ≠ value := Ne.symm h
    simp [h, Asks]

theorem toLy_bit_of (value mask : U8) (h : 0x4 &&& mask = 0) (r : Status) :
    bit (r.toLy value).stat mask = bit r.stat mask := by
  rw [toLy_stat]
  split
  · exact bit_or _ _ _ h
  · exact bit_andNot _ _ _ h

/-- The changes of mode that do not ask, of the phase that ends. -/
def Misses (r : Status) : Prop :=
  bit r.ifReg 0x2 = false ∧
    ((r.mode = .draw ∧ bit r.stat 0x08 = true) ∨
      (r.mode = .vblank ∧ bit r.stat 0x20 = true ∧ ¬ (r.lyc = 0 ∧ bit r.stat 0x40 = true)))

theorem next_mode_ne (r : Status) : r.next.mode ≠ r.mode := by
  unfold next
  split
  case h_1 hm | h_2 hm | h_4 hm =>
    rw [hm]
    nofun
  case h_3 hm =>
    rw [hm]
    split
    · simp
    · simp

/-- What the end of a phase does about the LCD interrupt. -/
theorem next_intr (r : Status) :
    (bit r.stat (statIntrMask r.next.mode) = true → r.next.Asks) ↔ ¬ r.Misses := by
  unfold next
  split
  case h_1 hm =>
    refine ⟨fun _ hmiss => ?_, fun _ hb => ?_⟩
    · rcases hmiss.2 with ⟨h, -⟩ | ⟨h, -⟩
      · cases hm.symm.trans h
      · cases hm.symm.trans h
    · exact absurd hb (by simp [statIntrMask, bit])
  case h_2 hm =>
    simp [statIntrMask, Misses, hm, Asks, imp_iff_not_or, or_comm]
  case h_3 hm =>
    refine ⟨fun _ hmiss => ?_, fun _ => ?_⟩
    · rcases hmiss.2 with ⟨h, -⟩ | ⟨h, -⟩
      · cases hm.symm.trans h
      · cases hm.symm.trans h
    · split
      case isTrue =>
        intro hb
        simp only [intr_mode, enter_mode, statIntrMask] at hb
        rw [asks_vblank, asks_intr]
        refine .inl ?_
        rw [enter_stat, bit_or _ _ _ (by decide), toLy_bit_of _ _ (by decide)]
        exact hb
      case isFalse =>
        intro hb
        simp only [intr_mode, enter_mode, statIntrMask] at hb
        rw [asks_intr]
        refine .inl ?_
        rw [enter_stat, bit_or _ _ _ (by decide), toLy_bit_of _ _ (by decide)]
        exact hb
  case h_4 hm =>
    show (bit r.stat 0x20 = true → (r.toLy 0).Asks) ↔ _
    rw [asks_toLy]
    constructor
    · rintro himp ⟨hif, ⟨h, -⟩ | ⟨-, hen, hlyc⟩⟩
      · cases hm.symm.trans h
      · rcases himp hen with h | h
        · exact hlyc h
        · cases hif.symm.trans h
    · intro hmiss hen
      by_cases hif : r.Asks
      · exact .inr hif
      · refine .inl (not_not.mp fun hlyc => hmiss ⟨?_, .inr ⟨hm, hen, hlyc⟩⟩)
        exact Bool.eq_false_iff.mpr hif

end Status

/-- **The interrupts of the modes** are requested if and only if the refresh is
not one of those that do not ask. -/
theorem modeIntr_iff (ticks : U8) (s : Emu) (hon : bit s.ppu.regs.lcdc 0x80 = true) :
    ModeIntr ticks s ↔ ¬ MissedIntr ticks s := by
  have hrefresh := ppuRefresh_status ticks s
  show ((ppuRefresh ticks s).status.mode ≠ s.status.mode →
    bit s.status.stat (statIntrMask (ppuRefresh ticks s).status.mode) = true →
      (ppuRefresh ticks s).status.Asks) ↔ ¬ (PhaseEnds ticks s ∧ s.status.Misses)
  generalize (ppuRefresh ticks s).status = r at hrefresh ⊢
  cases hrefresh with
  | off hoff => exact absurd (hoff.symm.trans hon) nofun
  | next hends =>
      have hintr := s.status.next_intr
      have hmode := s.status.next_mode_ne
      constructor
      · exact fun h hmiss => hintr.mp (h hmode) hmiss.2
      · exact fun h _ => hintr.mpr fun hmiss => h ⟨hends, hmiss⟩
  | same hnot => exact ⟨fun _ h => hnot h.1, fun _ hne => absurd rfl hne⟩
  | line hnot => exact ⟨fun _ h => hnot h.1, fun _ hne => absurd (Status.toLy_mode ..) hne⟩

/-- Power-on with the LCD on, in a phase of which 12 dots are left. -/
def phaseEnding (mode : PpuMode) (stat : U8) : Emu :=
  let s := (powerOn #[] #[]).updPpuRegs fun r => { r with lcdc := 0x80, stat := stat }
  (s.setMode mode).updDots fun _ => 12

/-- The end of hblank asks for the OAM interrupt. -/
theorem modeIntr_hblankEnding :
    (ppuRefresh 6 (phaseEnding .hblank 0x20)).ppu.mode = .oam ∧
      ModeIntr 6 (phaseEnding .hblank 0x20) := by
  refine ⟨by decide +kernel, (modeIntr_iff 6 _ (by decide)).mpr ?_⟩
  rintro ⟨-, -, ⟨hm, -⟩ | ⟨hm, -⟩⟩
  · exact nomatch hm
  · exact nomatch hm

/-- The end of DRAW does not ask for the HBLANK interrupt. -/
theorem not_modeIntr_drawEnding :
    ¬ ∀ (ticks : U8) (s : Emu), bit s.ppu.regs.lcdc 0x80 = true → ModeIntr ticks s := by
  intro h
  have hmode : (ppuRefresh 6 (phaseEnding .draw 0x08)).ppu.mode = .hblank := by decide +kernel
  have hask : bit (ppuRefresh 6 (phaseEnding .draw 0x08)).cpu.ifReg 0x2 = false := by
    decide +kernel
  have hintr := h 6 (phaseEnding .draw 0x08) (by decide)
  unfold ModeIntr at hintr
  rw [hmode, hask] at hintr
  exact nomatch hintr nofun rfl

end RealBoy
