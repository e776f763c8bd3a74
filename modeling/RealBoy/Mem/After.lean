/-
# `RealBoy.Mem.After` — what every address reads after a write

`readAfter` is the memory map seen from one bus write: for each address the byte
it reads once the value is written, from the state before.  Memory holds what is
written and nothing else moves; a register holds the bits it has; three writes
reach other addresses, a bank select, the start of a DMA transfer and the LCD
being switched.  `monitorRdMem_after` says that the two functions of the bus
agree with the map, everywhere.
-/
import RealBoy.Emu.Dma
import RealBoy.Mem.Cartridge

namespace RealBoy

open Emu ByteFile

/-! ## The map -/

/-- The byte of the cartridge at `x < 0x8000`.  Where the ROM file ends before
the byte, the old one stays. -/
def romAfter (m : Mbc1) (a : U16) (v : U8) (x : Nat) : U8 :=
  if a = 0xff50 ∧ x < 0x256 then m.rom.bytes.getD x (m.mbc1Rom x)
  else if IsSelect a ∧ 0x4000 ≤ x then
    m.rom.bytes.getD (0x4000 * mapsBank v + (x - 0x4000)) (m.mbc1Rom x)
  else m.mbc1Rom x

/-- The byte at the address that was written. -/
def ownAfter (s : Emu) (a : U16) (v : U8) : U8 :=
  if a = 0xff00 then rdJoypad { s with tmpIoregs := fun _ => v &&& 0x30 }
  else if a = 0xff04 then 0
  else if a = 0xff07 then v &&& 0x7
  else if a = 0xff0f then v &&& 0x1f
  else if a = 0xff46 then s.ppu.regs.dma
  else if a = 0xff50 then (if v = 0 then 0 else 1)
  else v

/-- A write to LCDC that switches the LCD. -/
def SwitchesLcd (s : Emu) (a : U16) (v : U8) : Prop :=
  a = 0xff40 ∧ s.ppu.regs.lcdc &&& 0x80 ≠ v &&& 0x80

instance (s : Emu) (a : U16) (v : U8) : Decidable (SwitchesLcd s a v) :=
  inferInstanceAs (Decidable (_ ∧ _))

/-- The byte that reads at `x` after `v` is written to `a`. -/
def readAfter (s : Emu) (a : U16) (v : U8) (x : U16) : U8 :=
  if x ≤ 0x7fff then romAfter s.mbc1 a v x.toNat
  else if x = a then ownAfter s a v
  else if a = 0xff46 ∧ (0xfe00 ≤ x ∧ x ≤ 0xfe9f) then
    monitorRdMem s (v.setWidth 16 * 0x100 + (x - 0xfe00))
  else if SwitchesLcd s a v ∧ x = 0xff44 then 0
  else if SwitchesLcd s a v ∧ v &&& 0x80 = 0 ∧ x = 0xff41 then s.ppu.regs.stat &&& ~~~3
  else monitorRdMem s x

/-! ## The cartridge -/

theorem mbc1WrMem_rom (a : U16) (v : U8) (m : Mbc1) (x : Nat) (hx : x < 0x8000) :
    (mbc1WrMem a v m).mbc1Rom x = romAfter m a v x := by
  unfold romAfter
  by_cases hunmap : a = 0xff50
  · subst hunmap
    have hsel : ¬ (IsSelect 0xff50 ∧ 0x4000 ≤ x) := fun h => absurd h.1 (by decide)
    rw [if_neg hsel]
    show fread m.mbc1Rom 0 0x256 (fseek m.rom 0) x = _
    by_cases hlow : x < 0x256
    · rw [if_pos ⟨rfl, hlow⟩, fread_getD m.mbc1Rom (Nat.zero_le x) (by omega), fseek_pos,
        fseek_bytes, Nat.zero_add, Nat.sub_zero]
    · rw [if_neg fun h => hlow h.2, fread_outside m.mbc1Rom (.inr (by omega))]
  · rw [if_neg fun h => hunmap h.1, mbc1WrMem, if_neg hunmap]
    dsimp only
    have hram : (if a ≥ 0x8000 then
        { m with mbc1Ram := Function.update m.mbc1Ram (a - 0xa000).toNat v } else m) =
        { m with mbc1Ram := if a ≥ 0x8000 then
            Function.update m.mbc1Ram (a - 0xa000).toNat v else m.mbc1Ram } := by
      split <;> rfl
    rw [hram]
    by_cases hsel : IsSelect a
    · rw [if_pos (show a ≥ 0x2000 ∧ a ≤ 0x3fff from hsel)]
      show fread m.mbc1Rom 0x4000 0x4000 (fseek m.rom (0x4000 * mapsBank v)) x = _
      by_cases hhigh : 0x4000 ≤ x
      · rw [if_pos ⟨hsel, hhigh⟩, fread_getD m.mbc1Rom hhigh (by omega), fseek_pos, fseek_bytes]
      · rw [if_neg fun h => hhigh h.2, fread_outside m.mbc1Rom (.inl (by omega))]
    · have hno : ¬ (IsSelect a ∧ 0x4000 ≤ x) := fun h => hsel h.1
      rw [if_neg (show ¬ (a ≥ 0x2000 ∧ a ≤ 0x3fff) from hsel), if_neg hno]

/-- The ROM after a write. -/
theorem monitorRdMem_rom_after (s : Emu) (a : U16) (v : U8) {x : U16} (hx : x ≤ 0x7fff) :
    monitorRdMem (monitorWrMem a v s) x = romAfter s.mbc1 a v x.toNat := by
  rw [monitorRdMem_low hx, monitorWrMem_mbc1]
  by_cases hcart : CartRange a
  · rw [if_pos hcart, mbc1WrMem_rom a v s.mbc1 x.toNat (by bv_omega)]
  · have hunmap : ¬ (a = 0xff50 ∧ x.toNat < 0x256) := fun h => hcart (.inl h.1)
    have hsel : ¬ (IsSelect a ∧ 0x4000 ≤ x.toNat) := fun h => by
      obtain ⟨h, -⟩ := h
      unfold IsSelect at h
      exact hcart (.inr (.inl (by bv_omega)))
    rw [if_neg hcart, romAfter, if_neg hunmap, if_neg hsel]

/-! ## The registers -/

theorem monitorRdMem_updCpu {s : Emu} {f : CpuState → CpuState} {x : U16}
    (h : cpuRd (s.updCpu f) x = cpuRd s x) :
    monitorRdMem (s.updCpu f) x = monitorRdMem s x := by
  unfold monitorRdMem
  rw [h]
  rfl

theorem monitorRdMem_updPpuRegs {s : Emu} {f : PpuRegs → PpuRegs} {x : U16}
    (h : rdReg (f s.ppu.regs) x = rdReg s.ppu.regs x) :
    monitorRdMem (s.updPpuRegs f) x = monitorRdMem s x := by
  have hppu : ppuRd (s.updPpuRegs f).ppu x = ppuRd s.ppu x := by
    unfold ppuRd
    rw [← h]
    rfl
  unfold monitorRdMem
  rw [hppu]
  rfl

theorem monitorRdMem_ioreg (s : Emu) {a x : U16} (w : U8) (h : x ≠ a) :
    monitorRdMem { s with tmpIoregs := Function.update s.tmpIoregs a.toNat w } x =
      monitorRdMem s x := by
  have hne : x.toNat ≠ a.toNat := fun he => h (BitVec.eq_of_toNat_eq he)
  have hown : Function.update s.tmpIoregs a.toNat w x.toNat = s.tmpIoregs x.toNat :=
    Function.update_of_ne hne _ _
  unfold monitorRdMem
  by_cases hjoy : x = 0xff00
  · subst hjoy
    have hkeys : rdJoypad { s with tmpIoregs := Function.update s.tmpIoregs a.toNat w } =
        rdJoypad s := by
      unfold rdJoypad
      dsimp only
      rw [show (0xff00 : Nat) = (0xff00 : U16).toNat from rfl, hown]
    rw [hkeys]
    rfl
  · rw [if_neg hjoy, if_neg hjoy]
    dsimp only
    rw [hown]
    rfl

/-- Writes to the cartridge are not seen above it. -/
theorem monitorRdMem_updMbc1 {s : Emu} {f : Mbc1 → Mbc1} {x : U16} (hx : ¬ x ≤ 0x7fff)
    (hram : (f s.mbc1).mbc1Ram = s.mbc1.mbc1Ram) :
    monitorRdMem (s.updMbc1 f) x = monitorRdMem s x := by
  have hrd (h : x ≤ 0xbfff) (hp : ¬ PpuRange x) :
      mbc1RdMem (f s.mbc1) x = mbc1RdMem s.mbc1 x := by
    unfold PpuRange at hp
    have hrange : x ≥ 0xa000 ∧ x ≤ 0xbfff := by bv_omega
    rw [mbc1RdMem, if_pos hrange, mbc1RdMem, if_pos hrange, hram]
  unfold monitorRdMem
  by_cases hp : PpuRange x
  · rw [if_pos hp, if_pos hp]
    rfl
  · rw [if_neg hp, if_neg hp]
    by_cases hlow : x ≤ 0xbfff
    · rw [if_pos hlow, if_pos hlow]
      rw [show (s.updMbc1 f).mbc1 = f s.mbc1 from rfl, hrd hlow hp]
      rfl
    · rw [if_neg hlow, if_neg hlow]
      rfl

/-! ## Every write -/

section

variable {s : Emu} {a : U16} {v : U8} {x : U16}

/-- A write that reaches only its own address. -/
theorem readAfter_own (hx : ¬ x ≤ 0x7fff) (hdma : a ≠ 0xff46) (hlcdc : a ≠ 0xff40) :
    readAfter s a v x = if x = a then ownAfter s a v else monitorRdMem s x := by
  rw [readAfter, if_neg hx]
  refine if_congr Iff.rfl rfl ?_
  rw [if_neg fun h => hdma h.1, if_neg fun h => hlcdc h.1.1, if_neg fun h => hlcdc h.1.1]

/-- The CPU's registers. -/
theorem after_updCpu {s' : Emu} {f : CpuState → CpuState} (hx : ¬ x ≤ 0x7fff) (hdma : a ≠ 0xff46)
    (hlcdc : a ≠ 0xff40) (hw : s' = (s.log (.monitorWrMem a v)).updCpu f)
    (hown : monitorRdMem (s.updCpu f) a = ownAfter s a v)
    (hrest : x ≠ a → cpuRd (s.updCpu f) x = cpuRd s x) :
    monitorRdMem s' x = readAfter s a v x := by
  rw [readAfter_own hx hdma hlcdc, hw]
  by_cases hxa : x = a
  · rw [if_pos hxa, hxa]
    exact hown
  · rw [if_neg hxa]
    exact monitorRdMem_updCpu (hrest hxa)

/-- The PPU's registers. -/
theorem after_updPpuRegs {s' : Emu} {f : PpuRegs → PpuRegs} (hx : ¬ x ≤ 0x7fff)
    (hdma : a ≠ 0xff46) (hlcdc : a ≠ 0xff40)
    (hw : s' = (s.log (.monitorWrMem a v)).updPpuRegs f)
    (hown : monitorRdMem (s.updPpuRegs f) a = ownAfter s a v)
    (hrest : x ≠ a → rdReg (f s.ppu.regs) x = rdReg s.ppu.regs x) :
    monitorRdMem s' x = readAfter s a v x := by
  rw [readAfter_own hx hdma hlcdc, hw]
  by_cases hxa : x = a
  · rw [if_pos hxa, hxa]
    exact hown
  · rw [if_neg hxa]
    exact monitorRdMem_updPpuRegs (hrest hxa)

/-- The registers nobody implements. -/
theorem after_ioreg {s' : Emu} {w : U8} (hx : ¬ x ≤ 0x7fff) (hdma : a ≠ 0xff46)
    (hlcdc : a ≠ 0xff40)
    (hw : s' = { s.log (.monitorWrMem a v) with
      tmpIoregs := Function.update s.tmpIoregs a.toNat w })
    (hown : monitorRdMem { s with tmpIoregs := Function.update s.tmpIoregs a.toNat w } a =
      ownAfter s a v) :
    monitorRdMem s' x = readAfter s a v x := by
  rw [readAfter_own hx hdma hlcdc, hw]
  by_cases hxa : x = a
  · rw [if_pos hxa, hxa]
    exact hown
  · rw [if_neg hxa]
    exact monitorRdMem_ioreg s w hxa

/-- A write to memory. -/
theorem after_memory (ha : IsMemory a) (hx : ¬ x ≤ 0x7fff) :
    monitorRdMem (monitorWrMem a v s) x = readAfter s a v x := by
  rw [monitorRdMem_monitorWrMem ha]
  unfold IsMemory at ha
  have hown : ownAfter s a v = v := by
    rw [ownAfter, if_neg (by bv_omega), if_neg (by bv_omega), if_neg (by bv_omega),
      if_neg (by bv_omega), if_neg (by bv_omega), if_neg (by bv_omega)]
  rw [readAfter_own hx (by bv_omega) (by bv_omega), hown]

/-- A write to the cartridge's registers. -/
theorem after_select (ha : a ≤ 0x7fff) (hx : ¬ x ≤ 0x7fff) :
    monitorRdMem (monitorWrMem a v s) x = readAfter s a v x := by
  have hw : monitorWrMem a v s = (s.log (.monitorWrMem a v)).updMbc1 (mbc1WrMem a v) := by
    rw [monitorWrMem_eq, monitorWrMemWith, if_neg (by bv_omega), if_neg (by bv_omega),
      if_neg (by bv_omega), if_neg (by bv_omega), if_neg (by bv_omega), if_neg (by bv_omega),
      if_neg (by bv_omega), if_neg (by unfold PpuRange; bv_omega), if_neg (by bv_omega),
      if_neg (by bv_omega), if_pos (by bv_omega)]
  have hram (m : Mbc1) : (mbc1WrMem a v m).mbc1Ram = m.mbc1Ram := by
    rw [mbc1WrMem, if_neg (by bv_omega)]
    dsimp only
    rw [if_neg (show ¬ a ≥ 0x8000 by bv_omega)]
    split <;> rfl
  rw [readAfter_own hx (by bv_omega) (by bv_omega), if_neg (by bv_omega), hw]
  exact monitorRdMem_updMbc1 hx (hram _)

/-- The start of a DMA transfer. -/
theorem after_dma (hx : ¬ x ≤ 0x7fff) :
    monitorRdMem (monitorWrMem 0xff46 v s) x = readAfter s 0xff46 v x := by
  rw [readAfter, if_neg hx]
  by_cases hxa : x = 0xff46
  · rw [if_pos hxa, hxa, monitorRdMem_dma_of_ne v s (by decide)]
    rfl
  rw [if_neg hxa]
  by_cases hoam : 0xfe00 ≤ x ∧ x ≤ 0xfe9f
  · rw [if_pos ⟨rfl, hoam⟩]
    have hi : (x - 0xfe00).toNat < 0xa0 := by bv_omega
    have hdst : dmaAddr (x - 0xfe00).toNat = x := by
      unfold dmaAddr
      bv_omega
    have hcopy := monitorRdMem_dma v s hi
    rw [hdst, dmaSource, BitVec.ofNat_toNat, BitVec.setWidth_eq] at hcopy
    exact hcopy
  · rw [if_neg fun h => hoam h.2, if_neg fun h => absurd h.1.1 (by decide),
      if_neg fun h => absurd h.1.1 (by decide)]
    exact monitorRdMem_dma_of_ne v s hoam

/-- The PPU's registers after a write to LCDC. -/
def lcdcAfter (v : U8) (r : PpuRegs) : PpuRegs :=
  { r with
    lcdc := v
    ly := if r.lcdc &&& 0x80 ≠ v &&& 0x80 then 0 else r.ly
    stat := if r.lcdc &&& 0x80 ≠ v &&& 0x80 ∧ v &&& 0x80 = 0 then r.stat &&& ~~~3 else r.stat }

theorem monitorRdMem_wrLcdc (v : U8) (s : Emu) (x : U16) :
    monitorRdMem (wrLcdc v s) x = monitorRdMem (s.updPpuRegs (lcdcAfter v)) x := by
  unfold wrLcdc updPpuRegs lcdcAfter
  by_cases hsw : s.ppu.regs.lcdc &&& 0x80 ≠ v &&& 0x80
  · by_cases hoff : v &&& 0x80 = 0
    · simp only [updPpu, if_pos hsw, if_pos hoff, if_pos (And.intro hsw hoff)]
      rfl
    · simp only [updPpu, if_pos hsw, if_neg hoff, if_neg fun h : _ ∧ _ => hoff h.2]
      rfl
  · simp only [updPpu, if_neg hsw, if_neg fun h : _ ∧ v &&& 0x80 = 0 => hsw h.1]

/-- A write to LCDC. -/
theorem after_lcdc (hx : ¬ x ≤ 0x7fff) :
    monitorRdMem (monitorWrMem 0xff40 v s) x = readAfter s 0xff40 v x := by
  show monitorRdMem (wrLcdc v (s.log (.monitorWrMem 0xff40 v))) x = _
  have hdma : ¬ ((0xff40 : U16) = 0xff46 ∧ (0xfe00 ≤ x ∧ x ≤ 0xfe9f)) :=
    fun h => absurd h.1 (by decide)
  rw [monitorRdMem_wrLcdc, readAfter, if_neg hx]
  by_cases hown : x = 0xff40
  · rw [if_pos hown, hown]
    rfl
  rw [if_neg hown, if_neg hdma]
  by_cases hly : x = 0xff44
  · subst hly
    by_cases hsw : s.ppu.regs.lcdc &&& 0x80 ≠ v &&& 0x80
    · rw [if_pos ⟨⟨rfl, hsw⟩, rfl⟩]
      exact if_pos hsw
    · rw [if_neg fun h => hsw h.1.2, if_neg fun h => absurd h.2.2 (by decide)]
      exact if_neg hsw
  rw [if_neg fun h => hly h.2]
  by_cases hstat : x = 0xff41
  · subst hstat
    by_cases hoff : s.ppu.regs.lcdc &&& 0x80 ≠ v &&& 0x80 ∧ v &&& 0x80 = 0
    · rw [if_pos ⟨⟨rfl, hoff.1⟩, hoff.2, rfl⟩]
      exact if_pos hoff
    · rw [if_neg fun h => hoff ⟨h.1.2, h.2.1⟩]
      exact if_neg hoff
  rw [if_neg fun h => hstat h.2.2]
  refine (monitorRdMem_updPpuRegs ?_).trans rfl
  simp only [rdReg, if_neg hown, if_neg hly, if_neg hstat]
  rfl

/-- The registers of `cpu_wr`. -/
def IsCpuRegister (a : U16) : Prop :=
  a = 0xffff ∨ a = 0xff0f ∨ a = 0xff04 ∨ a = 0xff05 ∨ a = 0xff06 ∨ a = 0xff07 ∨ a = 0xff50

/-- The registers of the PPU, LCDC and DMA aside. -/
def IsPpuRegister (a : U16) : Prop :=
  a = 0xff41 ∨ a = 0xff42 ∨ a = 0xff43 ∨ a = 0xff44 ∨ a = 0xff45 ∨ a = 0xff47 ∨ a = 0xff48 ∨
    a = 0xff49 ∨ a = 0xff4a ∨ a = 0xff4b

/-- A write to a register of the CPU. -/
theorem after_cpuRegister (ha : IsCpuRegister a) (hx : ¬ x ≤ 0x7fff) :
    monitorRdMem (monitorWrMem a v s) x = readAfter s a v x := by
  rcases ha with rfl | rfl | rfl | rfl | rfl | rfl | rfl
  · refine after_updCpu (f := fun c => { c with ieReg := v })
      hx (by decide) (by decide) rfl rfl fun h => ?_
    simp only [cpuRd, updCpu, if_neg h]
    rfl
  · refine after_updCpu (f := fun c => { c with ifReg := v &&& 0x1f })
      hx (by decide) (by decide) rfl rfl fun h => ?_
    simp only [cpuRd, updCpu, if_neg h]
    rfl
  · refine after_updCpu (f := fun c => { c with divReg := 0 })
      hx (by decide) (by decide) rfl rfl fun h => ?_
    simp only [cpuRd, updCpu, if_neg h]
    rfl
  · refine after_updCpu (f := fun c => { c with timaReg := v })
      hx (by decide) (by decide) rfl rfl fun h => ?_
    simp only [cpuRd, updCpu, if_neg h]
    rfl
  · refine after_updCpu (f := fun c => { c with tmaReg := v })
      hx (by decide) (by decide) rfl rfl fun h => ?_
    simp only [cpuRd, updCpu, if_neg h]
    rfl
  · refine after_updCpu (f := fun c => { c with
      tacReg := v &&& 7, timaEnabled := bit v 0x4, tacDivider := tacDividerOf v })
      hx (by decide) (by decide) rfl rfl fun h => ?_
    simp only [cpuRd, updCpu, if_neg h]
    rfl
  · -- unmapping the boot ROM is a write to the cartridge too
    have hw : monitorWrMem 0xff50 v s = ((s.log (.monitorWrMem 0xff50 v)).updCpu fun c =>
        { c with disableBootrom := v != 0 }).updMbc1 (mbc1WrMem 0xff50 v) := rfl
    rw [hw, monitorRdMem_updMbc1 hx rfl]
    refine after_updCpu (f := fun c => { c with disableBootrom := v != 0 })
      hx (by decide) (by decide) rfl ?_ fun h => ?_
    · show (if (v != 0) = true then (1 : U8) else 0) = if v = 0 then 0 else 1
      by_cases hv : v = 0
      · rw [hv]
        rfl
      · rw [if_neg hv, if_pos (bne_iff_ne.mpr hv)]
    · simp only [cpuRd, updCpu, if_neg h]

/-- A write to a register of the PPU. -/
theorem after_ppuRegister (ha : IsPpuRegister a) (hx : ¬ x ≤ 0x7fff) :
    monitorRdMem (monitorWrMem a v s) x = readAfter s a v x := by
  rcases ha with rfl | rfl | rfl | rfl | rfl | rfl | rfl | rfl | rfl | rfl
  · refine after_updPpuRegs (f := fun r => { r with stat := v })
      hx (by decide) (by decide) rfl rfl fun h => ?_
    simp only [rdReg, if_neg h]
  · refine after_updPpuRegs (f := fun r => { r with scy := v })
      hx (by decide) (by decide) rfl rfl fun h => ?_
    simp only [rdReg, if_neg h]
  · refine after_updPpuRegs (f := fun r => { r with scx := v })
      hx (by decide) (by decide) rfl rfl fun h => ?_
    simp only [rdReg, if_neg h]
  · refine after_updPpuRegs (f := fun r => { r with ly := v })
      hx (by decide) (by decide) rfl rfl fun h => ?_
    simp only [rdReg, if_neg h]
  · refine after_updPpuRegs (f := fun r => { r with lyc := v })
      hx (by decide) (by decide) rfl rfl fun h => ?_
    simp only [rdReg, if_neg h]
  · refine after_updPpuRegs (f := fun r => { r with bgp := v })
      hx (by decide) (by decide) rfl rfl fun h => ?_
    simp only [rdReg, if_neg h]
  · refine after_updPpuRegs (f := fun r => { r with obp0 := v })
      hx (by decide) (by decide) rfl rfl fun h => ?_
    simp only [rdReg, if_neg h]
  · refine after_updPpuRegs (f := fun r => { r with obp1 := v })
      hx (by decide) (by decide) rfl rfl fun h => ?_
    simp only [rdReg, if_neg h]
  · refine after_updPpuRegs (f := fun r => { r with wy := v })
      hx (by decide) (by decide) rfl rfl fun h => ?_
    simp only [rdReg, if_neg h]
  · refine after_updPpuRegs (f := fun r => { r with wx := v })
      hx (by decide) (by decide) rfl rfl fun h => ?_
    simp only [rdReg, if_neg h]

/-- A write to any other address above memory. -/
theorem after_register (ha : ¬ IsMemory a) (hrom : ¬ a ≤ 0x7fff) (hdma : a ≠ 0xff46)
    (hlcdc : a ≠ 0xff40) (hx : ¬ x ≤ 0x7fff) :
    monitorRdMem (monitorWrMem a v s) x = readAfter s a v x := by
  by_cases hcpu : IsCpuRegister a
  · exact after_cpuRegister hcpu hx
  by_cases hregs : IsPpuRegister a
  · exact after_ppuRegister hregs hx
  by_cases hjoy : a = 0xff00
  · subst hjoy
    exact after_ioreg (w := v &&& 0x30) hx hdma hlcdc rfl rfl
  -- a register nobody implements
  simp only [IsCpuRegister, IsPpuRegister, not_or] at hcpu hregs
  obtain ⟨hie, hif, hdiv, htima, htma, htac, hboot⟩ := hcpu
  unfold IsMemory at ha
  have hppu : ¬ PpuRange a := by
    unfold PpuRange
    bv_omega
  have hown : ownAfter s a v = v := by
    rw [ownAfter, if_neg hjoy, if_neg hdiv, if_neg htac, if_neg hif, if_neg hdma, if_neg hboot]
  refine after_ioreg (w := v) hx hdma hlcdc ?_ ?_
  · rw [monitorWrMem_eq, monitorWrMemWith, if_neg hie, if_neg hif, if_neg hdiv, if_neg htima,
      if_neg htma, if_neg htac, if_neg hboot, if_neg hppu, if_neg (by bv_omega),
      if_neg (by bv_omega), if_neg (by bv_omega), if_neg hjoy]
    rfl
  · rw [hown, monitorRdMem, if_neg hppu, if_neg (by bv_omega), if_neg (by bv_omega),
      if_neg (by bv_omega), if_neg (by bv_omega), if_neg hjoy]
    exact Function.update_self ..

/-- **The memory map after a write.**  What every address reads, whichever
address was written. -/
theorem monitorRdMem_after (s : Emu) (a : U16) (v : U8) (x : U16) :
    monitorRdMem (monitorWrMem a v s) x = readAfter s a v x := by
  by_cases hx : x ≤ 0x7fff
  · rw [monitorRdMem_rom_after s a v hx, readAfter, if_pos hx]
  by_cases ha : IsMemory a
  · exact after_memory ha hx
  by_cases hrom : a ≤ 0x7fff
  · exact after_select hrom hx
  by_cases hdma : a = 0xff46
  · subst hdma
    exact after_dma hx
  by_cases hlcdc : a = 0xff40
  · subst hlcdc
    exact after_lcdc hx
  exact after_register ha hrom hdma hlcdc hx

end

end RealBoy
