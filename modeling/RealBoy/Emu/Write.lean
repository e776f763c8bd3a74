/-
# `RealBoy.Emu.Write` — what one bus write can do

`monitorWrMem_eq` closes the recursion of the write side: `monitorWrMem`
satisfies the source's own equation, DMA loop included.  From it come the case
lists the invariants are proved over (`monitorWrMem_cases`, `ppuWr_cases`), and
the frame lemmas: which addresses a variable can be reached from.
-/
import Mathlib.Tactic.Common
import RealBoy.Emu.Bus

namespace RealBoy

open Emu

/-! ## Closing the recursion -/

/-- Only the DMA register looks at what is called back. -/
theorem wrRegWith_congr {f g : U16 → U8 → Emu → Emu} {addr : U16} (h : addr ≠ 0xff46)
    (value : U8) (s : Emu) : wrRegWith f addr value s = wrRegWith g addr value s := by
  simp only [wrRegWith, h, if_false]

theorem ppuWrWith_congr {f g : U16 → U8 → Emu → Emu} {addr : U16} (h : addr ≠ 0xff46)
    (value : U8) (s : Emu) : ppuWrWith f addr value s = ppuWrWith g addr value s := by
  simp only [ppuWrWith, wrRegWith_congr (f := f) (g := g) h]

theorem monitorWrMemWith_congr {f g : U16 → U8 → Emu → Emu} {addr : U16} (h : addr ≠ 0xff46)
    (value : U8) (s : Emu) : monitorWrMemWith f addr value s = monitorWrMemWith g addr value s := by
  simp only [monitorWrMemWith, ppuWrWith_congr (f := f) (g := g) h]

theorem dmaAddr_toNat {i : Nat} (h : i < 0xa0) : (dmaAddr i).toNat = 0xfe00 + i := by
  simp only [dmaAddr]
  bv_omega

theorem dmaAddr_ne {i : Nat} (h : i < 0xa0) : dmaAddr i ≠ 0xff46 := by
  intro he
  have := dmaAddr_toNat h
  rw [he] at this
  simp at this
  omega

theorem foldl_congr_of_mem {σ ι : Type} {f g : σ → ι → σ} :
    ∀ {l : List ι}, (∀ s, ∀ i ∈ l, f s i = g s i) → ∀ s, l.foldl f s = l.foldl g s
  | [], _, _ => rfl
  | i :: l, h, s => by
      rw [List.foldl_cons, List.foldl_cons, h s i List.mem_cons_self]
      exact foldl_congr_of_mem (fun s j hj => h s j (List.mem_cons_of_mem _ hj)) _

theorem dmaLoop_congr {f g : U16 → U8 → Emu → Emu}
    (h : ∀ i < 0xa0, ∀ value s, f (dmaAddr i) value s = g (dmaAddr i) value s)
    (page : U16) (s : Emu) : dmaLoop f page s = dmaLoop g page s :=
  foldl_congr_of_mem (fun s i hi => h i (List.mem_range.mp hi) _ s) s

/-- **The source's equation.**  `monitor_wr_mem` calls itself from the DMA loop
of `wr_reg`, and nowhere else. -/
theorem monitorWrMem_eq (addr : U16) (value : U8) (s : Emu) :
    monitorWrMem addr value s = monitorWrMemWith monitorWrMem addr value s := by
  have hdma (page : U16) (s : Emu) :
      dmaLoop (monitorWrMemWith fun _ _ s => s) page s = dmaLoop monitorWrMem page s :=
    dmaLoop_congr (fun i hi value s => monitorWrMemWith_congr (dmaAddr_ne hi) value s) page s
  by_cases h : addr = 0xff46
  · rw [monitorWrMem]
    simp only [monitorWrMemWith, ppuWrWith, wrRegWith, hdma]
    rfl
  · exact monitorWrMemWith_congr h _ _

/-! ## The cases of a write -/

/-- Two CPU states whose timer registers agree. -/
structure SameTimer (c c' : CpuState) : Prop where
  timaEnabled : c'.timaEnabled = c.timaEnabled
  timaReg : c'.timaReg = c.timaReg
  tmaReg : c'.tmaReg = c.tmaReg
  tacReg : c'.tacReg = c.tacReg
  tacCounter : c'.tacCounter = c.tacCounter
  tacDivider : c'.tacDivider = c.tacDivider

/-- Where a write to the CPU's part of the address space goes. -/
inductive CpuWriteTo (addr : U16) (s : Emu) : Emu → Prop where
  | mem (wram hram : Nat → U8) : CpuWriteTo addr s { s with wram := wram, hram := hram }
  | reg (f : CpuState → CpuState) : (∀ c, SameTimer c (f c)) → CpuWriteTo addr s (s.updCpu f)
  | timer (f : CpuState → CpuState) : addr ≥ 0xff05 → addr ≤ 0xff07 →
      CpuWriteTo addr s (s.updCpu f)

theorem cpuWr_cases (addr : U16) (value : U8) (s : Emu) : CpuWriteTo addr s (cpuWr addr value s) := by
  have same (f : CpuState → CpuState) (h : ∀ c, SameTimer c (f c)) :
      CpuWriteTo addr s (s.updCpu f) := .reg f h
  unfold cpuWr
  refine iteInduction (fun _ => .mem _ s.hram) fun _ => ?_
  refine iteInduction (fun _ => .mem s.wram _) fun _ => ?_
  -- the registers of interrupts and DIV
  refine iteInduction (fun _ => same _ fun c => ⟨rfl, rfl, rfl, rfl, rfl, rfl⟩) fun _ => ?_
  refine iteInduction (fun _ => same _ fun c => ⟨rfl, rfl, rfl, rfl, rfl, rfl⟩) fun _ => ?_
  refine iteInduction (fun _ => same _ fun c => ⟨rfl, rfl, rfl, rfl, rfl, rfl⟩) fun _ => ?_
  -- TIMA, TMA and TAC
  refine iteInduction (fun h => .timer _ (by bv_omega) (by bv_omega)) fun _ => ?_
  refine iteInduction (fun h => .timer _ (by bv_omega) (by bv_omega)) fun _ => ?_
  refine iteInduction (fun h => .timer _ (by bv_omega) (by bv_omega)) fun _ => ?_
  refine iteInduction (fun _ => same _ fun c => ⟨rfl, rfl, rfl, rfl, rfl, rfl⟩) fun _ => ?_
  exact .mem s.wram s.hram

/-- A write to the CPU's part of the address space changes the two memories and
the CPU's registers. -/
theorem cpuWr_frame (addr : U16) (value : U8) (s : Emu) :
    cpuWr addr value s = { s with
      wram := (cpuWr addr value s).wram
      hram := (cpuWr addr value s).hram
      cpu := (cpuWr addr value s).cpu } := by
  have h := cpuWr_cases addr value s
  generalize cpuWr addr value s = s' at h ⊢
  cases h with
  | mem => rfl
  | reg => rfl
  | timer => rfl

/-- Where a bus write goes.  `s` is the state with the call logged. -/
inductive WriteTo (addr : U16) (value : U8) (s : Emu) : Emu → Prop where
  | cpu : ¬ PpuRange addr → addr > 0xbfff → addr ≠ 0xff50 →
      WriteTo addr value s (cpuWr addr value s)
  | unmap : addr = 0xff50 →
      WriteTo addr value s ((cpuWr addr value s).updMbc1 (mbc1WrMem addr value))
  | ppu : PpuRange addr → WriteTo addr value s (ppuWr addr value s)
  | mbc1 : addr < 0x8000 ∨ (addr ≥ 0xa000 ∧ addr ≤ 0xbfff) →
      WriteTo addr value s (s.updMbc1 (mbc1WrMem addr value))
  | ioreg (v : U8) : ¬ PpuRange addr → addr > 0xbfff → addr ≠ 0xff50 →
      addr < 0xff04 ∨ addr > 0xff07 →
      WriteTo addr value s { s with tmpIoregs := Function.update s.tmpIoregs addr.toNat v }

theorem monitorWrMem_cases (addr : U16) (value : U8) (s : Emu) :
    WriteTo addr value (s.log (.monitorWrMem addr value)) (monitorWrMem addr value s) := by
  rw [monitorWrMem_eq, monitorWrMemWith]
  generalize s.log (.monitorWrMem addr value) = s
  have reg (h : addr = 0xffff ∨ addr = 0xff0f ∨ (addr ≥ 0xff04 ∧ addr ≤ 0xff07)) :
      WriteTo addr value s (cpuWr addr value s) := by
    refine .cpu ?_ ?_ ?_
    · unfold PpuRange; bv_omega
    · bv_omega
    · bv_omega
  by_cases h0 : addr = 0xffff
  · rw [if_pos h0]; exact reg (by bv_omega)
  rw [if_neg h0]
  by_cases h1 : addr = 0xff0f
  · rw [if_pos h1]; exact reg (by bv_omega)
  rw [if_neg h1]
  by_cases h2 : addr = 0xff04
  · rw [if_pos h2]; exact reg (by bv_omega)
  rw [if_neg h2]
  by_cases h3 : addr = 0xff05
  · rw [if_pos h3]; exact reg (by bv_omega)
  rw [if_neg h3]
  by_cases h4 : addr = 0xff06
  · rw [if_pos h4]; exact reg (by bv_omega)
  rw [if_neg h4]
  by_cases h5 : addr = 0xff07
  · rw [if_pos h5]; exact reg (by bv_omega)
  rw [if_neg h5]
  by_cases hunmap : addr = 0xff50
  · rw [if_pos hunmap]; exact .unmap hunmap
  rw [if_neg hunmap]
  by_cases hppu : PpuRange addr
  · rw [if_pos hppu]; exact .ppu hppu
  rw [if_neg hppu]
  by_cases hwram : addr ≥ 0xc000 ∧ addr ≤ 0xdfff
  · rw [if_pos hwram]; exact .cpu hppu (by bv_omega) hunmap
  rw [if_neg hwram]
  by_cases hhram : addr ≥ 0xff80 ∧ addr ≤ 0xfffe
  · rw [if_pos hhram]; exact .cpu hppu (by bv_omega) hunmap
  rw [if_neg hhram]
  by_cases hcart : addr ≤ 0xbfff
  · rw [if_pos hcart]
    refine .mbc1 ?_
    unfold PpuRange at hppu
    bv_omega
  rw [if_neg hcart]
  by_cases hjoy : addr = 0xff00
  · rw [if_pos hjoy]; exact .ioreg _ hppu (by bv_omega) hunmap (by bv_omega)
  rw [if_neg hjoy]
  exact .ioreg _ hppu (by bv_omega) hunmap (by bv_omega)

/-- Where a write to the PPU goes. -/
inductive PpuWriteTo (addr : U16) (value : U8) (s : Emu) : Emu → Prop where
  | vram (d m₁ m₂ : Nat → U8) : addr ≤ 0x9fff →
      PpuWriteTo addr value s
        (s.updPpu fun p => { p with tileData := d, tileMap1 := m₁, tileMap2 := m₂ })
  | oam (k : Nat) : k < 0xa0 → addr = dmaAddr k →
      PpuWriteTo addr value s (s.updPpu (oamWr k value))
  | lcdc : addr = 0xff40 → PpuWriteTo addr value s (wrLcdc value s)
  | stat : addr = 0xff41 →
      PpuWriteTo addr value s (s.updPpuRegs fun r => { r with stat := value })
  | ly : addr = 0xff44 →
      PpuWriteTo addr value s (s.updPpuRegs fun r => { r with ly := value })
  | lyc : addr = 0xff45 →
      PpuWriteTo addr value s (s.updPpuRegs fun r => { r with lyc := value })
  | dma : addr = 0xff46 →
      PpuWriteTo addr value s (dmaLoop monitorWrMem (value.setWidth 16 * 0x100) s)
  | other (f : PpuRegs → PpuRegs) : addr ≥ 0xff42 → addr ≤ 0xff4b → addr ≠ 0xff44 →
      (∀ r, (f r).lcdc = r.lcdc ∧ (f r).stat = r.stat ∧ (f r).ly = r.ly ∧ (f r).lyc = r.lyc) →
      PpuWriteTo addr value s (s.updPpuRegs f)

theorem ppuWr_cases {addr : U16} (h : PpuRange addr) (value : U8) (s : Emu) :
    PpuWriteTo addr value s (ppuWr addr value s) := by
  unfold PpuRange at h
  have other (f : PpuRegs → PpuRegs) (h₁ : addr ≥ 0xff42 ∧ addr ≤ 0xff4b ∧ addr ≠ 0xff44)
      (hf : ∀ r, (f r).lcdc = r.lcdc ∧ (f r).stat = r.stat ∧ (f r).ly = r.ly ∧
        (f r).lyc = r.lyc) : PpuWriteTo addr value s (s.updPpuRegs f) :=
    .other f h₁.1 h₁.2.1 h₁.2.2 hf
  rw [ppuWr, ppuWrWith]
  by_cases hreg : addr ≥ 0xff40
  · rw [if_pos hreg, wrRegWith]
    have hi : addr ≤ 0xff4b := by bv_omega
    by_cases hlcdc : addr = 0xff40
    · rw [if_pos hlcdc]; exact .lcdc hlcdc
    rw [if_neg hlcdc]
    by_cases hstat : addr = 0xff41
    · rw [if_pos hstat]; exact .stat hstat
    rw [if_neg hstat]
    by_cases hscy : addr = 0xff42
    · rw [if_pos hscy]; exact other _ (by bv_omega) fun _ => ⟨rfl, rfl, rfl, rfl⟩
    rw [if_neg hscy]
    by_cases hscx : addr = 0xff43
    · rw [if_pos hscx]; exact other _ (by bv_omega) fun _ => ⟨rfl, rfl, rfl, rfl⟩
    rw [if_neg hscx]
    by_cases hly : addr = 0xff44
    · rw [if_pos hly]; exact .ly hly
    rw [if_neg hly]
    by_cases hlyc : addr = 0xff45
    · rw [if_pos hlyc]; exact .lyc hlyc
    rw [if_neg hlyc]
    by_cases hdma : addr = 0xff46
    · rw [if_pos hdma]; exact .dma hdma
    rw [if_neg hdma]
    by_cases hbgp : addr = 0xff47
    · rw [if_pos hbgp]; exact other _ (by bv_omega) fun _ => ⟨rfl, rfl, rfl, rfl⟩
    rw [if_neg hbgp]
    by_cases hobp0 : addr = 0xff48
    · rw [if_pos hobp0]; exact other _ (by bv_omega) fun _ => ⟨rfl, rfl, rfl, rfl⟩
    rw [if_neg hobp0]
    by_cases hobp1 : addr = 0xff49
    · rw [if_pos hobp1]; exact other _ (by bv_omega) fun _ => ⟨rfl, rfl, rfl, rfl⟩
    rw [if_neg hobp1]
    by_cases hwy : addr = 0xff4a
    · rw [if_pos hwy]; exact other _ (by bv_omega) fun _ => ⟨rfl, rfl, rfl, rfl⟩
    rw [if_neg hwy]
    -- the range leaves WX
    rw [if_pos (by bv_omega)]
    exact other _ (by bv_omega) fun _ => ⟨rfl, rfl, rfl, rfl⟩
  rw [if_neg hreg]
  by_cases hdata : addr ≥ 0x8000 ∧ addr ≤ 0x97ff
  · rw [if_pos hdata]; exact .vram _ s.ppu.tileMap1 s.ppu.tileMap2 (by bv_omega)
  rw [if_neg hdata]
  by_cases hmap1 : addr ≥ 0x9800 ∧ addr ≤ 0x9bff
  · rw [if_pos hmap1]; exact .vram s.ppu.tileData _ s.ppu.tileMap2 (by bv_omega)
  rw [if_neg hmap1]
  by_cases hmap2 : addr ≥ 0x9c00 ∧ addr ≤ 0x9fff
  · rw [if_pos hmap2]; exact .vram s.ppu.tileData s.ppu.tileMap1 _ (by bv_omega)
  rw [if_neg hmap2, if_pos (by bv_omega)]
  refine .oam _ (by bv_omega) ?_
  unfold dmaAddr
  bv_omega

theorem wrLcdc_frame (value : U8) (s : Emu) :
    wrLcdc value s = { s with ppu := (wrLcdc value s).ppu } := by
  unfold wrLcdc
  dsimp only
  split
  · split <;> rfl
  · rfl

/-- A write to the PPU changes the PPU. -/
theorem PpuWriteTo.frame {addr : U16} {value : U8} {s s' : Emu} (h : PpuWriteTo addr value s s')
    (hdma : addr ≠ 0xff46) : s' = { s with ppu := s'.ppu } := by
  cases h with
  | lcdc => exact wrLcdc_frame value s
  | dma ha => exact absurd ha hdma
  | _ => rfl

/-- Only the call itself is recorded. -/
theorem WriteTo.events {addr : U16} {value : U8} {s s' : Emu} (h : WriteTo addr value s s')
    (hdma : addr ≠ 0xff46) : s'.events = s.events := by
  cases h with
  | cpu => rw [cpuWr_frame]
  | unmap =>
      show (cpuWr addr value s).events = s.events
      rw [cpuWr_frame]
  | ppu hp => rw [(ppuWr_cases hp value s).frame hdma]
  | mbc1 => rfl
  | ioreg => rfl

/-- A write to OAM. -/
theorem monitorWrMem_dmaAddr {i : Nat} (hi : i < 0xa0) (value : U8) (s : Emu) :
    monitorWrMem (dmaAddr i) value s =
      (s.log (.monitorWrMem (dmaAddr i) value)).updPpu (oamWr i value) := by
  have hn := dmaAddr_toNat hi
  have hw := monitorWrMem_cases (dmaAddr i) value s
  generalize s.log (.monitorWrMem (dmaAddr i) value) = s₁ at hw ⊢
  generalize monitorWrMem (dmaAddr i) value s = s' at hw ⊢
  cases hw with
  | cpu hp | ioreg _ hp =>
      unfold PpuRange at hp
      exact absurd ⟨by bv_omega, by bv_omega⟩ (not_or.mp (not_or.mp hp).2).1
  | unmap ha => exact absurd ha (by bv_omega)
  | mbc1 ha => exact absurd ha (by bv_omega)
  | ppu hp =>
      have hw := ppuWr_cases hp value s₁
      generalize ppuWr (dmaAddr i) value s₁ = s' at hw ⊢
      cases hw with
      | oam k hk ha =>
          have hik : i = k := by
            have hk := dmaAddr_toNat hk
            rw [← ha] at hk
            omega
          rw [hik]
      | vram _ _ _ ha => exact absurd ha (by bv_omega)
      | lcdc ha | stat ha | ly ha | lyc ha | dma ha => exact absurd ha (by bv_omega)
      | other f ha => exact absurd ha (by bv_omega)

/-- What 160 writes to OAM preserve, a DMA transfer preserves. -/
theorem dmaLoop_induct {P : Emu → Prop}
    (hstep : ∀ i < 0xa0, ∀ value s, P s → P (monitorWrMem (dmaAddr i) value s))
    (page : U16) (s : Emu) (h : P s) : P (dmaLoop monitorWrMem page s) := by
  have loop : ∀ (l : List Nat), (∀ i ∈ l, i < 0xa0) → ∀ s, P s →
      P (l.foldl (fun s i => monitorWrMem (dmaAddr i)
        (monitorRdMem s (page + BitVec.ofNat 16 i)) s) s) := by
    intro l
    induction l with
    | nil => exact fun _ _ h => h
    | cons i l ih =>
        intro hl s hs
        refine ih (fun j hj => hl j (List.mem_cons_of_mem _ hj)) _ ?_
        exact hstep i (hl i List.mem_cons_self) _ s hs
  exact loop _ (fun i hi => List.mem_range.mp hi) s h

/-- The write that starts a DMA transfer. -/
theorem monitorWrMem_dma (value : U8) (s : Emu) :
    monitorWrMem 0xff46 value s =
      dmaLoop monitorWrMem (value.setWidth 16 * 0x100) (s.log (.monitorWrMem 0xff46 value)) := by
  rw [monitorWrMem_eq]
  rfl

/-- A DMA transfer changes what a write to OAM changes. -/
theorem monitorWrMem_dma_view {α : Type} (f : Emu → α)
    (hlog : ∀ s addr value, f (s.log (.monitorWrMem addr value)) = f s)
    (hoam : ∀ k value s, f (s.updPpu (oamWr k value)) = f s) (value : U8) (s : Emu) :
    f (monitorWrMem 0xff46 value s) = f s := by
  rw [monitorWrMem_dma]
  refine dmaLoop_induct (P := fun s' => f s' = f s) (fun i hi value s' hs' => ?_) _ _ (hlog _ _ _)
  rw [monitorWrMem_dmaAddr hi, hoam, hlog, hs']

/-- **Bus writes, one at a time.**  A property that survives every write but the
one that starts a DMA transfer, and the logging of that one, survives every
write: the transfer is 160 writes to OAM. -/
theorem monitorWrMem_induct {P : Emu → Prop}
    (hlog : ∀ s value, P s → P (s.log (.monitorWrMem 0xff46 value)))
    (hstep : ∀ s addr value, addr ≠ 0xff46 → P s → P (monitorWrMem addr value s))
    (addr : U16) (value : U8) (s : Emu) (h : P s) : P (monitorWrMem addr value s) := by
  by_cases ha : addr = 0xff46
  · subst ha
    rw [monitorWrMem_dma]
    exact dmaLoop_induct (fun i hi value s hs => hstep s _ value (dmaAddr_ne hi) hs) _ _
      (hlog _ _ h)
  · exact hstep s addr value ha h

/-- The property survives a write to each of the places a bus write can go to. -/
structure WriteClosed (P : Emu → Prop) : Prop where
  call : ∀ s addr value, P s → P (s.log (.monitorWrMem addr value))
  cpu : ∀ s addr value, P s → P (cpuWr addr value s)
  ppu : ∀ s p, P s → P { s with ppu := p }
  mbc1 : ∀ s f, P s → P (s.updMbc1 f)
  ioreg : ∀ s m, P s → P { s with tmpIoregs := m }

/-- **A bus write**, DMA included. -/
theorem WriteClosed.monitorWrMem {P : Emu → Prop} (h : WriteClosed P) (addr : U16) (value : U8)
    {s : Emu} (hs : P s) : P (monitorWrMem addr value s) := by
  refine monitorWrMem_induct (fun s value hs => h.call s _ value hs) ?_ addr value s hs
  intro s addr value hdma hs
  have hw := monitorWrMem_cases addr value s
  have hlog : P (s.log (.monitorWrMem addr value)) := h.call s addr value hs
  generalize s.log (.monitorWrMem addr value) = s₁ at hw hlog
  generalize RealBoy.monitorWrMem addr value s = s₂ at hw ⊢
  cases hw with
  | cpu => exact h.cpu s₁ addr value hlog
  | unmap => exact h.mbc1 _ _ (h.cpu s₁ addr value hlog)
  | ppu hp =>
      rw [(ppuWr_cases hp value s₁).frame hdma]
      exact h.ppu s₁ _ hlog
  | mbc1 => exact h.mbc1 s₁ _ hlog
  | ioreg => exact h.ioreg s₁ _ hlog

/-- A bus write leaves the CPU's registers alone. -/
theorem regs_writeClosed (r : Registers) : WriteClosed fun s => s.regs = r where
  call _ _ _ h := h
  cpu s addr value h := by
    rw [cpuWr_frame]
    exact h
  ppu _ _ h := h
  mbc1 _ _ h := h
  ioreg _ _ h := h

theorem monitorWrMem_keeps_regs (addr : U16) (value : U8) (s : Emu) :
    (monitorWrMem addr value s).regs = s.regs :=
  (regs_writeClosed s.regs).monitorWrMem addr value rfl

end RealBoy
