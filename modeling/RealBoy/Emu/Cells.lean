/-
# `RealBoy.Emu.Cells` — the addresses that are memory

The source decodes an address four times over: in `monitor_rd_mem`, in
`monitor_wr_mem`, and once more in the read and the write function of the
module they pick.  `cellOf` decodes it once, into the byte of storage behind it.
For an address that has one, a read returns the byte (`monitorRdMem_cell`), a
write replaces it (`monitorWrMem_cell`), and no other address reads it, the
registers included (`monitorRdMem_setCell`).
-/
import RealBoy.Emu.Run
import RealBoy.Emu.Write

namespace RealBoy

open Emu

/-- The addresses of memory: video memory, the cartridge's RAM, the work RAM
and what is above it, and the high RAM. -/
def IsMemory (a : U16) : Prop := (0x8000 ≤ a ∧ a ≤ 0xfeff) ∨ (0xff80 ≤ a ∧ a ≤ 0xfffe)

instance (a : U16) : Decidable (IsMemory a) := inferInstanceAs (Decidable ((_ ∧ _) ∨ (_ ∧ _)))

/-- A byte of storage: an array and an index of it. -/
inductive Cell where
  | tileData (k : Nat)
  | tileMap1 (k : Nat)
  | tileMap2 (k : Nat)
  | mbc1Ram (k : Nat)
  | wram (k : Nat)
  | tmpIoreg (k : Nat)
  | oam (k : Nat)
  | hram (k : Nat)
deriving DecidableEq

/-- The byte behind an address that is memory to the program: reading and
writing it do nothing else. -/
def cellOf (addr : U16) : Option Cell :=
  if addr ≤ 0x7fff then none
  else if addr ≤ 0x97ff then some (.tileData (addr - 0x8000).toNat)
  else if addr ≤ 0x9bff then some (.tileMap1 (addr - 0x9800).toNat)
  else if addr ≤ 0x9fff then some (.tileMap2 (addr - 0x9c00).toNat)
  else if addr ≤ 0xbfff then some (.mbc1Ram (addr - 0xa000).toNat)
  else if addr ≤ 0xdfff then some (.wram (addr - 0xc000).toNat)
  else if addr ≤ 0xfdff then some (.tmpIoreg addr.toNat)
  else if addr ≤ 0xfe9f then some (.oam (addr - 0xfe00).toNat)
  else if addr ≤ 0xfeff then some (.tmpIoreg addr.toNat)
  else if addr ≤ 0xff7f then none
  else if addr ≤ 0xfffe then some (.hram (addr - 0xff80).toNat)
  else none

namespace Emu

/-- The contents of a cell. -/
def cell (s : Emu) : Cell → U8
  | .tileData k => s.ppu.tileData k
  | .tileMap1 k => s.ppu.tileMap1 k
  | .tileMap2 k => s.ppu.tileMap2 k
  | .mbc1Ram k => s.mbc1.mbc1Ram k
  | .wram k => s.wram k
  | .tmpIoreg k => s.tmpIoregs k
  | .oam k => s.ppu.oam k
  | .hram k => s.hram k

/-- New contents for a cell. -/
def setCell (s : Emu) (v : U8) : Cell → Emu
  | .tileData k => s.updPpu fun p => { p with tileData := Function.update p.tileData k v }
  | .tileMap1 k => s.updPpu fun p => { p with tileMap1 := Function.update p.tileMap1 k v }
  | .tileMap2 k => s.updPpu fun p => { p with tileMap2 := Function.update p.tileMap2 k v }
  | .mbc1Ram k => s.updMbc1 fun m => { m with mbc1Ram := Function.update m.mbc1Ram k v }
  | .wram k => { s with wram := Function.update s.wram k v }
  | .tmpIoreg k => { s with tmpIoregs := Function.update s.tmpIoregs k v }
  | .oam k => s.updPpu fun p => { p with oam := Function.update p.oam k v }
  | .hram k => { s with hram := Function.update s.hram k v }

/-- The cells are separate. -/
theorem cell_setCell (s : Emu) (v : U8) (c d : Cell) :
    (s.setCell v c).cell d = if d = c then v else s.cell d := by
  have array (f : Nat → U8) (k j : Nat) (mk : Nat → Cell) (hmk : ∀ i j, mk i = mk j ↔ i = j) :
      Function.update f k v j = if mk j = mk k then v else f j := by
    simp only [Function.update_apply, hmk]
  cases c <;> cases d <;> first
    | exact (if_neg nofun).symm
    | exact array _ _ _ _ fun _ _ => ⟨fun h => by injection h, congrArg _⟩

end Emu

/-- The regions of memory, and the cells of their addresses. -/
inductive CellAt (a : U16) : Cell → Prop where
  | tileData : 0x8000 ≤ a → a ≤ 0x97ff → CellAt a (.tileData (a - 0x8000).toNat)
  | tileMap1 : 0x9800 ≤ a → a ≤ 0x9bff → CellAt a (.tileMap1 (a - 0x9800).toNat)
  | tileMap2 : 0x9c00 ≤ a → a ≤ 0x9fff → CellAt a (.tileMap2 (a - 0x9c00).toNat)
  | mbc1Ram : 0xa000 ≤ a → a ≤ 0xbfff → CellAt a (.mbc1Ram (a - 0xa000).toNat)
  | wram : 0xc000 ≤ a → a ≤ 0xdfff → CellAt a (.wram (a - 0xc000).toNat)
  | tmpIoreg : 0xe000 ≤ a → a ≤ 0xfeff → ¬ (0xfe00 ≤ a ∧ a ≤ 0xfe9f) →
      CellAt a (.tmpIoreg a.toNat)
  | oam : 0xfe00 ≤ a → a ≤ 0xfe9f → CellAt a (.oam (a - 0xfe00).toNat)
  | hram : 0xff80 ≤ a → a ≤ 0xfffe → CellAt a (.hram (a - 0xff80).toNat)

/-- What a failed bound of the decoding says. -/
theorem succ_le_of_not_le {a x y : U16} (h : ¬ a ≤ x) (hxy : y.toNat = x.toNat + 1) : y ≤ a := by
  bv_omega

theorem cellOf_cases {a : U16} {c : Cell} (h : cellOf a = some c) : CellAt a c := by
  unfold cellOf at h
  by_cases hrom : a ≤ 0x7fff
  · rw [if_pos hrom] at h
    exact nomatch h
  rw [if_neg hrom] at h
  by_cases htile : a ≤ 0x97ff
  · rw [if_pos htile] at h
    exact Option.some.inj h ▸ .tileData (succ_le_of_not_le hrom rfl) htile
  rw [if_neg htile] at h
  by_cases hmap1 : a ≤ 0x9bff
  · rw [if_pos hmap1] at h
    exact Option.some.inj h ▸ .tileMap1 (succ_le_of_not_le htile rfl) hmap1
  rw [if_neg hmap1] at h
  by_cases hmap2 : a ≤ 0x9fff
  · rw [if_pos hmap2] at h
    exact Option.some.inj h ▸ .tileMap2 (succ_le_of_not_le hmap1 rfl) hmap2
  rw [if_neg hmap2] at h
  by_cases hmbc1 : a ≤ 0xbfff
  · rw [if_pos hmbc1] at h
    exact Option.some.inj h ▸ .mbc1Ram (succ_le_of_not_le hmap2 rfl) hmbc1
  rw [if_neg hmbc1] at h
  by_cases hwram : a ≤ 0xdfff
  · rw [if_pos hwram] at h
    exact Option.some.inj h ▸ .wram (succ_le_of_not_le hmbc1 rfl) hwram
  rw [if_neg hwram] at h
  by_cases hecho : a ≤ 0xfdff
  · rw [if_pos hecho] at h
    exact Option.some.inj h ▸ .tmpIoreg (succ_le_of_not_le hwram rfl) (by bv_omega) (by bv_omega)
  rw [if_neg hecho] at h
  by_cases hoam : a ≤ 0xfe9f
  · rw [if_pos hoam] at h
    exact Option.some.inj h ▸ .oam (succ_le_of_not_le hecho rfl) hoam
  rw [if_neg hoam] at h
  by_cases hgap : a ≤ 0xfeff
  · rw [if_pos hgap] at h
    exact Option.some.inj h ▸ .tmpIoreg (by bv_omega) hgap fun ho => hoam ho.2
  rw [if_neg hgap] at h
  by_cases hio : a ≤ 0xff7f
  · rw [if_pos hio] at h
    exact nomatch h
  rw [if_neg hio] at h
  by_cases hhram : a ≤ 0xfffe
  · rw [if_pos hhram] at h
    exact Option.some.inj h ▸ .hram (succ_le_of_not_le hio rfl) hhram
  rw [if_neg hhram] at h
  exact nomatch h

theorem isSome_ite_none {α : Type} {p : Prop} [Decidable p] {o : Option α} :
    (if p then none else o).isSome = true ↔ ¬ p ∧ o.isSome = true := by
  by_cases hp : p <;> simp [hp]

theorem isSome_ite_some {α : Type} {p : Prop} [Decidable p] {x : α} {o : Option α} :
    (if p then some x else o).isSome = true ↔ p ∨ o.isSome = true := by
  by_cases hp : p <;> simp [hp]

/-- Where memory is. -/
theorem cellOf_isSome {a : U16} : (cellOf a).isSome ↔ IsMemory a := by
  simp only [cellOf, isSome_ite_none, isSome_ite_some, IsMemory, Option.isSome_none,
    Bool.false_eq_true, or_false]
  bv_omega

/-- The address of a cell. -/
def Cell.addr : Cell → Nat
  | .tileData k => 0x8000 + k
  | .tileMap1 k => 0x9800 + k
  | .tileMap2 k => 0x9c00 + k
  | .mbc1Ram k => 0xa000 + k
  | .wram k => 0xc000 + k
  | .tmpIoreg k => k
  | .oam k => 0xfe00 + k
  | .hram k => 0xff80 + k

theorem CellAt.addr {a : U16} {c : Cell} (h : CellAt a c) : c.addr = a.toNat := by
  cases h with
  | tmpIoreg => rfl
  | tileData | tileMap1 | tileMap2 | mbc1Ram | wram | oam | hram =>
      simp only [Cell.addr]
      bv_omega

/-- The decoding is one to one. -/
theorem cellOf_inj {a b : U16} {c : Cell} (ha : cellOf a = some c) (hb : cellOf b = some c) :
    a = b :=
  BitVec.eq_of_toNat_eq ((cellOf_cases ha).addr.symm.trans (cellOf_cases hb).addr)

/-! ## Reading a cell -/

/-- **A read of memory** is of its cell. -/
theorem monitorRdMem_cell {a : U16} {c : Cell} (h : cellOf a = some c) (s : Emu) :
    monitorRdMem s a = s.cell c := by
  have hppu (hr : (a ≥ 0x8000 ∧ a ≤ 0x9fff) ∨ (a ≥ 0xfe00 ∧ a ≤ 0xfe9f)) :
      monitorRdMem s a = ppuRd s.ppu a := if_pos (hr.imp_right .inl)
  have hnot (hr : ¬ ((a ≥ 0x8000 ∧ a ≤ 0x9fff) ∨ (a ≥ 0xfe00 ∧ a ≤ 0xfe9f)) ∧
      ¬ (a ≥ 0xff40 ∧ a ≤ 0xff4b)) : ¬ PpuRange a := by
    unfold PpuRange
    bv_omega
  cases cellOf_cases h with
  | tileData =>
      rw [hppu (by bv_omega), ppuRd, if_neg (by bv_omega), if_pos (by bv_omega)]
      rfl
  | tileMap1 =>
      rw [hppu (by bv_omega), ppuRd, if_neg (by bv_omega), if_neg (by bv_omega),
        if_pos (by bv_omega)]
      rfl
  | tileMap2 =>
      rw [hppu (by bv_omega), ppuRd, if_neg (by bv_omega), if_neg (by bv_omega),
        if_neg (by bv_omega), if_pos (by bv_omega)]
      rfl
  | oam =>
      rw [hppu (by bv_omega), ppuRd, if_neg (by bv_omega), if_neg (by bv_omega),
        if_neg (by bv_omega), if_neg (by bv_omega), if_pos (by bv_omega)]
      rfl
  | mbc1Ram =>
      rw [monitorRdMem, if_neg (hnot (by bv_omega)), if_neg (by bv_omega), if_neg (by bv_omega),
        if_pos (by bv_omega), mbc1RdMem, if_pos (by bv_omega)]
      rfl
  | wram =>
      rw [monitorRdMem, if_neg (hnot (by bv_omega)), if_pos (by bv_omega), cpuRd,
        if_pos (by bv_omega)]
      rfl
  | hram =>
      rw [monitorRdMem, if_neg (hnot (by bv_omega)), if_neg (by bv_omega), if_pos (by bv_omega),
        cpuRd, if_neg (by bv_omega), if_pos (by bv_omega)]
      rfl
  | tmpIoreg =>
      rw [monitorRdMem, if_neg (hnot (by bv_omega)), if_neg (by bv_omega), if_neg (by bv_omega),
        if_neg (by bv_omega), if_neg (by bv_omega), if_neg (by bv_omega)]
      rfl

/-! ## What is not memory -/

/-- A read below the memory is of the ROM. -/
theorem monitorRdMem_low {a : U16} (h : a ≤ 0x7fff) (s : Emu) :
    monitorRdMem s a = s.mbc1.mbc1Rom a.toNat := by
  rw [monitorRdMem, if_neg (by unfold PpuRange; bv_omega), if_neg (by bv_omega),
    if_neg (by bv_omega), if_pos (by bv_omega), mbc1RdMem, if_neg (by bv_omega)]

/-- A read that is not of memory looks at the ROM or at the registers. -/
theorem monitorRdMem_congr {s s' : Emu} {b : U16} (hb : cellOf b = none)
    (hrom : s'.mbc1.mbc1Rom = s.mbc1.mbc1Rom) (hregs : s'.ppu.regs = s.ppu.regs)
    (hcpu : s'.cpu = s.cpu) (hkeys : s'.keys = s.keys)
    (hio : ∀ k, 0xff00 ≤ k → s'.tmpIoregs k = s.tmpIoregs k) :
    monitorRdMem s' b = monitorRdMem s b := by
  have hnone : ¬ ((0x8000 ≤ b ∧ b ≤ 0xfeff) ∨ (0xff80 ≤ b ∧ b ≤ 0xfffe)) := by
    have : ¬ IsMemory b := by
      rw [← cellOf_isSome, hb]
      nofun
    exact this
  by_cases hlow : b ≤ 0x7fff
  · rw [monitorRdMem_low hlow, monitorRdMem_low hlow, hrom]
  · have hrd (s : Emu) : monitorRdMem s b =
        if b ≥ 0xff40 ∧ b ≤ 0xff4b then rdReg s.ppu.regs b
        else if b = 0xffff ∨ b = 0xff0f ∨ b = 0xff04 ∨ b = 0xff05 ∨ b = 0xff06 ∨ b = 0xff07 ∨
          b = 0xff50 then cpuRd s b
        else if b = 0xff00 then rdJoypad s
        else s.tmpIoregs b.toNat := by
      rw [monitorRdMem]
      by_cases hreg : b ≥ 0xff40 ∧ b ≤ 0xff4b
      · rw [if_pos (.inr (.inr hreg)), if_pos hreg, ppuRd, if_pos hreg.1]
      · rw [if_neg (by unfold PpuRange; bv_omega), if_neg (by bv_omega), if_neg (by bv_omega),
          if_neg (by bv_omega), if_neg hreg]
    have hcpuRd : cpuRd s' b = cpuRd s b := by
      simp only [cpuRd, if_neg (show ¬ (b ≥ 0xc000 ∧ b ≤ 0xdfff) by bv_omega),
        if_neg (show ¬ (b ≥ 0xff80 ∧ b ≤ 0xfffe) by bv_omega), hcpu]
    have hjoypad : rdJoypad s' = rdJoypad s := by
      simp only [rdJoypad, hkeys, hio 0xff00 (le_refl _)]
    rw [hrd, hrd, hregs, hcpuRd, hjoypad, hio b.toNat (by bv_omega)]

/-- **Isolation.**  New contents for a cell are seen at its address, and at no
other. -/
theorem monitorRdMem_setCell {a : U16} {c : Cell} (h : cellOf a = some c) (v : U8) (s : Emu)
    (b : U16) : monitorRdMem (s.setCell v c) b = if b = a then v else monitorRdMem s b := by
  cases hb : cellOf b with
  | some d =>
      rw [monitorRdMem_cell hb, monitorRdMem_cell hb, cell_setCell]
      refine if_congr ⟨fun he => ?_, fun he => ?_⟩ rfl rfl
      · subst he
        exact cellOf_inj hb h
      · subst he
        exact Option.some.inj (hb.symm.trans h)
  | none =>
      rw [if_neg fun he => nomatch (he ▸ hb).symm.trans h]
      cases cellOf_cases h with
      | tmpIoreg =>
          refine monitorRdMem_congr hb rfl rfl rfl rfl fun k hk => ?_
          exact Function.update_of_ne (by bv_omega) _ _
      | _ => exact monitorRdMem_congr hb rfl rfl rfl rfl fun _ _ => rfl

/-! ## Writing a cell -/

/-- `monitor_wr_mem`, its registers left out. -/
theorem monitorWrMem_memory {a : U16} (h : IsMemory a) (v : U8) (s : Emu) :
    monitorWrMem a v s =
      let s := s.log (.monitorWrMem a v)
      if PpuRange a then ppuWr a v s
      else if (a ≥ 0xc000 ∧ a ≤ 0xdfff) ∨ (a ≥ 0xff80 ∧ a ≤ 0xfffe) then cpuWr a v s
      else if a ≤ 0xbfff then s.updMbc1 (mbc1WrMem a v)
      else { s with tmpIoregs := Function.update s.tmpIoregs a.toNat v } := by
  unfold IsMemory at h
  rw [monitorWrMem_eq, monitorWrMemWith, if_neg (by bv_omega), if_neg (by bv_omega),
    if_neg (by bv_omega), if_neg (by bv_omega), if_neg (by bv_omega), if_neg (by bv_omega),
    if_neg (by bv_omega), if_neg (show ¬ a = 0xff00 by bv_omega)]
  refine if_congr Iff.rfl rfl ?_
  by_cases hwram : a ≥ 0xc000 ∧ a ≤ 0xdfff
  · rw [if_pos hwram, if_pos (.inl hwram)]
  by_cases hhram : a ≥ 0xff80 ∧ a ≤ 0xfffe
  · rw [if_neg hwram, if_pos hhram, if_pos (.inr hhram)]
  rw [if_neg hwram, if_neg hhram, if_neg (not_or.mpr ⟨hwram, hhram⟩)]

theorem oamWr_eq (k : Nat) (v : U8) (p : Ppu) :
    ∃ hash, oamWr k v p = { p with oam := Function.update p.oam k v, oamHash := hash } := by
  unfold oamWr
  split
  · exact ⟨_, rfl⟩
  · exact ⟨_, rfl⟩

/-- **A write to memory** is of its cell, and relinks the object index. -/
theorem monitorWrMem_cell {a : U16} {c : Cell} (h : cellOf a = some c) (v : U8) (s : Emu) :
    ∃ hash, monitorWrMem a v s =
      ((s.log (.monitorWrMem a v)).setCell v c).updPpu fun p => { p with oamHash := hash } := by
  rw [monitorWrMem_memory (cellOf_isSome.mp (Option.isSome_iff_exists.mpr ⟨c, h⟩))]
  generalize s.log (.monitorWrMem a v) = s
  have hppu (hr : (a ≥ 0x8000 ∧ a ≤ 0x9fff) ∨ (a ≥ 0xfe00 ∧ a ≤ 0xfe9f)) : PpuRange a :=
    hr.imp_right .inl
  have hnot (hr : ¬ ((a ≥ 0x8000 ∧ a ≤ 0x9fff) ∨ (a ≥ 0xfe00 ∧ a ≤ 0xfe9f)) ∧
      ¬ (a ≥ 0xff40 ∧ a ≤ 0xff4b)) : ¬ PpuRange a := by
    unfold PpuRange
    bv_omega
  dsimp only
  cases cellOf_cases h with
  | tileData =>
      refine ⟨s.ppu.oamHash, ?_⟩
      rw [if_pos (hppu (by bv_omega)), ppuWr, ppuWrWith, if_neg (by bv_omega),
        if_pos (by bv_omega)]
      rfl
  | tileMap1 =>
      refine ⟨s.ppu.oamHash, ?_⟩
      rw [if_pos (hppu (by bv_omega)), ppuWr, ppuWrWith, if_neg (by bv_omega),
        if_neg (by bv_omega), if_pos (by bv_omega)]
      rfl
  | tileMap2 =>
      refine ⟨s.ppu.oamHash, ?_⟩
      rw [if_pos (hppu (by bv_omega)), ppuWr, ppuWrWith, if_neg (by bv_omega),
        if_neg (by bv_omega), if_neg (by bv_omega), if_pos (by bv_omega)]
      rfl
  | oam =>
      obtain ⟨hash, ho⟩ := oamWr_eq (a - 0xfe00).toNat v s.ppu
      refine ⟨hash, ?_⟩
      rw [if_pos (hppu (by bv_omega)), ppuWr, ppuWrWith, if_neg (by bv_omega),
        if_neg (by bv_omega), if_neg (by bv_omega), if_neg (by bv_omega), if_pos (by bv_omega),
        updPpu, ho]
      rfl
  | mbc1Ram =>
      refine ⟨s.ppu.oamHash, ?_⟩
      rw [if_neg (hnot (by bv_omega)), if_neg (by bv_omega), if_pos (by bv_omega)]
      have hw : mbc1WrMem a v s.mbc1 =
          { s.mbc1 with mbc1Ram := Function.update s.mbc1.mbc1Ram (a - 0xa000).toNat v } := by
        rw [mbc1WrMem, if_neg (by bv_omega), if_pos (show a ≥ 0x8000 by bv_omega),
          if_neg (by bv_omega)]
      rw [updMbc1, hw]
      rfl
  | wram =>
      refine ⟨s.ppu.oamHash, ?_⟩
      rw [if_neg (hnot (by bv_omega)), if_pos (by bv_omega), cpuWr, if_pos (by bv_omega)]
      rfl
  | hram =>
      refine ⟨s.ppu.oamHash, ?_⟩
      rw [if_neg (hnot (by bv_omega)), if_pos (by bv_omega), cpuWr, if_neg (by bv_omega),
        if_pos (by bv_omega)]
      rfl
  | tmpIoreg =>
      refine ⟨s.ppu.oamHash, ?_⟩
      rw [if_neg (hnot (by bv_omega)), if_neg (by bv_omega), if_neg (by bv_omega)]
      rfl

theorem setCell_frame (v : U8) (c : Cell) (s : Emu) :
    (s.setCell v c).regs = s.regs ∧ (s.setCell v c).cpu = s.cpu := by
  cases c <;> exact ⟨rfl, rfl⟩

/-- A write to memory, as the reads see it. -/
theorem monitorRdMem_monitorWrMem {a : U16} (h : IsMemory a) (v : U8) (s : Emu) (b : U16) :
    monitorRdMem (monitorWrMem a v s) b = if b = a then v else monitorRdMem s b := by
  obtain ⟨c, hc⟩ := Option.isSome_iff_exists.mp (cellOf_isSome.mpr h)
  obtain ⟨hash, hw⟩ := monitorWrMem_cell hc v s
  rw [hw]
  exact monitorRdMem_setCell hc v (s.log (.monitorWrMem a v)) b

/-- A write to memory leaves the CPU's registers. -/
theorem monitorWrMem_regs {a : U16} (h : IsMemory a) (v : U8) (s : Emu) :
    (monitorWrMem a v s).regs = s.regs ∧ (monitorWrMem a v s).cpu = s.cpu := by
  obtain ⟨c, hc⟩ := Option.isSome_iff_exists.mp (cellOf_isSome.mpr h)
  obtain ⟨hash, hw⟩ := monitorWrMem_cell hc v s
  rw [hw]
  exact setCell_frame v c _

/-! ## The RAM -/

/-- The work RAM and the high RAM. -/
def IsRam (a : U16) : Prop := (0xc000 ≤ a ∧ a ≤ 0xdfff) ∨ (0xff80 ≤ a ∧ a ≤ 0xfffe)

theorem IsRam.memory {a : U16} (h : IsRam a) : IsMemory a := by
  unfold IsRam at h
  unfold IsMemory
  bv_omega

/-- A read of RAM is of the two arrays. -/
theorem IsRam.congr {a : U16} (h : IsRam a) {s s' : Emu} (hw : s'.wram = s.wram)
    (hh : s'.hram = s.hram) : monitorRdMem s' a = monitorRdMem s a := by
  obtain ⟨c, hc⟩ := Option.isSome_iff_exists.mp (cellOf_isSome.mpr h.memory)
  rw [monitorRdMem_cell hc, monitorRdMem_cell hc]
  unfold IsRam at h
  cases cellOf_cases hc with
  | wram => exact congrFun hw _
  | hram => exact congrFun hh _
  | tileData | tileMap1 | tileMap2 | mbc1Ram | oam | tmpIoreg => exact absurd h (by bv_omega)

/-- A write that is not to memory leaves the RAM. -/
theorem WriteTo.ram {addr : U16} {value : U8} {s s' : Emu} (h : WriteTo addr value s s')
    (ha : ¬ IsRam addr) (hdma : addr ≠ 0xff46) : s'.wram = s.wram ∧ s'.hram = s.hram := by
  unfold IsRam at ha
  have hcpu : (cpuWr addr value s).wram = s.wram ∧ (cpuWr addr value s).hram = s.hram := by
    rw [cpuWr, if_neg (by bv_omega), if_neg (by bv_omega)]
    -- the registers
    iterate 7
      refine iteInduction (motive := fun s' : Emu => s'.wram = s.wram ∧ s'.hram = s.hram)
        (fun _ => ⟨rfl, rfl⟩) fun _ => ?_
    exact ⟨rfl, rfl⟩
  cases h with
  | cpu => exact hcpu
  | unmap => exact hcpu
  | ppu hp =>
      rw [(ppuWr_cases hp value s).frame hdma]
      exact ⟨rfl, rfl⟩
  | mbc1 => exact ⟨rfl, rfl⟩
  | ioreg => exact ⟨rfl, rfl⟩

/-! ## Isolation -/

/-- **Memory is memory**: a write is read back at its address, and nothing else
reads differently after it. -/
theorem write_isolated (s : Emu) (a : U16) (v : U8) (h : IsMemory a) :
    monitorRdMem (monitorWrMem a v s) a = v ∧
      ∀ b, b ≠ a → monitorRdMem (monitorWrMem a v s) b = monitorRdMem s b := by
  refine ⟨?_, fun b hb => ?_⟩
  · rw [monitorRdMem_monitorWrMem h, if_pos rfl]
  · rw [monitorRdMem_monitorWrMem h, if_neg hb]

/-- A byte of OAM. -/
theorem write_isolated_oam :
    monitorRdMem (monitorWrMem 0xfe00 0x50 (powerOn #[] #[])) 0xfe00 = 0x50 ∧
      ∀ b, b ≠ 0xfe00 → monitorRdMem (monitorWrMem 0xfe00 0x50 (powerOn #[] #[])) b =
        monitorRdMem (powerOn #[] #[]) b :=
  write_isolated (powerOn #[] #[]) 0xfe00 0x50 (.inl ⟨by decide, by decide⟩)

end RealBoy
