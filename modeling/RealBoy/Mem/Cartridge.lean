/-
# `RealBoy.Mem.Cartridge` — what a program sees of the cartridge

All of `mbc1.c` rewrites one buffer, `mbc1_rom`: `mbc1_init` fills it from the
ROM and lays the boot ROM over its start, a write to 0xff50 restores the start,
a bank select refills the second half.  `CartView` says what the buffer holds
after any sequence of these; `mapsBank` is the bank a select really maps.

The bank differs from the one MBC1 should map for the values whose low five
bits alone are zero: `mbc1_wr_mem` replaces zero by one before it masks, so
that 0x20, 0x40 .. 0xe0 map bank 0.
-/
import RealBoy.Emu.Cells

namespace RealBoy

open Emu ByteFile

/-! ## Which writes reach the cartridge -/

/-- The addresses `monitor_wr_mem` hands to the cartridge. -/
def CartRange (addr : U16) : Prop := addr = 0xff50 ∨ addr < 0x8000 ∨ (addr ≥ 0xa000 ∧ addr ≤ 0xbfff)

instance (addr : U16) : Decidable (CartRange addr) := inferInstanceAs (Decidable (_ ∨ _ ∨ _))

theorem cpuWr_mbc1 (addr : U16) (value : U8) (s : Emu) : (cpuWr addr value s).mbc1 = s.mbc1 := by
  rw [cpuWr_frame]

theorem PpuWriteTo.mbc1 {addr : U16} {value : U8} {s s' : Emu} (h : PpuWriteTo addr value s s')
    (hdma : addr ≠ 0xff46) : s'.mbc1 = s.mbc1 := by
  rw [h.frame hdma]

theorem monitorWrMem_mbc1 (addr : U16) (value : U8) (s : Emu) :
    (monitorWrMem addr value s).mbc1 =
      if CartRange addr then mbc1WrMem addr value s.mbc1 else s.mbc1 := by
  have step {addr : U16} (value : U8) (s : Emu) (hdma : addr ≠ 0xff46) :
      (monitorWrMem addr value s).mbc1 =
        if CartRange addr then mbc1WrMem addr value s.mbc1 else s.mbc1 := by
    have h := monitorWrMem_cases addr value s
    generalize monitorWrMem addr value s = s' at h ⊢
    cases h with
    | cpu hp hlo hne =>
        rw [cpuWr_mbc1, if_neg (by unfold CartRange; bv_omega)]
        rfl
    | unmap ha =>
        rw [if_pos (.inl ha)]
        exact congrArg (mbc1WrMem addr value) (cpuWr_mbc1 addr value _)
    | ppu hp =>
        rw [(ppuWr_cases hp value _).mbc1 hdma, if_neg]
        · rfl
        · unfold CartRange
          unfold PpuRange at hp
          bv_omega
    | mbc1 ha => rw [if_pos (.inr ha)]; rfl
    | ioreg v hp hlo hne => rw [if_neg (by unfold CartRange; bv_omega)]; rfl
  by_cases hdma : addr = 0xff46
  · subst hdma
    rw [if_neg (by decide)]
    exact monitorWrMem_dma_view Emu.mbc1 (fun _ _ _ => rfl) (fun _ _ _ => rfl) value s
  · exact step value s hdma

/-! ## The buffer -/

/-- The bank a select maps. -/
def mapsBank (value : U8) : Nat := ((if value = 0 then value + 1 else value) &&& 0x1f).toNat

/-- A bank select. -/
def IsSelect (addr : U16) : Prop := addr ≥ 0x2000 ∧ addr ≤ 0x3fff

instance (addr : U16) : Decidable (IsSelect addr) := inferInstanceAs (Decidable (_ ∧ _))

/-- `mbc1_rom` holds bank 0 and bank `b` of the ROM, the boot ROM over the start
of bank 0 until it is unmapped. -/
structure CartView (rom : Array U8) (b : Nat) (unmapped : Prop) (m : Mbc1) : Prop where
  file : m.rom.bytes = rom
  low : unmapped → ∀ a < 0x256, m.mbc1Rom a = rom.getD a 0
  fixed : ∀ a, 0x256 ≤ a → a < 0x4000 → m.mbc1Rom a = rom.getD a 0
  bank : ∀ i < 0x4000, m.mbc1Rom (0x4000 + i) = rom.getD (b * 0x4000 + i) 0

section

variable {rom : Array U8} (hsize : 0x80000 ≤ rom.size)

include hsize

theorem cartView_init (boot : Array U8) : CartView rom 1 False (mbc1Init rom boot) where
  file := rfl
  low := False.elim
  fixed a h₁ h₂ := by
    show fread (fread _ 0 0x8000 (fopen rom)) 0 0x256 _ a = _
    rw [fread_outside _ (.inr (by omega)),
      fread_inside _ (Nat.zero_le a) (by omega) (by rw [fopen_pos, fopen_bytes]; omega)]
    simp
  bank i hi := by
    show fread (fread _ 0 0x8000 (fopen rom)) 0 0x256 _ (0x4000 + i) = _
    rw [fread_outside _ (.inr (by omega)),
      fread_inside _ (Nat.zero_le _) (by omega) (by rw [fopen_pos, fopen_bytes]; omega)]
    simp

variable {b : Nat} {u : Prop} {m : Mbc1}

/-- The write to 0xff50 restores the start of bank 0. -/
theorem CartView.unmap (h : CartView rom b u m) (value : U8) :
    CartView rom b True (mbc1WrMem 0xff50 value m) where
  file := h.file
  low _ a ha := by
    show fread m.mbc1Rom 0 0x256 (fseek m.rom 0) a = _
    rw [fread_inside _ (Nat.zero_le a) (by omega) (by rw [fseek_pos, fseek_bytes, h.file]; omega)]
    simp [h.file]
  fixed a h₁ h₂ := by
    show fread m.mbc1Rom 0 0x256 (fseek m.rom 0) a = _
    rw [fread_outside _ (.inr (by omega)), h.fixed a h₁ h₂]
  bank i hi := by
    show fread m.mbc1Rom 0 0x256 (fseek m.rom 0) (0x4000 + i) = _
    rw [fread_outside _ (.inr (by omega)), h.bank i hi]

omit hsize in
theorem mapsBank_lt (value : U8) : mapsBank value < 32 := by
  revert value
  decide +kernel

/-- A select refills the second half, from inside the ROM. -/
theorem CartView.select (h : CartView rom b u m) {addr : U16} (ha : IsSelect addr) (value : U8) :
    CartView rom (mapsBank value) u (mbc1WrMem addr value m) := by
  have hne : addr ≠ 0xff50 := by unfold IsSelect at ha; bv_omega
  have hlo : ¬ addr ≥ 0x8000 := by unfold IsSelect at ha; bv_omega
  have hb := mapsBank_lt value
  have he : mbc1WrMem addr value m =
      { m with
        mbc1Rom := fread m.mbc1Rom 0x4000 0x4000 (fseek m.rom (0x4000 * mapsBank value))
        rom := (fseek m.rom (0x4000 * mapsBank value)).advance 0x4000 } := by
    rw [mbc1WrMem, if_neg hne]
    simp only [if_neg hlo]
    rw [if_pos (show addr ≥ 0x2000 ∧ addr ≤ 0x3fff from ha)]
    rfl
  rw [he]
  exact
    { file := h.file
      low := fun hu a ha => by
        show fread _ 0x4000 0x4000 _ a = _
        rw [fread_outside _ (.inl (by omega)), h.low hu a ha]
      fixed := fun a h₁ h₂ => by
        show fread _ 0x4000 0x4000 _ a = _
        rw [fread_outside _ (.inl (by omega)), h.fixed a h₁ h₂]
      bank := fun i hi => by
        show fread _ 0x4000 0x4000 _ (0x4000 + i) = _
        rw [fread_inside _ (by omega) (by omega)
          (by rw [fseek_pos, fseek_bytes, h.file]; omega)]
        rw [fseek_pos, fseek_bytes, h.file, Nat.add_sub_cancel_left, Nat.mul_comm] }

omit hsize in
/-- Every other write to the cartridge is to its RAM, or to nothing. -/
theorem CartView.other (h : CartView rom b u m) {addr : U16} (hne : addr ≠ 0xff50)
    (ha : ¬ IsSelect addr) (value : U8) : CartView rom b u (mbc1WrMem addr value m) := by
  rw [mbc1WrMem, if_neg hne]
  dsimp only
  rw [if_neg (show ¬ (addr ≥ 0x2000 ∧ addr ≤ 0x3fff) from ha)]
  split
  · exact ⟨h.file, h.low, h.fixed, h.bank⟩
  · exact h

end

/-! ## Any sequence of writes -/

/-- The last value written to 0x2000 .. 0x3fff. -/
def lastSelect (ws : List (U16 × U8)) : Option U8 :=
  ((ws.filter fun w => IsSelect w.1).getLast?).map Prod.snd

/-- The bank these writes leave mapped. -/
def mappedBank (ws : List (U16 × U8)) : Nat := (lastSelect ws).elim 1 mapsBank

theorem lastSelect_concat (ws : List (U16 × U8)) (w : U16 × U8) :
    lastSelect (ws ++ [w]) = if IsSelect w.1 then some w.2 else lastSelect ws := by
  unfold lastSelect
  rw [List.filter_append, List.getLast?_append]
  by_cases h : IsSelect w.1 <;> simp [h]

theorem cartView_writes {rom boot : Array U8} (hsize : 0x80000 ≤ rom.size) {s : Emu}
    (hs : s.mbc1 = mbc1Init rom boot) (ws : List (U16 × U8)) :
    CartView rom (mappedBank ws) (∃ w ∈ ws, w.1 = 0xff50) (s.writes ws).mbc1 := by
  induction ws using List.reverseRecOn with
  | nil =>
      have h := cartView_init hsize boot
      rw [← hs] at h
      exact { h with low := fun ⟨_, hw, _⟩ => absurd hw List.not_mem_nil }
  | append_singleton ws w ih =>
      have hstep : (s.writes (ws ++ [w])).mbc1 = if CartRange w.1 then
          mbc1WrMem w.1 w.2 (s.writes ws).mbc1 else (s.writes ws).mbc1 := by
        rw [Emu.writes, List.foldl_append]
        exact monitorWrMem_mbc1 w.1 w.2 _
      have hmem : (∃ w' ∈ ws ++ [w], w'.1 = 0xff50) ↔ (∃ w' ∈ ws, w'.1 = 0xff50) ∨ w.1 = 0xff50 := by
        simp [or_and_right, exists_or]
      rw [hstep, hmem, mappedBank, lastSelect_concat]
      by_cases hu : w.1 = 0xff50
      · have hn : ¬ IsSelect w.1 := by rw [hu]; decide
        rw [if_neg hn, if_pos (.inl hu), hu]
        have h := ih.unmap hsize w.2
        exact { h with low := fun _ => h.low trivial }
      · by_cases hsel : IsSelect w.1
        · have hc : CartRange w.1 := by
            unfold IsSelect at hsel
            exact .inr (.inl (by bv_omega))
          rw [if_pos hsel, if_pos hc]
          have h := ih.select hsize hsel w.2
          exact { h with low := fun hx => h.low (hx.resolve_right hu) }
        · rw [if_neg hsel]
          have h : CartView rom (mappedBank ws) (∃ w ∈ ws, w.1 = 0xff50)
              (if CartRange w.1 then mbc1WrMem w.1 w.2 (s.writes ws).mbc1
                else (s.writes ws).mbc1) := by
            split
            · exact ih.other hu hsel w.2
            · exact ih
          exact { h with low := fun hx => h.low (hx.resolve_right hu) }

/-! ## The view -/

/-- The bank a select should map. -/
def bankOf (value : U8) : Nat := if value &&& 0x1f = 0 then 1 else (value &&& 0x1f).toNat

/-- What a program should see of the cartridge, with bank `b` mapped. -/
def SeesBank (rom : Array U8) (b : Nat) (s : Emu) : Prop :=
  (∀ a < 0x4000, monitorRdMem s (BitVec.ofNat 16 a) = rom.getD a 0) ∧
    ∀ i < 0x4000, monitorRdMem s (BitVec.ofNat 16 (0x4000 + i)) = rom.getD (b * 0x4000 + i) 0

theorem monitorRdMem_rom (s : Emu) {a : Nat} (h : a < 0x8000) :
    monitorRdMem s (BitVec.ofNat 16 a) = s.mbc1.mbc1Rom a := by
  have hn : (BitVec.ofNat 16 a).toNat = a := by
    rw [BitVec.toNat_ofNat]
    omega
  have hlow : BitVec.ofNat 16 a ≤ 0x7fff := by
    rw [BitVec.le_def, hn]
    exact Nat.le_of_lt_succ h
  rw [monitorRdMem_low hlow, hn]

theorem CartView.seesBank {rom : Array U8} {b : Nat} {u : Prop} {s : Emu}
    (h : CartView rom b u s.mbc1) (hu : u) : SeesBank rom b s := by
  constructor
  · intro a ha
    rw [monitorRdMem_rom s (by omega)]
    by_cases hlow : a < 0x256
    · exact h.low hu a hlow
    · exact h.fixed a (by omega) ha
  · intro i hi
    rw [monitorRdMem_rom s (by omega)]
    exact h.bank i hi

/-- The values that map another bank than they should: the low five bits are
zero and the rest is not. -/
theorem mapsBank_eq_iff (value : U8) :
    mapsBank value = bankOf value ↔ ¬ (value ≠ 0 ∧ value &&& 0x1f = 0) := by
  revert value
  decide +kernel

theorem mapsBank_wrong {value : U8} (h : value ≠ 0 ∧ value &&& 0x1f = 0) :
    mapsBank value = 0 ∧ bankOf value = 1 := by
  revert value
  decide +kernel

/-- **The cartridge view.**  After any writes that unmap the boot ROM, a program
sees bank 0 and the bank it selected last, unless that select was of a value
other than 0 with its low five bits zero; then it sees bank 0 twice. -/
theorem seesBank_iff (rom boot : Array U8) (hsize : 0x80000 ≤ rom.size) (s : Emu)
    (hs : s.mbc1 = mbc1Init rom boot) (ws : List (U16 × U8)) (hu : ∃ w ∈ ws, w.1 = 0xff50) :
    SeesBank rom ((lastSelect ws).elim 1 bankOf) (s.writes ws) ↔
      ¬ (∃ v, lastSelect ws = some v ∧ v ≠ 0 ∧ v &&& 0x1f = 0) ∨
        ∀ i < 0x4000, rom.getD i 0 = rom.getD (0x4000 + i) 0 := by
  have hsees := (cartView_writes hsize hs ws).seesBank hu
  by_cases hbad : ∃ v, lastSelect ws = some v ∧ v ≠ 0 ∧ v &&& 0x1f = 0
  · obtain ⟨v, hv, hwrong⟩ := hbad
    obtain ⟨h₀, h₁⟩ := mapsBank_wrong hwrong
    have hm : mappedBank ws = 0 := by
      rw [mappedBank, hv]
      exact h₀
    have hb : (lastSelect ws).elim 1 bankOf = 1 := by
      rw [hv]
      exact h₁
    rw [hm] at hsees
    rw [hb]
    constructor
    · intro h
      refine .inr fun i hi => ?_
      have h0 := hsees.2 i hi
      rw [h.2 i hi, Nat.one_mul, Nat.zero_mul, Nat.zero_add] at h0
      exact h0.symm
    · rintro (hn | hsame)
      · exact absurd ⟨v, hv, hwrong⟩ hn
      · refine ⟨hsees.1, fun i hi => ?_⟩
        rw [hsees.2 i hi, Nat.one_mul, Nat.zero_mul, Nat.zero_add]
        exact hsame i hi
  · have hm : mappedBank ws = (lastSelect ws).elim 1 bankOf := by
      rw [mappedBank]
      cases hl : lastSelect ws with
      | none => rfl
      | some v => exact (mapsBank_eq_iff v).mpr fun hv => hbad ⟨v, hl, hv⟩
    rw [hm] at hsees
    exact ⟨fun _ => .inl hbad, fun _ => hsees⟩

/-- A ROM of 0x80000 bytes whose first is 1, the others 0. -/
def markedRom : Array U8 := (Array.replicate 0x80000 0).set! 0 1

theorem markedRom_size : markedRom.size = 0x80000 := by
  rw [markedRom, Array.size_set!, Array.size_replicate]

/-- Bank 3 selected, then the boot ROM unmapped. -/
theorem seesBank_three :
    SeesBank markedRom 3 ((powerOn markedRom #[]).writes [(0x2000, 3), (0xff50, 1)]) :=
  (seesBank_iff markedRom #[] markedRom_size.ge (powerOn markedRom #[]) rfl
    [(0x2000, 3), (0xff50, 1)] ⟨(0xff50, 1), by decide, rfl⟩).mpr (.inl (by
      rintro ⟨v, hv, h⟩
      cases hv
      exact absurd h.2 (by decide)))

/-- A select of 0x20 should map bank 1 and maps bank 0. -/
theorem not_seesBank_select20 :
    ¬ ∀ (rom boot : Array U8), 0x80000 ≤ rom.size → ∀ ws : List (U16 × U8),
      (∃ w ∈ ws, w.1 = 0xff50) →
        SeesBank rom ((lastSelect ws).elim 1 bankOf) ((powerOn rom boot).writes ws) := by
  intro h
  have hws : ∃ w ∈ [((0x2000 : U16), (0x20 : U8)), (0xff50, 1)], w.1 = 0xff50 :=
    ⟨(0xff50, 1), by decide, rfl⟩
  have hspec := h markedRom #[] markedRom_size.ge _ hws
  have hreal := (cartView_writes markedRom_size.ge (s := powerOn markedRom #[]) rfl
    [(0x2000, 0x20), (0xff50, 1)]).seesBank hws
  have h₁ := hspec.2 0 (by decide)
  have h₀ := hreal.2 0 (by decide)
  rw [h₁] at h₀
  have hb₁ : (lastSelect [((0x2000 : U16), (0x20 : U8)), (0xff50, 1)]).elim 1 bankOf = 1 := by decide
  have hb₀ : mappedBank [((0x2000 : U16), (0x20 : U8)), (0xff50, 1)] = 0 := by decide
  rw [hb₁, hb₀] at h₀
  simp [markedRom] at h₀

end RealBoy
