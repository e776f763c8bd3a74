/-
# `RealBoy.Emu.Dma` — a DMA transfer copies a page

The loop of `wr_reg` goes through `monitor_rd_mem` and `monitor_wr_mem`, byte
after byte.  Its target is OAM; a source page is 0x100 addresses from a multiple
of 0x100, so it is OAM itself, byte for byte, or does not meet it (`dma_apart`),
and the loop is a copy of the page as it was (`dma_copies`).
-/
import RealBoy.Emu.Cells
import RealBoy.Lib.Copy

namespace RealBoy

open Emu

/-- The addresses a transfer reads. -/
def dmaSource (value : U8) (i : Nat) : U16 := value.setWidth 16 * 0x100 + BitVec.ofNat 16 i

theorem dmaLoop_eq (value : U8) (s : Emu) :
    dmaLoop monitorWrMem (value.setWidth 16 * 0x100) s =
      Copy.loop monitorRdMem monitorWrMem dmaAddr (dmaSource value) 0xa0 s := rfl

theorem dmaSource_toNat (value : U8) {i : Nat} (hi : i < 0xa0) :
    (dmaSource value i).toNat = value.toNat * 0x100 + i := by
  unfold dmaSource
  bv_omega

/-- A page is OAM, or apart from it. -/
theorem dma_apart (value : U8) : Copy.Apart dmaAddr (dmaSource value) 0xa0 where
  src_ne i j hij hj he := by
    have hsrc := dmaSource_toNat value hj
    have hdst := dmaAddr_toNat (Nat.lt_trans hij hj)
    rw [he, hdst] at hsrc
    omega
  dst_ne i j hij hj he := by
    have hdst := dmaAddr_toNat hj
    rw [he, dmaAddr_toNat (Nat.lt_trans hij hj)] at hdst
    omega

/-- OAM is memory. -/
theorem dmaAddr_memory {i : Nat} (hi : i < 0xa0) : IsMemory (dmaAddr i) := by
  have := dmaAddr_toNat hi
  unfold IsMemory
  bv_omega

theorem dmaAddr_cell {i : Nat} (hi : i < 0xa0) : cellOf (dmaAddr i) = some (.oam i) := by
  have hn := dmaAddr_toNat hi
  obtain ⟨c, hc⟩ := Option.isSome_iff_exists.mp (cellOf_isSome.mpr (dmaAddr_memory hi))
  rw [hc]
  cases cellOf_cases hc with
  | oam => exact congrArg (fun k => some (Cell.oam k)) (by bv_omega)
  | tileData | tileMap1 | tileMap2 | mbc1Ram | wram | hram => exact absurd hn (by bv_omega)
  | tmpIoreg _ _ ho => exact absurd (by bv_omega) ho

theorem dmaAddr_cellwise {i : Nat} (hi : i < 0xa0) :
    Copy.Cellwise monitorRdMem monitorWrMem (dmaAddr i) :=
  monitorRdMem_monitorWrMem (dmaAddr_memory hi)

/-- An address outside OAM is none of the targets. -/
theorem ne_dmaAddr {b : U16} (hb : ¬ (0xfe00 ≤ b ∧ b ≤ 0xfe9f)) {i : Nat} (hi : i < 0xa0) :
    b ≠ dmaAddr i := by
  intro he
  have := dmaAddr_toNat hi
  rw [← he] at this
  bv_omega

/-- Memory after a transfer: OAM is the page as it was. -/
theorem monitorRdMem_dma (value : U8) (s : Emu) {i : Nat} (hi : i < 0xa0) :
    monitorRdMem (monitorWrMem 0xff46 value s) (dmaAddr i) =
      monitorRdMem s (dmaSource value i) := by
  rw [monitorWrMem_dma, dmaLoop_eq]
  exact Copy.rd_loop_dst (fun i hi => dmaAddr_cellwise hi) (dma_apart value)
    (s.log (.monitorWrMem 0xff46 value)) hi

/-- Memory after a transfer: what is not OAM. -/
theorem monitorRdMem_dma_of_ne (value : U8) (s : Emu) {b : U16}
    (hb : ¬ (0xfe00 ≤ b ∧ b ≤ 0xfe9f)) :
    monitorRdMem (monitorWrMem 0xff46 value s) b = monitorRdMem s b := by
  rw [monitorWrMem_dma, dmaLoop_eq]
  exact Copy.rd_loop_of_ne (fun i hi => dmaAddr_cellwise hi) _ fun i hi => ne_dmaAddr hb hi

/-- **OAM DMA.**  OAM becomes the page as it was before the write; no other
address reads differently, and the CPU keeps its registers. -/
theorem dma_copies (s : Emu) (value : U8) :
    (∀ i < 0xa0, (monitorWrMem 0xff46 value s).ppu.oam i =
      monitorRdMem s (value.setWidth 16 * 0x100 + BitVec.ofNat 16 i)) ∧
    (∀ b, ¬ (0xfe00 ≤ b ∧ b ≤ 0xfe9f) →
      monitorRdMem (monitorWrMem 0xff46 value s) b = monitorRdMem s b) ∧
    (monitorWrMem 0xff46 value s).regs = s.regs ∧
    (monitorWrMem 0xff46 value s).cpu = s.cpu := by
  refine ⟨fun i hi => ?_, fun b hb => monitorRdMem_dma_of_ne value s hb,
    monitorWrMem_keeps_regs _ _ _, ?_⟩
  · have hoam := monitorRdMem_cell (dmaAddr_cell hi) (monitorWrMem 0xff46 value s)
    exact hoam.symm.trans (monitorRdMem_dma value s hi)
  · exact monitorWrMem_dma_view Emu.cpu (fun _ _ _ => rfl) (fun _ _ _ => rfl) value s

end RealBoy
