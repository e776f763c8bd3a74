/-
# `RealBoy.Ppu.ObjectIndex` — the index of the objects by line

`oam_hash` files an object in the row of its Y byte, sixteen lines to a row.
`ObjIndex` is the invariant of every bus write: a row holds objects whose Y
byte belongs there, none twice.  What it does not say is that every object is
filed.  `ppu_wr` files an object when its row changes, and OAM starts out zero:
an object that has never had a Y byte of 16 or more is in row 0 without ever
having been put there, and `get_objs_at_xy` does not find it
(`lookupExact_iff`).
-/
import RealBoy.Emu.Run
import RealBoy.Emu.Write

namespace RealBoy

open Emu

/-! ## The invariant -/

/-- The index of a PPU holds `rows`. -/
structure ObjIndex (oam : Nat → U8) (oamHash : Nat → Option Nat) (rows : Nat → List Nat) : Prop where
  table : NullRows.Table 40 17 rows oamHash
  filed : ∀ r k, k ∈ rows r → ∃ e < 40, k = 4 * e ∧ bucketOf (oam k) = r
  nodup : ∀ r, (rows r).Nodup
  unfiled : ∀ e < 40, (∀ r, 4 * e ∉ rows r) → bucketOf (oam (4 * e)) = 0

theorem bucketOf_lt (y : U8) : bucketOf y < 16 := by
  revert y
  decide +kernel

theorem bucketOf_eq_zero (y : U8) : bucketOf y = 0 ↔ y < 16 := by
  revert y
  decide +kernel

theorem objIndex_empty {oam : Nat → U8} {oamHash : Nat → Option Nat} (ho : ∀ k < 0xa0, oam k = 0)
    (hh : ∀ c, oamHash c = none) : ObjIndex oam oamHash fun _ => [] where
  table := NullRows.table_empty (by decide) fun c _ => hh c
  filed _ _ h := absurd h List.not_mem_nil
  nodup _ := List.nodup_nil
  unfiled e he _ := by
    rw [ho _ (by omega)]
    rfl

section

variable {oam : Nat → U8} {oamHash : Nat → Option Nat} {rows : Nat → List Nat}

/-- The objects' places in OAM. -/
def objPlaces : List Nat := (List.range 40).map (4 * ·)

theorem mem_objPlaces {k : Nat} : k ∈ objPlaces ↔ ∃ e < 40, k = 4 * e := by
  simp [objPlaces, eq_comm]

theorem ObjIndex.subset (h : ObjIndex oam oamHash rows) (r : Nat) : rows r ⊆ objPlaces := by
  intro k hk
  obtain ⟨e, he, hke, -⟩ := h.filed r k hk
  exact mem_objPlaces.mpr ⟨e, he, hke⟩

/-- An object is in one row only. -/
theorem ObjIndex.row_unique (h : ObjIndex oam oamHash rows) {k r r' : Nat} (hr : k ∈ rows r)
    (hr' : k ∈ rows r') : r = r' := by
  obtain ⟨-, -, -, hb⟩ := h.filed r k hr
  obtain ⟨-, -, -, hb'⟩ := h.filed r' k hr'
  exact hb.symm.trans hb'

/-- A row that misses an object has room for it. -/
theorem ObjIndex.length_lt (h : ObjIndex oam oamHash rows) {e r : Nat} (he : e < 40)
    (hn : 4 * e ∉ rows r) : (rows r).length < 40 := by
  have hcons : (4 * e :: rows r).Nodup := List.nodup_cons.mpr ⟨hn, h.nodup r⟩
  have hsub : (4 * e :: rows r) ⊆ objPlaces := by
    refine List.cons_subset.mpr ⟨mem_objPlaces.mpr ⟨e, he, rfl⟩, h.subset r⟩
  have hlen := (List.subperm_of_subset hcons hsub).length_le
  rw [List.length_cons, objPlaces, List.length_map, List.length_range] at hlen
  omega

/-- A full row holds all the objects, and leaves none for the next. -/
theorem ObjIndex.ends (h : ObjIndex oam oamHash rows) {r : Nat} (hr : r < 17) :
    NullRows.Ends 40 17 rows r := by
  by_cases hfull : ∀ e < 40, 4 * e ∈ rows r
  · obtain ⟨-, -, -, hbucket⟩ := h.filed r _ (hfull 0 (by decide))
    have hlt := bucketOf_lt (oam (4 * 0))
    refine .inr ⟨by omega, ?_⟩
    cases hnext : rows (r + 1) with
    | nil => rfl
    | cons k l =>
        have hk : k ∈ rows (r + 1) := hnext ▸ List.mem_cons_self
        obtain ⟨e, he, rfl, -⟩ := h.filed _ k hk
        have := h.row_unique (hfull e he) hk
        omega
  · obtain ⟨e, he⟩ := not_forall.mp hfull
    obtain ⟨he, hn⟩ := Classical.not_imp.mp he
    exact .inl (h.length_lt he hn)

end

/-! ## Writes to OAM -/

/-- The object is somewhere in the index. -/
def Filed (rows : Nat → List Nat) (e : Nat) : Prop := ∃ r, 4 * e ∈ rows r

theorem and_three_eq_zero (k : Nat) : k &&& 0x3 = 0 ↔ k % 4 = 0 := by
  rw [show (0x3 : Nat) = 2 ^ 2 - 1 from rfl, Nat.and_two_pow_sub_one_eq_mod]

section

variable {p : Ppu} {rows : Nat → List Nat}

/-- A write that leaves every object in its row leaves the index. -/
theorem ObjIndex.update (h : ObjIndex p.oam p.oamHash rows) {k : Nat} {value : U8}
    (hsame : k % 4 = 0 → bucketOf (p.oam k) = bucketOf value) :
    ObjIndex (Function.update p.oam k value) p.oamHash rows := by
  have hbucket (e : Nat) :
      bucketOf (Function.update p.oam k value (4 * e)) = bucketOf (p.oam (4 * e)) := by
    by_cases hk : 4 * e = k
    · subst hk
      rw [Function.update_self, hsame (by omega)]
    · rw [Function.update_of_ne hk]
  refine ⟨h.table, fun r k' hk' => ?_, h.nodup, fun e he hn => ?_⟩
  · obtain ⟨e, he, rfl, hb⟩ := h.filed r k' hk'
    exact ⟨e, he, rfl, (hbucket e).trans hb⟩
  · rw [hbucket]
    exact h.unfiled e he hn

/-- The rows after `oam_rehash`. -/
def rehashRows (rows : Nat → List Nat) (k old new : Nat) : Nat → List Nat :=
  let rows := Function.update rows old ((rows old).erase k)
  Function.update rows new (rows new ++ [k])

theorem mem_rehashRows {k old new : Nat} (hne : old ≠ new) (hnodup : (rows old).Nodup)
    {r k' : Nat} : k' ∈ rehashRows rows k old new r ↔
      (r = new ∧ k' = k) ∨ (k' ∈ rows r ∧ ¬ (r = old ∧ k' = k)) := by
  unfold rehashRows
  by_cases hr : r = new
  · subst hr
    rw [Function.update_self, Function.update_of_ne (Ne.symm hne), List.mem_append,
      List.mem_singleton]
    constructor
    · rintro (hk | hk)
      · exact .inr ⟨hk, fun hc => hne hc.1.symm⟩
      · exact .inl ⟨rfl, hk⟩
    · rintro (⟨-, hk⟩ | ⟨hk, -⟩)
      · exact .inr hk
      · exact .inl hk
  · rw [Function.update_of_ne hr]
    by_cases ho : r = old
    · subst ho
      rw [Function.update_self, hnodup.mem_erase_iff]
      constructor
      · rintro ⟨hk, hm⟩
        exact .inr ⟨hm, fun hc => hk hc.2⟩
      · rintro (⟨hn, -⟩ | ⟨hm, hk⟩)
        · exact absurd hn hr
        · exact ⟨fun hc => hk ⟨rfl, hc⟩, hm⟩
    · rw [Function.update_of_ne ho]
      constructor
      · exact fun hm => .inr ⟨hm, fun hc => ho hc.1⟩
      · rintro (⟨hn, -⟩ | ⟨hm, -⟩)
        · exact absurd hn hr
        · exact hm

/-- `oam_rehash` moves one object. -/
theorem ObjIndex.rehash (h : ObjIndex p.oam p.oamHash rows) {e : Nat} (he : e < 40) {value : U8}
    (hne : bucketOf (p.oam (4 * e)) ≠ bucketOf value) :
    ObjIndex (Function.update p.oam (4 * e) value) (oamRehash (4 * e) value p).oamHash
      (rehashRows rows (4 * e) (bucketOf (p.oam (4 * e))) (bucketOf value)) := by
  have hold := bucketOf_lt (p.oam (4 * e))
  have hnew := bucketOf_lt value
  have hmem (r k' : Nat) : k' ∈ rehashRows rows (4 * e) (bucketOf (p.oam (4 * e)))
      (bucketOf value) r ↔ (r = bucketOf value ∧ k' = 4 * e) ∨
        (k' ∈ rows r ∧ ¬ (r = bucketOf (p.oam (4 * e)) ∧ k' = 4 * e)) :=
    mem_rehashRows hne (h.nodup _)
  have hout : 4 * e ∉ rows (bucketOf value) := by
    intro hk
    obtain ⟨-, -, -, hb⟩ := h.filed _ _ hk
    exact hne hb
  refine ⟨?_, ?_, ?_, ?_⟩
  · have h₁ := h.table.unlink (by omega) (h.ends (Nat.lt_succ_of_lt hold)) (4 * e)
    refine h₁.link (by omega) ?_ (4 * e)
    rw [Function.update_of_ne (Ne.symm hne)]
    exact h.length_lt he hout
  · intro r k' hk'
    rcases (hmem r k').mp hk' with ⟨rfl, rfl⟩ | ⟨hk, hn⟩
    · exact ⟨e, he, rfl, by rw [Function.update_self]⟩
    · obtain ⟨e', he', rfl, hb⟩ := h.filed r k' hk
      refine ⟨e', he', rfl, ?_⟩
      have hee : 4 * e' ≠ 4 * e := by
        intro hc
        rw [hc] at hb
        exact hn ⟨hb.symm, hc⟩
      rw [Function.update_of_ne hee, hb]
  · intro r
    unfold rehashRows
    by_cases hr : r = bucketOf value
    · subst hr
      rw [Function.update_self, Function.update_of_ne (Ne.symm hne)]
      refine List.nodup_append.mpr ⟨h.nodup _, List.nodup_singleton _, ?_⟩
      rintro a ha b hb rfl
      rw [List.mem_singleton] at hb
      exact hout (hb ▸ ha)
    · rw [Function.update_of_ne hr]
      by_cases ho : r = bucketOf (p.oam (4 * e))
      · rw [ho, Function.update_self]
        exact (h.nodup _).erase _
      · rw [Function.update_of_ne ho]
        exact h.nodup r
  · intro e' he' hn
    have hee : 4 * e' ≠ 4 * e := by
      intro hc
      exact hn (bucketOf value) ((hmem _ _).mpr (.inl ⟨rfl, hc⟩))
    rw [Function.update_of_ne hee]
    exact h.unfiled e' he' fun r hr => hn r ((hmem _ _).mpr (.inr ⟨hr, fun hc => hee hc.2⟩))

/-- **One write to OAM** keeps the index, and files the object whose Y byte it
sets to 16 or more. -/
theorem ObjIndex.oamWr (h : ObjIndex p.oam p.oamHash rows) {k : Nat} (hk : k < 0xa0) (value : U8) :
    ∃ rows', ObjIndex (oamWr k value p).oam (oamWr k value p).oamHash rows' ∧
      ∀ e < 40, Filed rows' e ↔ Filed rows e ∨ (k = 4 * e ∧ 16 ≤ value) := by
  unfold RealBoy.oamWr
  by_cases hc : k &&& 0x3 = 0 ∧ bucketOf (p.oam k) ≠ bucketOf value
  · obtain ⟨h4, hne⟩ := hc
    obtain ⟨e, rfl⟩ : ∃ e, k = 4 * e := ⟨k / 4, by have := (and_three_eq_zero k).mp h4; omega⟩
    rw [if_pos ⟨h4, hne⟩]
    have hnodup := h.nodup (bucketOf (p.oam (4 * e)))
    refine ⟨_, h.rehash (by omega) hne, fun e' he' => ?_⟩
    constructor
    · rintro ⟨r, hr⟩
      rcases (mem_rehashRows hne hnodup).mp hr with ⟨-, hk'⟩ | ⟨hk', -⟩
      · by_cases hf : Filed rows e'
        · exact .inl hf
        · -- out of row 0 for the first time
          have h0 := h.unfiled e' he' fun r hr => hf ⟨r, hr⟩
          rw [hk'] at h0
          have hv : ¬ value < 16 := fun hv => hne (h0.trans ((bucketOf_eq_zero value).mpr hv).symm)
          exact .inr ⟨hk'.symm, BitVec.not_lt.mp hv⟩
      · exact .inl ⟨r, hk'⟩
    · intro hf
      by_cases hee : 4 * e' = 4 * e
      · exact ⟨bucketOf value, (mem_rehashRows hne hnodup).mpr (.inl ⟨rfl, hee⟩)⟩
      · rcases hf with ⟨r, hr⟩ | ⟨hk', -⟩
        · exact ⟨r, (mem_rehashRows hne hnodup).mpr (.inr ⟨hr, fun hc => hee hc.2⟩)⟩
        · exact absurd hk'.symm hee
  · rw [if_neg hc]
    have hsame : k % 4 = 0 → bucketOf (p.oam k) = bucketOf value := by
      intro h4
      by_contra hne
      exact hc ⟨(and_three_eq_zero k).mpr h4, hne⟩
    refine ⟨rows, h.update hsame, fun e he => ⟨.inl, ?_⟩⟩
    rintro (hf | ⟨rfl, hv⟩)
    · exact hf
    · by_contra hf
      have h0 := h.unfiled e he fun r hr => hf ⟨r, hr⟩
      rw [hsame (by omega), bucketOf_eq_zero] at h0
      exact absurd hv (BitVec.not_le.mpr h0)

end

/-! ## Bus writes -/

/-- A Y byte of 16 or more has been written to object `e`. -/
def everLow (e : Nat) (es : List Event) : Bool :=
  es.any fun
    | .monitorWrMem addr value => addr = dmaAddr (4 * e) && 16 ≤ value
    | _ => false

theorem everLow_concat (e : Nat) (es : List Event) (addr : U16) (value : U8) :
    everLow e (es ++ [.monitorWrMem addr value]) ↔
      everLow e es ∨ (addr = dmaAddr (4 * e) ∧ 16 ≤ value) := by
  simp [everLow]

/-- The index, and which objects are in it. -/
def Indexed (s : Emu) : Prop :=
  ∃ rows, ObjIndex s.ppu.oam s.ppu.oamHash rows ∧ ∀ e < 40, Filed rows e ↔ everLow e s.events

/-- What one write does to OAM and the index. -/
inductive OamWrite (addr : U16) (value : U8) (s s' : Emu) : Prop where
  | oam (k : Nat) : k < 0xa0 → addr = dmaAddr k → s'.ppu = oamWr k value s.ppu →
      OamWrite addr value s s'
  | other : (∀ k < 0xa0, addr ≠ dmaAddr k) → s'.ppu.oam = s.ppu.oam →
      s'.ppu.oamHash = s.ppu.oamHash → OamWrite addr value s s'

theorem wrLcdc_oam (value : U8) (s : Emu) : (wrLcdc value s).ppu.oam = s.ppu.oam ∧
    (wrLcdc value s).ppu.oamHash = s.ppu.oamHash := by
  unfold wrLcdc
  split
  · dsimp only
    split <;> exact ⟨rfl, rfl⟩
  · exact ⟨rfl, rfl⟩

theorem cpuWr_ppu (addr : U16) (value : U8) (s : Emu) : (cpuWr addr value s).ppu = s.ppu := by
  rw [cpuWr_frame]

theorem dmaAddr_bounds {k : Nat} (h : k < 0xa0) : 0xfe00 ≤ dmaAddr k ∧ dmaAddr k ≤ 0xfe9f := by
  have := dmaAddr_toNat h
  constructor <;> bv_omega

theorem PpuWriteTo.oamWrite {addr : U16} {value : U8} {s s' : Emu}
    (h : PpuWriteTo addr value s s') (hdma : addr ≠ 0xff46) : OamWrite addr value s s' := by
  have outside (ha : addr ≤ 0x9fff ∨ addr ≥ 0xff40) : ∀ k < 0xa0, addr ≠ dmaAddr k := by
    intro k hk he
    have := dmaAddr_bounds hk
    bv_omega
  cases h with
  | vram d m₁ m₂ ha => exact .other (outside (.inl ha)) rfl rfl
  | oam k hk ha => exact .oam k hk ha rfl
  | lcdc ha =>
      obtain ⟨ho, hh⟩ := wrLcdc_oam value s
      exact .other (outside (.inr (by bv_omega))) ho hh
  | stat ha => exact .other (outside (.inr (by bv_omega))) rfl rfl
  | ly ha => exact .other (outside (.inr (by bv_omega))) rfl rfl
  | lyc ha => exact .other (outside (.inr (by bv_omega))) rfl rfl
  | dma ha => exact absurd ha hdma
  | other f h₁ h₂ => exact .other (outside (.inr (by bv_omega))) rfl rfl

theorem WriteTo.oamWrite {addr : U16} {value : U8} {s s' : Emu} (h : WriteTo addr value s s')
    (hdma : addr ≠ 0xff46) : OamWrite addr value s s' := by
  have outside (hp : ¬ PpuRange addr) : ∀ k < 0xa0, addr ≠ dmaAddr k := by
    intro k hk he
    have := dmaAddr_bounds hk
    exact hp (by unfold PpuRange; bv_omega)
  cases h with
  | cpu hp =>
      have hppu := cpuWr_ppu addr value s
      exact .other (outside hp) (by rw [hppu]) (by rw [hppu])
  | unmap ha =>
      have hppu := cpuWr_ppu addr value s
      have hp : ¬ PpuRange addr := by unfold PpuRange; bv_omega
      exact .other (outside hp) (congrArg Ppu.oam hppu) (congrArg Ppu.oamHash hppu)
  | ppu hp => exact (ppuWr_cases hp value s).oamWrite hdma
  | mbc1 ha =>
      have hp : ¬ PpuRange addr := by unfold PpuRange; bv_omega
      exact .other (outside hp) rfl rfl
  | ioreg v hp => exact .other (outside hp) rfl rfl

/-- **Every bus write keeps the index.** -/
theorem Indexed.monitorWrMem {s : Emu} (h : Indexed s) (addr : U16) (value : U8) :
    Indexed (monitorWrMem addr value s) := by
  refine monitorWrMem_induct ?_ ?_ addr value s h
  · rintro s value ⟨rows, hi, hf⟩
    refine ⟨rows, hi, fun e he => ?_⟩
    rw [log_events, everLow_concat, hf e he]
    refine ⟨.inl, fun hc => hc.resolve_right fun hc => ?_⟩
    exact dmaAddr_ne (by omega) hc.1.symm
  · rintro s addr value hdma ⟨rows, hi, hf⟩
    have hw := (monitorWrMem_cases addr value s).oamWrite hdma
    have hevents := (monitorWrMem_cases addr value s).events hdma
    rw [log_events] at hevents
    unfold Indexed
    rw [hevents]
    cases hw with
    | oam k hk ha hppu =>
        obtain ⟨rows', hi', hf'⟩ := hi.oamWr hk value
        refine ⟨rows', by rw [hppu]; exact hi', fun e he => ?_⟩
        have hinj : addr = dmaAddr (4 * e) ↔ k = 4 * e := by
          rw [ha]
          constructor
          · intro hc
            have h₁ := dmaAddr_toNat hk
            rw [hc, dmaAddr_toNat (by omega)] at h₁
            omega
          · exact fun hc => by rw [hc]
        rw [hf' e he, everLow_concat, hf e he, hinj]
    | other hout ho hh =>
        refine ⟨rows, by rw [ho, hh]; exact hi, fun e he => ?_⟩
        rw [everLow_concat, hf e he]
        exact ⟨.inl, fun hc => hc.resolve_right fun hc => hout _ (by omega) hc.1⟩

theorem indexed_powerOn (rom boot : Array U8) : Indexed (powerOn rom boot) := by
  refine ⟨fun _ => [], objIndex_empty (fun _ _ => rfl) (fun _ => rfl), fun e _ => ⟨?_, nofun⟩⟩
  rintro ⟨r, hr⟩
  exact absurd hr List.not_mem_nil

theorem indexed_writes (rom boot : Array U8) (ws : List (U16 × U8)) :
    Indexed ((powerOn rom boot).writes ws) := by
  induction ws using List.reverseRecOn with
  | nil => exact indexed_powerOn rom boot
  | append_singleton ws w ih =>
      rw [Emu.writes, List.foldl_append]
      exact ih.monitorWrMem w.1 w.2

/-! ## The lookup -/

/-- The object at place `k` covers the pixel: `0 ≤ y + 16 - Y < size` and
`0 ≤ x + 8 - X < 8`. -/
def Covers (p : Ppu) (x y k : Nat) : Prop :=
  let Y := (p.oam k).toNat
  let X := (p.oam (k + 1)).toNat
  (Y ≤ y + 16 ∧ y + 16 < Y + objSize p.regs) ∧ (X ≤ x + 8 ∧ x + 8 < X + 8)

instance (p : Ppu) (x y k : Nat) : Decidable (Covers p x y k) :=
  inferInstanceAs (Decidable ((_ ∧ _) ∧ (_ ∧ _)))

/-- The entries that cover the pixel, by a scan of OAM. -/
def covering (p : Ppu) (x y : Nat) : List Nat :=
  (List.range 40).filter fun e => Covers p x y (4 * e)

/-- The array `objs` of a lookup is the covering entries in some order when
there are at most ten, and ten of them otherwise. -/
structure LookupExact (p : Ppu) (x y : Nat) (objs : List Nat) : Prop where
  nodup : objs.Nodup
  sound : ∀ k ∈ objs, ∃ e ∈ covering p x y, k = 4 * e
  complete : (covering p x y).length ≤ 10 → ∀ e ∈ covering p x y, 4 * e ∈ objs
  full : 10 < (covering p x y).length → objs.length = 10

theorem objSize_le (regs : PpuRegs) : objSize regs ≤ 16 := by
  unfold objSize
  split <;> omega

variable {p : Ppu} {x y : Nat}

/-- The unsigned differences of `get_objs_at_xy` test the two bounds at once. -/
theorem objCovers_iff (hx : x < 160) (hy : y < 144) (k : Nat) :
    objCovers p (BitVec.ofNat 32 x) (BitVec.ofNat 32 y) k ↔ Covers p x y k := by
  have hsize := objSize_le p.regs
  unfold objCovers Covers
  generalize objSize p.regs = size at hsize ⊢
  generalize p.oam k = Y
  generalize p.oam (k + 1) = X
  rw [Bool.and_eq_true, decide_eq_true_eq, decide_eq_true_eq]
  have hY : Y.toNat < 256 := Y.isLt
  have hX : X.toNat < 256 := X.isLt
  constructor
  · rintro ⟨h₁, h₂⟩
    constructor <;> constructor <;> bv_omega
  · rintro ⟨⟨h₁, h₂⟩, h₃, h₄⟩
    constructor <;> bv_omega

theorem bucketOf_toNat (v : U8) : bucketOf v = v.toNat / 16 := by
  rw [bucketOf, BitVec.toNat_ushiftRight, Nat.shiftRight_eq_div_pow]

/-- An object that covers a line is filed in one of the two rows probed. -/
theorem Covers.bucket {k : Nat} (h : Covers p x y k) :
    bucketOf (p.oam k) = y / 16 ∨ bucketOf (p.oam k) = y / 16 + 1 := by
  obtain ⟨⟨h₁, h₂⟩, -⟩ := h
  have hsize := objSize_le p.regs
  rw [bucketOf_toNat]
  omega

theorem mem_covering {e : Nat} : e ∈ covering p x y ↔ e < 40 ∧ Covers p x y (4 * e) := by
  simp [covering]

theorem probe_row (hy : y < 256) (i : Nat) (hi : i < 2) :
    ((BitVec.ofNat 32 y + BitVec.ofNat 32 i * 16 : U32) >>> 4).toNat = y / 16 + i := by
  rw [BitVec.toNat_ushiftRight, Nat.shiftRight_eq_div_pow]
  have h : (BitVec.ofNat 32 y + BitVec.ofNat 32 i * 16 : U32).toNat = y + i * 16 := by bv_omega
  rw [h]
  omega

/-- The candidates of a lookup: the entries of the two rows that pass the test. -/
def candidates (p : Ppu) (rows : Nat → List Nat) (x y : Nat) : List Nat :=
  (rows (y / 16) ++ rows (y / 16 + 1)).filter fun k => Covers p x y k

/-- **`get_objs_at_xy` is the first ten** that pass its test, on any line. -/
theorem ObjIndex.getObjsAtXY_eq {rows : Nat → List Nat} (h : ObjIndex p.oam p.oamHash rows)
    (x : U32) (hy : y < 256) :
    getObjsAtXY p x (BitVec.ofNat 32 y) =
      ((rows (y / 16) ++ rows (y / 16 + 1)).filter
        (objCovers p x (BitVec.ofNat 32 y))).take 10 := by
  have probe (i : Nat) (hi : i < 2) (acc : List Nat) (hacc : acc.length ≤ 10) :
      NullRows.collect (objCovers p x (BitVec.ofNat 32 y)) 10 p.oamHash
        (oamHashSize - oamHashRow (y / 16 + i)) (oamHashRow (y / 16 + i)) acc =
      (acc ++ (rows (y / 16 + i)).filter (objCovers p x (BitVec.ofNat 32 y))).take 10 :=
    h.table.collect (by omega) (h.ends (by omega)) _ hacc
  unfold RealBoy.getObjsAtXY
  rw [List.foldl_cons, List.foldl_cons, List.foldl_nil]
  dsimp only
  rw [probe_row hy 0 (by omega), probe_row hy 1 (by omega), probe 0 (by omega) [] (by simp),
    probe 1 (by omega) _ (List.length_take_le _ _), List.filter_append]
  rw [List.nil_append, Nat.add_zero]
  -- cutting off at ten first makes no difference
  rw [List.take_append, List.take_append, List.take_take, Nat.min_self, List.length_take]
  congr 2
  omega

/-- On the screen these are the first ten candidates. -/
theorem ObjIndex.getObjsAtXY {rows : Nat → List Nat} (h : ObjIndex p.oam p.oamHash rows)
    (hx : x < 160) (hy : y < 144) :
    getObjsAtXY p (BitVec.ofNat 32 x) (BitVec.ofNat 32 y) = (candidates p rows x y).take 10 := by
  have htest : objCovers p (BitVec.ofNat 32 x) (BitVec.ofNat 32 y) =
      fun k => decide (Covers p x y k) := by
    funext k
    rw [Bool.eq_iff_iff, objCovers_iff hx hy, decide_eq_true_eq]
  rw [h.getObjsAtXY_eq _ (by omega), htest, candidates]

theorem ObjIndex.mem_candidates {rows : Nat → List Nat} (h : ObjIndex p.oam p.oamHash rows)
    {k : Nat} : k ∈ candidates p rows x y ↔ ∃ e ∈ covering p x y, Filed rows e ∧ k = 4 * e := by
  rw [candidates, List.mem_filter, decide_eq_true_eq, List.mem_append]
  constructor
  · rintro ⟨hrow, hc⟩
    obtain ⟨r, hr⟩ : ∃ r, k ∈ rows r := by
      rcases hrow with hr | hr
      · exact ⟨_, hr⟩
      · exact ⟨_, hr⟩
    obtain ⟨e, he, rfl, -⟩ := h.filed r k hr
    exact ⟨e, mem_covering.mpr ⟨he, hc⟩, ⟨r, hr⟩, rfl⟩
  · rintro ⟨e, he, ⟨r, hr⟩, rfl⟩
    obtain ⟨-, hc⟩ := mem_covering.mp he
    refine ⟨?_, hc⟩
    -- the row it is in is the row of its Y byte
    obtain ⟨-, -, -, hb⟩ := h.filed r _ hr
    rcases hc.bucket with hy | hy
    · exact .inl (hy ▸ hb ▸ hr)
    · exact .inr (hy ▸ hb ▸ hr)

theorem ObjIndex.candidates_nodup {rows : Nat → List Nat} (h : ObjIndex p.oam p.oamHash rows) :
    (candidates p rows x y).Nodup := by
  refine List.Nodup.filter _ (List.nodup_append.mpr ⟨h.nodup _, h.nodup _, ?_⟩)
  rintro k hk k' hk' rfl
  have := h.row_unique hk hk'
  omega

theorem covering_nodup : (covering p x y).Nodup := List.nodup_range.filter _

/-- The candidates are the covering entries that are in the index. -/
theorem ObjIndex.candidates_perm {rows : Nat → List Nat} (h : ObjIndex p.oam p.oamHash rows)
    {low : Nat → Bool} (hlow : ∀ e < 40, Filed rows e ↔ low e) :
    (candidates p rows x y).Perm (((covering p x y).filter low).map (4 * ·)) := by
  have hinj : Function.Injective fun e : Nat => 4 * e := fun a b hab =>
    Nat.eq_of_mul_eq_mul_left (by decide) hab
  refine (List.perm_ext_iff_of_nodup h.candidates_nodup
    ((covering_nodup.filter low).map hinj)).mpr fun k => ?_
  rw [h.mem_candidates, List.mem_map]
  constructor
  · rintro ⟨e, he, hf, rfl⟩
    exact ⟨e, List.mem_filter.mpr ⟨he, (hlow e (mem_covering.mp he).1).mp hf⟩, rfl⟩
  · rintro ⟨e, he, rfl⟩
    obtain ⟨he, hl⟩ := List.mem_filter.mp he
    exact ⟨e, he, (hlow e (mem_covering.mp he).1).mpr hl, rfl⟩

/-- What a lookup that misses the entries outside `low` gets right. -/
theorem lookupExact_take {L : List Nat} {low : Nat → Bool}
    (hL : L.Perm (((covering p x y).filter low).map (4 * ·))) :
    LookupExact p x y (L.take 10) ↔
      (∀ e ∈ covering p x y, low e) ∨ 10 ≤ ((covering p x y).filter low).length := by
  have hlen : L.length = ((covering p x y).filter low).length := by
    rw [hL.length_eq, List.length_map]
  have hle := List.length_filter_le low (covering p x y)
  have hmem {k : Nat} : k ∈ L ↔ ∃ e ∈ covering p x y, low e ∧ k = 4 * e := by
    simp only [hL.mem_iff, List.mem_map, List.mem_filter, and_assoc, eq_comm]
  constructor
  · intro h
    rcases Nat.lt_or_ge 10 (covering p x y).length with hlt | hge
    · have hfull := h.full hlt
      rw [List.length_take] at hfull
      exact .inr (by omega)
    · refine .inl fun e he => ?_
      obtain ⟨e', -, hl, hee⟩ := hmem.mp (List.mem_of_mem_take (h.complete hge e he))
      obtain rfl : e = e' := by omega
      exact hl
  · intro h
    refine ⟨?_, fun k hk => ?_, fun hge e he => ?_, fun hlt => ?_⟩
    · have hinj : Function.Injective fun e : Nat => 4 * e := fun a b hab =>
        Nat.eq_of_mul_eq_mul_left (by decide) hab
      exact (hL.nodup_iff.mpr ((covering_nodup.filter low).map hinj)).sublist (List.take_sublist _ _)
    · obtain ⟨e, he, -, hk⟩ := hmem.mp (List.mem_of_mem_take hk)
      exact ⟨e, he, hk⟩
    · have hall : ∀ e ∈ covering p x y, low e := by
        rcases h with h | h
        · exact h
        · exact List.length_filter_eq_length_iff.mp (by omega)
      rw [List.take_of_length_le (by omega)]
      exact hmem.mpr ⟨e, he, hall e he, rfl⟩
    · have h10 : 10 ≤ L.length := by
        rcases h with h | h
        · rw [hlen, List.length_filter_eq_length_iff.mpr h]
          omega
        · omega
      rw [List.length_take]
      omega

/-- **When the lookup is exact.**  After any writes, of either object size:
the lookup is exact when each covering object has had a Y byte of 16 or more
written to it, or ten of them have. -/
theorem lookupExact_iff (rom boot : Array U8) (ws : List (U16 × U8)) {x y : Nat} (hx : x < 160)
    (hy : y < 144) :
    let s := (powerOn rom boot).writes ws
    LookupExact s.ppu x y (RealBoy.getObjsAtXY s.ppu (BitVec.ofNat 32 x) (BitVec.ofNat 32 y)) ↔
      (∀ e ∈ covering s.ppu x y, everLow e s.events) ∨
        10 ≤ ((covering s.ppu x y).filter fun e => everLow e s.events).length := by
  intro s
  obtain ⟨rows, hi, hf⟩ := indexed_writes rom boot ws
  rw [hi.getObjsAtXY hx hy]
  exact lookupExact_take (hi.candidates_perm hf)

/-- An object over (0, 0) whose Y byte was 32 before. -/
theorem lookupExact_moved :
    let s := (powerOn #[] #[]).writes [(0xfe00, 32), (0xfe01, 8), (0xfe00, 12)]
    LookupExact s.ppu 0 0 (RealBoy.getObjsAtXY s.ppu 0 0) :=
  (lookupExact_iff #[] #[] [(0xfe00, 32), (0xfe01, 8), (0xfe00, 12)] (x := 0) (y := 0) (by decide)
    (by decide)).mpr (.inl (by decide +kernel))

/-- The same object, with no such write: the lookup does not find it. -/
theorem not_lookupExact_fresh :
    let s := (powerOn #[] #[]).writes [(0xfe00, 12), (0xfe01, 8)]
    ¬ LookupExact s.ppu 0 0 (RealBoy.getObjsAtXY s.ppu 0 0) := by
  intro s h
  have hc : 0 ∈ covering s.ppu 0 0 := by decide +kernel
  have hn : 4 * 0 ∉ RealBoy.getObjsAtXY s.ppu 0 0 := by decide +kernel
  exact hn (h.complete (by decide +kernel) 0 hc)

end RealBoy
