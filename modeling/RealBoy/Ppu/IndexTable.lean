/-
# `RealBoy.Ppu.IndexTable` — the 17 rows of the index

`ObjIndex` speaks of rows; here is what it says of the cells of `oam_hash`
(`IndexTable`), and of a history of writes to OAM (`oamIndex`).  The rows are
filled from the left, a cell holds an object that belongs to its row, no object
is in two cells, and the last row is empty: it is what a full row 15 would run
into.  An object that is in the table stays, and one that is not has had no Y
byte of 16 or more in any state so far.

`oam_rehash` scans without looking where the table ends.  `Checked.oamWr` is a write
to OAM that looks, and any sequence of them runs through.  What the bus does to OAM,
DMA transfers included, is such a sequence (`replayed_writes`).
-/
import RealBoy.Ppu.Bounds

namespace RealBoy

open Emu
open Bounded (bind_eq)

/-! ## `oam_rehash` with its cells checked -/

namespace Checked

/-- `oam_rehash`. -/
def oamRehash (addr : Nat) (newY : U8) (p : Ppu) : Option Ppu := do
  let oldY ← oam p addr
  let old := oamHashRow (bucketOf oldY)
  let t ← Bounded.unlink addr oamHashSize (oamHashSize - old) old false p.oamHash
  let new := oamHashRow (bucketOf newY)
  let t ← Bounded.link addr oamHashSize (oamHashSize - new) new t
  return { p with oamHash := t }

/-- The OAM branch of `ppu_wr`. -/
def oamWr (addr : Nat) (value : U8) (p : Ppu) : Option Ppu := do
  let oldY ← oam p addr
  let p ← if addr &&& 0x3 = 0 ∧ bucketOf oldY ≠ bucketOf value then
      oamRehash addr value p
    else pure p
  return { p with oam := Function.update p.oam addr value }

end Checked

section

variable {p : Ppu} {rows : Nat → List Nat}

/-- A row that ends in the table has its last read there. -/
theorem ObjIndex.scan_lt (h : ObjIndex p.oam p.oamHash rows) {r : Nat} (hr : r < 17) :
    oamHashRow r + (rows r).length < oamHashSize := by
  have hfuel : (rows r).length < 40 * 17 - 40 * r := h.table.fuel hr (h.ends hr)
  unfold oamHashRow oamHashSize
  omega

/-- **The scans of `oam_rehash`** stay in the table, full rows included. -/
theorem ObjIndex.checked_oamRehash (h : ObjIndex p.oam p.oamHash rows) {e : Nat} (he : e < 40)
    {value : U8} (hne : bucketOf (p.oam (4 * e)) ≠ bucketOf value) :
    Checked.oamRehash (4 * e) value p = some (oamRehash (4 * e) value p) := by
  have hold : bucketOf (p.oam (4 * e)) < 17 := Nat.lt_succ_of_lt (bucketOf_lt _)
  have hnew : bucketOf value < 17 := Nat.lt_succ_of_lt (bucketOf_lt _)
  have hends := h.ends hold
  have hread : Checked.oam p (4 * e : Nat) = some (p.oam (4 * e)) :=
    Bounded.read_natCast (by omega) p.oam
  have hunlink : Bounded.unlink (4 * e) oamHashSize
      (oamHashSize - oamHashRow (bucketOf (p.oam (4 * e))))
      (oamHashRow (bucketOf (p.oam (4 * e)))) false p.oamHash = some _ :=
    Bounded.unlink_eq (4 * e) (h.table.row hold hends) (h.table.fuel hold hends) (h.scan_lt hold)
  -- the new row is as it was, and has room
  have htable := h.table.unlink hold hends (4 * e)
  have hrow : Function.update rows (bucketOf (p.oam (4 * e)))
      ((rows (bucketOf (p.oam (4 * e)))).erase (4 * e)) (bucketOf value) = rows (bucketOf value) :=
    Function.update_of_ne (Ne.symm hne) ..
  have hout : 4 * e ∉ rows (bucketOf value) := by
    intro hmem
    obtain ⟨-, -, -, hb⟩ := h.filed _ _ hmem
    exact hne hb
  have hroom := h.length_lt he hout
  rw [← hrow] at hroom
  have hlink := Bounded.link_eq (4 * e) (htable.row hnew (.inl hroom))
    (htable.fuel hnew (.inl hroom)) (hrow ▸ h.scan_lt hnew)
  rw [Checked.oamRehash, bind_eq hread]
  dsimp only
  rw [bind_eq hunlink]
  exact bind_eq hlink _

/-- **One write to OAM** reads and stores inside its two tables. -/
theorem ObjIndex.checked_oamWr (h : ObjIndex p.oam p.oamHash rows) {k : Nat} (hk : k < 0xa0)
    (value : U8) : Checked.oamWr k value p = some (RealBoy.oamWr k value p) := by
  have hread : Checked.oam p k = some (p.oam k) := Bounded.read_natCast hk p.oam
  rw [Checked.oamWr, bind_eq hread, RealBoy.oamWr]
  by_cases hc : k &&& 0x3 = 0 ∧ bucketOf (p.oam k) ≠ bucketOf value
  · obtain ⟨h4, hne⟩ := hc
    obtain ⟨e, rfl⟩ : ∃ e, k = 4 * e := ⟨k / 4, by have := (and_three_eq_zero k).mp h4; omega⟩
    rw [if_pos ⟨h4, hne⟩, if_pos ⟨h4, hne⟩]
    exact bind_eq (h.checked_oamRehash (by omega) hne) _
  · rw [if_neg hc, if_neg hc]
    rfl

end

/-! ## Sequences of writes -/

/-- OAM and its index as they start out. -/
def Ppu.fresh (p : Ppu) : Ppu := { p with oam := Ppu.zero.oam, oamHash := Ppu.zero.oamHash }

/-- Writes to OAM, one after the other. -/
def Ppu.oamWrites (p : Ppu) (ws : List (Fin 0xa0 × U8)) : Ppu :=
  ws.foldl (fun p w => oamWr w.1 w.2 p) p

/-- The same with their cells checked. -/
def Checked.oamWrites (p : Ppu) (ws : List (Fin 0xa0 × U8)) : Option Ppu :=
  ws.foldlM (fun p w => Checked.oamWr w.1 w.2 p) p

/-- The writes to OAM among the bus's, those of DMA transfers included. -/
def oamCalls (es : List Event) : List (Fin 0xa0 × U8) :=
  es.filterMap fun
    | .monitorWrMem addr value =>
      if h : addr.toNat - 0xfe00 < 0xa0 ∧ 0xfe00 ≤ addr.toNat then
        some (⟨addr.toNat - 0xfe00, h.1⟩, value)
      else none
    | _ => none

section

variable {p : Ppu} {rows : Nat → List Nat}

/-- **A sequence of writes** runs through inside the tables, keeps the index, and
leaves in it what is in it. -/
theorem ObjIndex.oamWrites (ws : List (Fin 0xa0 × U8)) :
    ∀ {p : Ppu} {rows : Nat → List Nat}, ObjIndex p.oam p.oamHash rows →
      Checked.oamWrites p ws = some (p.oamWrites ws) ∧
      ∃ rows', ObjIndex (p.oamWrites ws).oam (p.oamWrites ws).oamHash rows' ∧
        ∀ e < 40, Filed rows e → Filed rows' e := by
  induction ws with
  | nil => exact fun h => ⟨rfl, _, h, fun e _ hf => hf⟩
  | cons w ws ih =>
      intro p rows h
      obtain ⟨rows₁, h₁, hf₁⟩ := h.oamWr w.1.isLt w.2
      obtain ⟨hrun, rows₂, h₂, hf₂⟩ := ih h₁
      refine ⟨?_, rows₂, h₂, fun e he hf => hf₂ e he ((hf₁ e he).mpr (.inl hf))⟩
      rw [Checked.oamWrites, List.foldlM_cons, bind_eq (h.checked_oamWr w.1.isLt w.2)]
      exact hrun

/-- The index of objects starts out empty. -/
theorem Ppu.fresh_objIndex (p : Ppu) : ObjIndex p.fresh.oam p.fresh.oamHash fun _ => [] :=
  objIndex_empty (fun _ _ => rfl) (fun _ => rfl)

theorem Ppu.oamWrites_append (p : Ppu) (ws ws' : List (Fin 0xa0 × U8)) :
    p.oamWrites (ws ++ ws') = (p.oamWrites ws).oamWrites ws' := List.foldl_append

/-! ## The table itself -/

/-- Object `e` is in the table. -/
def Present (p : Ppu) (e : Nat) : Prop := ∃ c < oamHashSize, p.oamHash c = some (4 * e)

/-- What the 17 rows of 40 cells hold. -/
structure IndexTable (p : Ppu) : Prop where
  /-- A row is filled from the left. -/
  leading : ∀ r < 17, ∃ n ≤ 40, ∀ i < 40, (p.oamHash (oamHashRow r + i)).isSome ↔ i < n
  /-- A cell of row `r` points to an object whose Y byte belongs there. -/
  filed : ∀ r < 17, ∀ i < 40, ∀ k, p.oamHash (oamHashRow r + i) = some k →
    ∃ e < 40, k = 4 * e ∧ bucketOf (p.oam k) = r
  /-- No two cells point to the same object. -/
  once : ∀ c < oamHashSize, ∀ c' < oamHashSize, ∀ k,
    p.oamHash c = some k → p.oamHash c' = some k → c = c'
  last : ∀ i < 40, p.oamHash (oamHashRow 16 + i) = none
  /-- No scan of `get_objs_at_xy` leaves the table, on any line. -/
  lookup : ∀ (x : U32) (y : U8),
    Checked.getObjsAtXY p x (y.setWidth 32) = some (getObjsAtXY p x (y.setWidth 32))

theorem ObjIndex.cell (h : ObjIndex p.oam p.oamHash rows) {r i : Nat} (hr : r < 17) (hi : i < 40) :
    p.oamHash (oamHashRow r + i) = (rows r)[i]? := h.table.cells r hr i hi

/-- A cell is a place in a row. -/
theorem cell_eq {c : Nat} (hc : c < oamHashSize) :
    c / 40 < 17 ∧ c % 40 < 40 ∧ oamHashRow (c / 40) + c % 40 = c := by
  unfold oamHashSize at hc
  unfold oamHashRow
  omega

theorem ObjIndex.mem_row (h : ObjIndex p.oam p.oamHash rows) {c k : Nat} (hc : c < oamHashSize)
    (hk : p.oamHash c = some k) : (rows (c / 40))[c % 40]? = some k := by
  obtain ⟨hr, hi, he⟩ := cell_eq hc
  rw [← h.cell hr hi, he, hk]

theorem ObjIndex.present_iff (h : ObjIndex p.oam p.oamHash rows) (e : Nat) :
    Present p e ↔ Filed rows e := by
  constructor
  · rintro ⟨c, hc, hk⟩
    exact ⟨c / 40, List.mem_of_getElem? (h.mem_row hc hk)⟩
  · rintro ⟨r, hr⟩
    obtain ⟨-, -, -, hb⟩ := h.filed r _ hr
    have hr17 : r < 17 := hb ▸ Nat.lt_succ_of_lt (bucketOf_lt _)
    obtain ⟨i, hi⟩ := List.getElem?_of_mem hr
    have hlen := h.table.length_le r hr17
    have hlt : i < (rows r).length := (List.getElem?_eq_some_iff.mp hi).1
    refine ⟨oamHashRow r + i, ?_, ?_⟩
    · unfold oamHashRow oamHashSize
      omega
    · rw [h.cell hr17 (by omega), hi]

/-- **The invariant, cell by cell.** -/
theorem ObjIndex.indexTable (h : ObjIndex p.oam p.oamHash rows) : IndexTable p where
  leading r hr := by
    refine ⟨(rows r).length, h.table.length_le r hr, fun i hi => ?_⟩
    rw [h.cell hr hi, Option.isSome_iff_ne_none, ne_eq, List.getElem?_eq_none_iff, Nat.not_le]
  filed r hr i hi k hk := by
    rw [h.cell hr hi] at hk
    exact h.filed r k (List.mem_of_getElem? hk)
  once c hc c' hc' k hk hk' := by
    have hc₁ := h.mem_row hc hk
    have hc₂ := h.mem_row hc' hk'
    have hrow : c / 40 = c' / 40 :=
      h.row_unique (List.mem_of_getElem? hc₁) (List.mem_of_getElem? hc₂)
    rw [← hrow] at hc₂
    have hlt : c % 40 < (rows (c / 40)).length := (List.getElem?_eq_some_iff.mp hc₁).1
    have hcol : c % 40 = c' % 40 := (List.getElem?_inj hlt (h.nodup _)).mp (hc₁.trans hc₂.symm)
    omega
  last i hi := by
    rw [h.cell (by decide) hi, List.getElem?_eq_none]
    cases hrow : rows 16 with
    | nil => exact Nat.zero_le i
    | cons k l =>
        -- sixteen times sixteen is more than a byte
        obtain ⟨-, -, -, hb⟩ := h.filed 16 k (hrow ▸ List.mem_cons_self)
        exact absurd hb (Nat.ne_of_lt (bucketOf_lt _))
  lookup x y := by
    have hrun := h.checked_getObjsAtXY x y.isLt
    rwa [BitVec.ofNat_toNat] at hrun

end

/-! ## The bus -/

theorem oamCalls_append (es es' : List Event) :
    oamCalls (es ++ es') = oamCalls es ++ oamCalls es' := List.filterMap_append

theorem oamCalls_dmaAddr {k : Nat} (hk : k < 0xa0) (value : U8) :
    oamCalls [.monitorWrMem (dmaAddr k) value] = [(⟨k, hk⟩, value)] := by
  have haddr := dmaAddr_toNat hk
  simp [oamCalls, haddr, hk]

/-- A write elsewhere is no write to OAM. -/
theorem oamCalls_other {addr : U16} (h : ∀ k < 0xa0, addr ≠ dmaAddr k) (value : U8) :
    oamCalls [.monitorWrMem addr value] = [] := by
  have hout : ¬ (addr.toNat - 0xfe00 < 0xa0 ∧ 0xfe00 ≤ addr.toNat) := by
    rintro ⟨hk, hge⟩
    refine h _ hk (BitVec.eq_of_toNat_eq ?_)
    rw [dmaAddr_toNat hk]
    omega
  simp [oamCalls, hout]

theorem oamWr_fresh (k : Nat) (value : U8) (p : Ppu) : (oamWr k value p).fresh = p.fresh := by
  unfold oamWr
  dsimp only
  split <;> rfl

/-- Writes to OAM change OAM and the index. -/
theorem oamWrites_fresh (ws : List (Fin 0xa0 × U8)) :
    ∀ p : Ppu, (p.oamWrites ws).fresh = p.fresh := by
  induction ws with
  | nil => exact fun _ => rfl
  | cons w ws ih => exact fun p => (ih (oamWr w.1 w.2 p)).trans (oamWr_fresh w.1 w.2 p)

/-- The same OAM, and the same index. -/
structure SameIndex (p q : Ppu) : Prop where
  oam : p.oam = q.oam
  oamHash : p.oamHash = q.oamHash

theorem SameIndex.eq_of_fresh {p q : Ppu} (h : SameIndex p q) (hf : p.fresh = q.fresh) : p = q := by
  obtain ⟨ho, hh⟩ := h
  have hp : p = { p.fresh with oam := p.oam, oamHash := p.oamHash } := rfl
  rw [hp, hf, ho, hh]
  rfl

theorem SameIndex.oamWr {p q : Ppu} (h : SameIndex p q) (k : Nat) (value : U8) :
    SameIndex (oamWr k value p) (oamWr k value q) := by
  obtain ⟨ho, hh⟩ := h
  unfold RealBoy.oamWr oamRehash
  rw [ho, hh]
  split
  · exact ⟨rfl, rfl⟩
  · exact ⟨congrArg (Function.update · k value) ho, hh⟩

/-- The rest of the PPU has no part in it. -/
theorem SameIndex.oamWrites (ws : List (Fin 0xa0 × U8)) :
    ∀ {p q : Ppu}, SameIndex p q → SameIndex (p.oamWrites ws) (q.oamWrites ws) := by
  induction ws with
  | nil => exact id
  | cons w ws ih => exact fun h => ih (h.oamWr w.1 w.2)

/-- OAM and the index are what the writes to OAM so far have made of empty ones. -/
def Replayed (s : Emu) : Prop := s.ppu.fresh.oamWrites (oamCalls s.events) = s.ppu

theorem Replayed.monitorWrMem {s : Emu} (h : Replayed s) (addr : U16) (value : U8) :
    Replayed (monitorWrMem addr value s) := by
  refine monitorWrMem_induct ?_ ?_ addr value s h
  · intro s value h
    have hcalls : oamCalls (s.log (.monitorWrMem 0xff46 value)).events = oamCalls s.events := by
      rw [log_events, oamCalls_append, oamCalls_other fun k hk => (dmaAddr_ne hk).symm,
        List.append_nil]
    exact (congrArg s.ppu.fresh.oamWrites hcalls).trans h
  · intro s addr value hdma h
    have hw := (monitorWrMem_cases addr value s).oamWrite hdma
    have hevents := (monitorWrMem_cases addr value s).events hdma
    rw [log_events] at hevents
    unfold Replayed
    rw [hevents, oamCalls_append]
    cases hw with
    | oam k hk ha hppu =>
        have hppu : (RealBoy.monitorWrMem addr value s).ppu = oamWr k value s.ppu := hppu
        rw [ha, oamCalls_dmaAddr hk, Ppu.oamWrites_append, ← ha, hppu, oamWr_fresh, h]
        rfl
    | other hout ho hh =>
        rw [oamCalls_other hout, List.append_nil]
        -- the others have gone on, OAM and the index have not
        have hsame : SameIndex (s.ppu.fresh.oamWrites (oamCalls s.events))
            (RealBoy.monitorWrMem addr value s).ppu := by
          rw [h]
          exact ⟨ho.symm, hh.symm⟩
        have hstart : SameIndex (RealBoy.monitorWrMem addr value s).ppu.fresh s.ppu.fresh :=
          ⟨rfl, rfl⟩
        have hends := hstart.oamWrites (oamCalls s.events)
        have hindex : SameIndex _ _ :=
          ⟨hends.oam.trans hsame.oam, hends.oamHash.trans hsame.oamHash⟩
        exact hindex.eq_of_fresh (oamWrites_fresh _ _)

theorem replayed_writes (rom boot : Array U8) (ws : List (U16 × U8)) :
    Replayed ((powerOn rom boot).writes ws) := by
  induction ws using List.reverseRecOn with
  | nil => rfl
  | append_singleton ws w ih =>
      rw [Emu.writes, List.foldl_append]
      exact ih.monitorWrMem w.1 w.2

/-! ## Over all sequences -/

/-- An object that is in the table stays. -/
theorem present_oamWrites (p : Ppu) {ws ws' : List (Fin 0xa0 × U8)} (hpre : ws <+: ws') {e : Nat}
    (he : e < 40) (h : Present (p.fresh.oamWrites ws) e) : Present (p.fresh.oamWrites ws') e := by
  obtain ⟨rest, rfl⟩ := hpre
  obtain ⟨-, rows, hi, -⟩ := p.fresh_objIndex.oamWrites ws
  obtain ⟨-, rows', hi', hfiled⟩ := hi.oamWrites rest
  rw [Ppu.oamWrites_append, hi'.present_iff]
  exact hfiled e he ((hi.present_iff e).mp h)

/-- An object that is not in the table is above the screen. -/
theorem above_of_not_present (p : Ppu) (ws : List (Fin 0xa0 × U8)) {e : Nat} (he : e < 40)
    (h : ¬ Present (p.fresh.oamWrites ws) e) : (p.fresh.oamWrites ws).oam (4 * e) < 16 := by
  obtain ⟨-, rows, hi, -⟩ := p.fresh_objIndex.oamWrites ws
  rw [hi.present_iff] at h
  exact (bucketOf_eq_zero _).mp (hi.unfiled e he fun r hr => h ⟨r, hr⟩)

/-- **The index of objects.**  What the bus has done to OAM, by writes and by DMA
transfers, is a sequence of writes from empty tables; and over any such sequence
no scan leaves the table, the table is `IndexTable`, objects in it stay, and one
that is not in it has been above the screen all along. -/
theorem oamIndex (rom boot : Array U8) (ws : List (U16 × U8)) :
    let s := (powerOn rom boot).writes ws
    s.ppu.fresh.oamWrites (oamCalls s.events) = s.ppu ∧
    ∀ (p : Ppu) (calls : List (Fin 0xa0 × U8)),
      Checked.oamWrites p.fresh calls = some (p.fresh.oamWrites calls) ∧
      IndexTable (p.fresh.oamWrites calls) ∧
      ∀ before, before <+: calls → ∀ e < 40,
        (Present (p.fresh.oamWrites before) e → Present (p.fresh.oamWrites calls) e) ∧
        (¬ Present (p.fresh.oamWrites calls) e → (p.fresh.oamWrites before).oam (4 * e) < 16) := by
  refine ⟨replayed_writes rom boot ws, fun p calls => ?_⟩
  obtain ⟨hrun, rows, hi, -⟩ := p.fresh_objIndex.oamWrites calls
  refine ⟨hrun, hi.indexTable, fun before hpre e he => ⟨present_oamWrites p hpre he, fun hout => ?_⟩⟩
  exact above_of_not_present p before he fun hin => hout (present_oamWrites p hpre he hin)

/-- All forty objects, one after the other, into row 15. -/
def fullRow : List (Fin 0xa0 × U8) :=
  (List.finRange 40).map fun e : Fin 40 => (⟨4 * e, by have := e.isLt; omega⟩, 0xf8)

/-- The scans of these writes stay in the table, and the first object in its cell. -/
theorem oamIndex_fullRow :
    Checked.oamWrites Ppu.zero.fresh fullRow = some (Ppu.zero.fresh.oamWrites fullRow) ∧
      Present (Ppu.zero.fresh.oamWrites fullRow) 0 := by
  obtain ⟨-, h⟩ := oamIndex #[] #[] []
  obtain ⟨hrun, -, hstays⟩ := h Ppu.zero fullRow
  have hpre : [(0, 0xf8)] <+: fullRow := by decide
  have hfirst : Present (Ppu.zero.fresh.oamWrites [(0, 0xf8)]) 0 := ⟨600, by decide, by decide⟩
  exact ⟨hrun, (hstays _ hpre 0 (by decide)).1 hfirst⟩

end RealBoy
