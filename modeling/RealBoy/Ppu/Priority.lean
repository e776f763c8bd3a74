/-
# `RealBoy.Ppu.Priority` — the object in front

Of the objects that cover a pixel the one that is drawn is to be the opaque one
with the smallest X, and the first in OAM of those (`InFront`).
`get_pixel_priority_from_objs` keeps a winner along the array, which comes in
the order of the object index, not of OAM.  A transparent object neither
becomes the winner nor stands in its way, with one exception: where X is equal and
the newcomer is first in OAM, the branch takes it without a look at its pixel.
So the object in front loses to a transparent one behind it in the array, of the
same X and before it in OAM, and to nothing else (`priorityExact_iff`).
-/
import RealBoy.Lib.Contest
import RealBoy.Ppu.ObjectIndex

namespace RealBoy

/-- An entry of OAM. -/
def OamEntry (obj : Nat) : Prop := ∃ e < 40, obj = 4 * e

/-! ## The order of OAM -/

/-- The loop over OAM stops at the first of the two. -/
theorem firstInOam_eq {i j : Nat} (fuel : Nat) : ∀ {k : Nat}, k ≤ i → k ≤ j → min i j < k + fuel →
    firstInOam (4 * i) (4 * j) fuel (4 * k) = 4 * min i j := by
  induction fuel with
  | zero =>
      intro k hi hj hlt
      omega
  | succ fuel ih =>
      intro k hi hj hlt
      rw [firstInOam]
      split
      case isTrue h => omega
      case isFalse h => exact ih (k := k + 1) (by omega) (by omega) (by omega)

theorem firstInOam_iff {a b : Nat} (ha : OamEntry a) (hb : OamEntry b) :
    firstInOam a b 40 0 = a ↔ a ≤ b := by
  obtain ⟨i, hi, rfl⟩ := ha
  obtain ⟨j, hj, rfl⟩ := hb
  have h := firstInOam_eq (i := i) (j := j) 40 (Nat.zero_le i) (Nat.zero_le j) (by omega)
  rw [Nat.mul_zero] at h
  rw [h]
  omega

/-! ## The object in front -/

section

variable (p : Ppu) (x : U8)

/-- The object's X. -/
def objX (obj : Nat) : U8 := p.oam (obj + 1)

/-- The object comes before the other: by X, then by OAM. -/
def Before (obj obj' : Nat) : Prop :=
  objX p obj < objX p obj' ∨ (objX p obj = objX p obj' ∧ obj < obj')

/-- The opaque object that comes before all others. -/
structure InFront (objs : List Nat) (obj : Nat) : Prop where
  mem : obj ∈ objs
  shows : objIndx p obj x ≠ 0
  before : ∀ obj' ∈ objs, objIndx p obj' x ≠ 0 → obj' = obj ∨ Before p obj obj'

/-- What `get_pixel_priority_from_objs` should give: 0 where every object is
transparent, else the object in front and its index. -/
structure PriorityExact (first : Nat) (rest : List Nat) : Prop where
  transparent : (∀ obj ∈ first :: rest, objIndx p obj x = 0) →
    (getPixelPriorityFromObjs p x first rest).pixel = 0
  inFront : ∀ obj, InFront p x (first :: rest) obj →
    getPixelPriorityFromObjs p x first rest = ⟨objIndx p obj x, obj⟩

/-- The object throws out the winner `obj`, transparent as it is. -/
def ThrowsOut (obj obj' : Nat) : Prop :=
  objIndx p obj' x = 0 ∧ objX p obj' = objX p obj ∧ obj' < obj

/-- The object in front meets one that throws it out. -/
def FrontThrownOut (objs : List Nat) : Prop :=
  ∃ obj pre post, objs = pre ++ obj :: post ∧ InFront p x objs obj ∧
    ∃ obj' ∈ post, ThrowsOut p x obj obj'

end

/-! ## One object more -/

section

variable {p : Ppu} {x : U8} {w : PixelPriority} {obj : Nat}

theorem step_of_transparent (hw : w.pixel = 0) :
    pixelPriorityStep p x w obj = if objIndx p obj x ≠ 0 then ⟨objIndx p obj x, obj⟩ else w := by
  simp [pixelPriorityStep, hw]

theorem step_of_lt (h : objX p obj < objX p w.outObj) :
    pixelPriorityStep p x w obj = if objIndx p obj x ≠ 0 then ⟨objIndx p obj x, obj⟩ else w := by
  have hle : p.oam (obj + 1) ≤ p.oam (w.outObj + 1) := BitVec.le_of_lt h
  have hne : p.oam (obj + 1) ≠ p.oam (w.outObj + 1) := BitVec.ne_of_lt h
  simp [pixelPriorityStep, hle, hne]

/-- The branch that does not look at the pixel. -/
theorem step_of_eq (hw : w.pixel ≠ 0) (h : objX p obj = objX p w.outObj) (hobj : OamEntry obj)
    (hwin : OamEntry w.outObj) :
    pixelPriorityStep p x w obj = if obj ≤ w.outObj then ⟨objIndx p obj x, obj⟩ else w := by
  have hle : p.oam (obj + 1) ≤ p.oam (w.outObj + 1) := BitVec.le_of_eq h
  have heq : p.oam (obj + 1) = p.oam (w.outObj + 1) := h
  rw [pixelPriorityStep, if_pos (.inr hle), if_pos ⟨hw, heq⟩,
    if_congr (firstInOam_iff hobj hwin) rfl rfl]

theorem step_of_gt (hw : w.pixel ≠ 0) (h : objX p w.outObj < objX p obj) :
    pixelPriorityStep p x w obj = w := by
  have hle : ¬ p.oam (obj + 1) ≤ p.oam (w.outObj + 1) := BitVec.not_le.mpr h
  simp [pixelPriorityStep, hw, hle]

/-- The winner is the old one or the new one. -/
theorem step_old_or_new :
    pixelPriorityStep p x w obj = w ∨ pixelPriorityStep p x w obj = ⟨objIndx p obj x, obj⟩ := by
  unfold pixelPriorityStep
  dsimp only
  split
  · split
    · split
      · exact .inr rfl
      · exact .inl rfl
    · split
      · exact .inr rfl
      · exact .inl rfl
  · exact .inl rfl

theorem step_outObj :
    (pixelPriorityStep p x w obj).outObj = w.outObj ∨ (pixelPriorityStep p x w obj).outObj = obj :=
  step_old_or_new.imp (congrArg PixelPriority.outObj) (congrArg PixelPriority.outObj)

end

/-! ## The array -/

section

variable {p : Ppu} {x : U8} {objs : List Nat} {obj : Nat}

/-- What the loop holds: a winner that is opaque is one of the array. -/
structure HoldsOpaque (p : Ppu) (x : U8) (objs : List Nat) (w : PixelPriority) : Prop where
  entry : OamEntry w.outObj
  winner : w.pixel ≠ 0 → w.outObj ∈ objs ∧ objIndx p w.outObj x ≠ 0

theorem HoldsOpaque.step (hoam : ∀ obj ∈ objs, OamEntry obj) {w : PixelPriority}
    (h : HoldsOpaque p x objs w) (hobj : obj ∈ objs) : HoldsOpaque p x objs (pixelPriorityStep p x w obj) := by
  rcases @step_old_or_new p x w obj with hold | hnew
  · rwa [hold]
  · rw [hnew]
    exact ⟨hoam obj hobj, fun hne => ⟨hobj, hne⟩⟩

/-- **The object in front takes over** from every winner before it. -/
theorem InFront.takes (hoam : ∀ obj ∈ objs, OamEntry obj) (h : InFront p x objs obj)
    {w : PixelPriority} (hw : HoldsOpaque p x objs w) :
    pixelPriorityStep p x w obj = ⟨objIndx p obj x, obj⟩ := by
  by_cases hz : w.pixel = 0
  · rw [step_of_transparent hz, if_pos h.shows]
  obtain ⟨hmem, hshows⟩ := hw.winner hz
  have hentry := hoam obj h.mem
  rcases h.before w.outObj hmem hshows with heq | hlt | ⟨heq, hlt⟩
  · rw [step_of_eq hz (congrArg (objX p) heq.symm) hentry hw.entry, if_pos heq.ge]
  · rw [step_of_lt hlt, if_pos h.shows]
  · rw [step_of_eq hz heq hentry hw.entry, if_pos (Nat.le_of_lt hlt)]

/-- It is left alone by what does not throw it out. -/
theorem InFront.keeps (hoam : ∀ obj ∈ objs, OamEntry obj) (h : InFront p x objs obj) {obj' : Nat}
    (hmem : obj' ∈ objs) (hne : obj' ≠ obj) (hout : ¬ ThrowsOut p x obj obj') :
    pixelPriorityStep p x ⟨objIndx p obj x, obj⟩ obj' = ⟨objIndx p obj x, obj⟩ := by
  have hbefore := h.before obj' hmem
  rcases BitVec.lt_trichotomy (objX p obj') (objX p obj) with hlt | heq | hgt
  · have hz : objIndx p obj' x = 0 := by
      by_contra hshows
      rcases hbefore hshows with h' | h' | ⟨h', -⟩
      · exact hne h'
      · exact absurd hlt (BitVec.lt_asymm h')
      · exact BitVec.ne_of_lt hlt h'.symm
    rw [step_of_lt (w := ⟨objIndx p obj x, obj⟩) hlt, if_neg (not_not.mpr hz)]
  · rw [step_of_eq (w := ⟨objIndx p obj x, obj⟩) h.shows heq (hoam obj' hmem) (hoam obj h.mem)]
    refine if_neg fun hle => ?_
    have hlt : obj' < obj := Nat.lt_of_le_of_ne hle hne
    by_cases hz : objIndx p obj' x = 0
    · exact hout ⟨hz, heq, hlt⟩
    · rcases hbefore hz with h' | h' | ⟨-, h'⟩
      · exact hne h'
      · exact BitVec.ne_of_lt h' heq.symm
      · omega
  · exact step_of_gt (w := ⟨objIndx p obj x, obj⟩) h.shows hgt

/-- It loses to what throws it out. -/
theorem InFront.loses (hoam : ∀ obj ∈ objs, OamEntry obj) (h : InFront p x objs obj) {obj' : Nat}
    (hmem : obj' ∈ objs) (hout : ThrowsOut p x obj obj') :
    (pixelPriorityStep p x ⟨objIndx p obj x, obj⟩ obj').outObj ≠ obj := by
  obtain ⟨-, heq, hlt⟩ := hout
  rw [step_of_eq (w := ⟨objIndx p obj x, obj⟩) h.shows heq (hoam obj' hmem) (hoam obj h.mem),
    if_pos (Nat.le_of_lt hlt)]
  exact Nat.ne_of_lt hlt

/-- The first object is an object more to a loop that holds nothing. -/
theorem getPixelPriorityFromObjs_eq (p : Ppu) (x : U8) (first : Nat) (rest : List Nat) :
    getPixelPriorityFromObjs p x first rest =
      (first :: rest).foldl (pixelPriorityStep p x) ⟨0, first⟩ := by
  have hfirst : pixelPriorityStep p x ⟨0, first⟩ first = ⟨objIndx p first x, first⟩ := by
    rw [step_of_transparent rfl]
    split
    case isTrue => rfl
    case isFalse h => rw [not_not.mp h]
  rw [getPixelPriorityFromObjs, List.foldl_cons, hfirst]

/-- **The loop ends with the object in front** unless it is thrown out. -/
theorem InFront.wins_iff {pre post : List Nat} (hobjs : objs = pre ++ obj :: post)
    (hnodup : objs.Nodup) (hoam : ∀ obj ∈ objs, OamEntry obj) (h : InFront p x objs obj)
    {first : Nat} (hfirst : first ∈ objs) :
    objs.foldl (pixelPriorityStep p x) ⟨0, first⟩ = ⟨objIndx p obj x, obj⟩ ↔
      ∀ obj' ∈ post, ¬ ThrowsOut p x obj obj' := by
  have hpre : ∀ obj' ∈ pre, obj' ∈ objs := fun _ hm => hobjs ▸ List.mem_append_left _ hm
  have hpost : ∀ obj' ∈ post, obj' ∈ objs ∧ obj' ≠ obj := by
    intro obj' hm
    refine ⟨hobjs ▸ List.mem_append_right _ (List.mem_cons_of_mem _ hm), ?_⟩
    rintro rfl
    rw [hobjs] at hnodup
    exact (List.nodup_cons.mp (List.nodup_append.mp hnodup).2.1).1 hm
  have hstart : HoldsOpaque p x objs ⟨0, first⟩ := ⟨hoam first hfirst, fun hne => absurd rfl hne⟩
  have hwin := Contest.foldl_eq_iff (HoldsOpaque p x objs) (fun w => w.outObj ≠ obj)
    (ThrowsOut p x obj) hstart (fun w obj' hm hw => hw.step hoam (hpre obj' hm)) (fun w hw => h.takes hoam hw)
    (fun obj' hm hout => h.keeps hoam (hpost obj' hm).1 (hpost obj' hm).2 hout)
    (fun obj' hm hout => h.loses hoam (hpost obj' hm).1 hout) ?_ fun hne => hne rfl
  · rwa [← hobjs] at hwin
  · intro w obj' hm hw
    rcases @step_outObj p x w obj' with hkeep | hnew
    · rwa [hkeep]
    · rw [hnew]
      exact (hpost obj' hm).2

/-- **Object priority**, and exactly when the object in front is lost. -/
theorem priorityExact_iff (p : Ppu) (x : U8) (first : Nat) (rest : List Nat)
    (hnodup : (first :: rest).Nodup) (hoam : ∀ obj ∈ first :: rest, OamEntry obj) :
    PriorityExact p x first rest ↔ ¬ FrontThrownOut p x (first :: rest) := by
  constructor
  · rintro hexact ⟨obj, pre, post, hobjs, hfront, obj', hmem, hout⟩
    have hwins := hexact.inFront obj hfront
    rw [getPixelPriorityFromObjs_eq] at hwins
    exact (hfront.wins_iff hobjs hnodup hoam List.mem_cons_self).mp hwins obj' hmem hout
  · intro hkept
    refine ⟨fun hall => ?_, fun obj hfront => ?_⟩
    · rw [getPixelPriorityFromObjs_eq]
      refine List.foldlRecOn (motive := fun w : PixelPriority => w.pixel = 0) _ _ rfl ?_
      intro w hw obj hmem
      rw [step_of_transparent hw, if_neg (not_not.mpr (hall obj hmem))]
      exact hw
    · obtain ⟨pre, post, hobjs⟩ := List.append_of_mem hfront.mem
      rw [getPixelPriorityFromObjs_eq]
      refine (hfront.wins_iff hobjs hnodup hoam List.mem_cons_self).mpr fun obj' hmem hout => ?_
      exact hkept ⟨obj, pre, post, hobjs, hfront, obj', hmem, hout⟩

end

/-- The arrays of `get_objs_at_xy` are such: after any bus writes, entries of
OAM, no two the same. -/
theorem getObjsAtXY_entries (rom boot : Array U8) (ws : List (U16 × U8)) {x y : Nat} (hx : x < 160)
    (hy : y < 144) :
    let objs := getObjsAtXY ((powerOn rom boot).writes ws).ppu (BitVec.ofNat 32 x) (BitVec.ofNat 32 y)
    objs.Nodup ∧ ∀ obj ∈ objs, OamEntry obj := by
  obtain ⟨rows, hi, -⟩ := indexed_writes rom boot ws
  dsimp only
  rw [hi.getObjsAtXY hx hy]
  refine ⟨hi.candidates_nodup.sublist (List.take_sublist _ _), fun obj hmem => ?_⟩
  obtain ⟨e, he, -, rfl⟩ := hi.mem_candidates.mp (List.mem_of_mem_take hmem)
  exact ⟨e, (mem_covering.mp he).1, rfl⟩

/-- Two opaque objects on line 0, the second of OAM one column further left. -/
def twoOpaque : Emu :=
  (powerOn #[] #[]).writes [
    (0x8010, 0xff),                                 -- tile 1, row 0
    (0xff40, 0x82),
    (0xfe00, 16), (0xfe01, 9), (0xfe02, 1),
    (0xfe04, 16), (0xfe05, 8), (0xfe06, 1)]

/-- Where both are, the second is in front. -/
theorem priorityExact_twoOpaque :
    PriorityExact twoOpaque.ppu 1 0 [4] ∧
      (getPixelPriorityFromObjs twoOpaque.ppu 1 0 [4]).outObj = 4 := by
  have hoam : ∀ obj ∈ [0, 4], OamEntry obj := by
    intro obj hmem
    rcases List.mem_pair.mp hmem with rfl | rfl
    · exact ⟨0, by decide, rfl⟩
    · exact ⟨1, by decide, rfl⟩
  have hopaque : ∀ obj ∈ [0, 4], objIndx twoOpaque.ppu obj 1 ≠ 0 := by decide +kernel
  refine ⟨(priorityExact_iff twoOpaque.ppu 1 0 [4] (by decide) hoam).mpr ?_, by decide +kernel⟩
  rintro ⟨obj, pre, post, hobjs, -, obj', hmem, hz, -⟩
  refine hopaque obj' ?_ hz
  rw [hobjs]
  exact List.mem_append_right _ (List.mem_cons_of_mem _ hmem)

/-- Two objects over the left end of line 4, of the same X.  The second of OAM
is opaque there; the first, lower on the screen, is transparent. -/
def twoObjects : Emu :=
  (powerOn #[] #[]).writes [
    (0x801a, 0xff),                                 -- tile 1, row 5
    (0xff40, 0x82), (0xff44, 4),
    (0xfe00, 16), (0xfe01, 8), (0xfe02, 0),
    (0xfe04, 17), (0xfe04, 15), (0xfe05, 8), (0xfe06, 1)]

/-- In the order of the index the transparent object comes second, and is
taken. -/
theorem not_priorityExact_twoObjects :
    ¬ ∀ (p : Ppu) (x : U8) (first : Nat) (rest : List Nat),
      (first :: rest).Nodup → (first :: rest).length ≤ 10 →
      (∀ obj ∈ first :: rest,
        OamEntry obj ∧ objCovers p (x.setWidth 32) (p.regs.ly.setWidth 32) obj) →
      PriorityExact p x first rest := by
  intro h
  have hexact := h twoObjects.ppu 0 4 [0] (by decide) (by decide) ?_
  · have hfront : InFront twoObjects.ppu 0 [4, 0] 4 :=
      ⟨by decide, by decide +kernel, fun obj hmem hshows => by
        rcases List.mem_cons.mp hmem with rfl | hmem
        · exact .inl rfl
        · rw [List.mem_singleton.mp hmem] at hshows
          exact absurd (by decide +kernel) hshows⟩
    exact absurd (hexact.inFront 4 hfront) (by decide +kernel)
  · intro obj hmem
    rcases List.mem_cons.mp hmem with rfl | hmem
    · exact ⟨⟨1, by decide, rfl⟩, by decide +kernel⟩
    · rw [List.mem_singleton.mp hmem]
      exact ⟨⟨0, by decide, rfl⟩, by decide +kernel⟩

end RealBoy
