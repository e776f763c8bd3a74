/-
# `RealBoy.Server.Breakpoints` — the breakpoint list as a sequence

The list of `list.c` beside a plain sequence: `list_add` appends, `list_del`
removes a position, `list_remove` the first occurrence of an item.  The first two
are what they should be, across any reallocation (`listForEach_listAdd`,
`listDel_spec`).

`list_remove` counts the element it stops at before it leaves the loop, so it
deletes the position after the match; and it takes the last value of the loop
variable, which past the end is stale memory, for the test of success.  What
comes out is right for all that when the two positions hold the same item, or
when the stale word is in the allocation and is 0 (`removes_iff`), and at no other
time.
-/
import RealBoy.Lib.Runs
import RealBoy.Server.Control

namespace RealBoy

/-! ## The calls -/

/-- A call on a list. -/
inductive ListOp where
  | add (item : U64)
  | remove (item : U64)
  | del (index : Nat)
deriving DecidableEq

/-- Its effect on the list. -/
def ListT.op (list : ListT) : ListOp → Option ListT
  | .add item => some (listAdd item list)
  | .remove item => listRemove item list
  | .del index => listDel index list

/-- Its effect on a sequence. -/
def seqOp (items : List U64) : ListOp → List U64
  | .add item => items ++ [item]
  | .remove item => items.erase item
  | .del index => items.eraseIdx index

/-! ## Contents -/

theorem listForEach_length (list : ListT) : (listForEach list).length = list.length := by
  simp [listForEach]

theorem listForEach_getElem {list : ListT} {i : Nat} (h : i < (listForEach list).length) :
    (listForEach list)[i] = list.items i := by
  simp [listForEach]

theorem listForEach_listAdd (item : U64) (list : ListT) :
    listForEach (listAdd item list) = listForEach list ++ [item] := by
  have hsame : (listResize list).length = list.length ∧ (listResize list).items = list.items := by
    unfold listResize
    split <;> exact ⟨rfl, rfl⟩
  show (List.range ((listResize list).length + 1)).map
    (Function.update (listResize list).items (listResize list).length item) = _
  rw [hsame.1, hsame.2, List.range_succ, List.map_append, List.map_singleton, Function.update_self]
  congr 1
  refine List.map_congr_left fun i hi => ?_
  exact Function.update_of_ne (Nat.ne_of_lt (List.mem_range.mp hi)) _ _

/-- `list_del` removes its position. -/
theorem listDel_spec {index : Nat} {list : ListT} (h : index < list.length) :
    ∃ list', listDel index list = some list' ∧
      listForEach list' = (listForEach list).eraseIdx index := by
  refine ⟨_, if_pos h, List.ext_getElem ?_ fun i h₁ h₂ => ?_⟩
  · rw [listForEach_length, List.length_eraseIdx, listForEach_length, if_pos h]
  · rw [listForEach_length] at h₁
    rw [listForEach_getElem, List.getElem_eraseIdx]
    have h₁ : i < list.length - 1 := h₁
    show (if index ≤ i ∧ i < list.length - 1 then list.items (i + 1) else list.items i) = _
    split
    case isTrue hi => rw [dif_neg (by omega), listForEach_getElem]
    case isFalse hi => rw [dif_pos (by omega), listForEach_getElem]

/-! ## `list_remove` -/

/-- Removing the next position instead is the same when it holds the same. -/
theorem eraseIdx_succ_eq_iff {α : Type} (xs : List α) (i : Nat) (h : i < xs.length) :
    xs.eraseIdx (i + 1) = xs.eraseIdx i ↔ xs[i + 1]? = xs[i]? := by
  induction xs generalizing i with
  | nil => exact absurd h (Nat.not_lt_zero i)
  | cons x xs ih =>
      cases i with
      | zero =>
          cases xs with
          | nil => simp
          | cons y ys => simp [eq_comm]
      | succ i =>
          rw [List.eraseIdx_cons_succ, List.eraseIdx_cons_succ, List.getElem?_cons_succ,
            List.getElem?_cons_succ, List.cons_inj_right]
          exact ih i (Nat.lt_of_succ_lt_succ h)

/-- The first occurrence of the item has another right behind it. -/
def Doubled (item : U64) (items : List U64) : Prop := items[items.idxOf item + 1]? = some item

instance (item : U64) (items : List U64) : Decidable (Doubled item items) :=
  inferInstanceAs (Decidable (_ = _))

/-- The slip of `list_remove` does not show. -/
def RemoveOk (item : U64) (list : ListT) : Prop :=
  if item ∈ listForEach list then item ≠ 0 ∧ Doubled item (listForEach list)
  else list.length ≠ list.capacity ∧ list.items list.length = 0

instance (item : U64) (list : ListT) : Decidable (RemoveOk item list) :=
  inferInstanceAs (Decidable (if item ∈ listForEach list then _ ∧ _ else _ ∧ _))

/-- The call removes the first occurrence of the item, if there is one. -/
def Removes (item : U64) (list : ListT) : Prop :=
  ∃ list', listRemove item list = some list' ∧ listForEach list' = (listForEach list).erase item

theorem erase_ne_self {item : U64} {items : List U64} (h : item ∈ items) :
    items ≠ items.erase item := by
  intro he
  have hlen := congrArg List.length he
  rw [List.length_erase_of_mem h] at hlen
  have := List.length_pos_of_mem h
  omega

/-- An item that is there and is not 0: the next position is deleted. -/
theorem listRemove_mem {item : U64} {list : ListT} (hmem : item ∈ listForEach list)
    (h0 : item ≠ 0) :
    listRemove item list = listDel ((listForEach list).idxOf item + 1) list := by
  have hlt := List.idxOf_lt_length_of_mem hmem
  rw [listForEach_length] at hlt
  unfold listRemove
  dsimp only
  rw [if_pos hlt, if_neg h0]

theorem removes_mem_iff {item : U64} {list : ListT} (hmem : item ∈ listForEach list)
    (h0 : item ≠ 0) : Removes item list ↔ Doubled item (listForEach list) := by
  have hidx := List.idxOf_lt_length_of_mem hmem
  have hfirst : (listForEach list)[(listForEach list).idxOf item]? = some item := by
    rw [List.getElem?_eq_getElem hidx, List.getElem_idxOf]
  have herase : (listForEach list).erase item =
      (listForEach list).eraseIdx ((listForEach list).idxOf item) :=
    List.erase_eq_eraseIdx_of_idxOf rfl
  have hiff := eraseIdx_succ_eq_iff _ _ hidx
  rw [hfirst] at hiff
  rw [Removes, listRemove_mem hmem h0, herase, Doubled, ← hiff]
  constructor
  · rintro ⟨list', hdel, hitems⟩
    by_cases hlast : (listForEach list).idxOf item + 1 < list.length
    · obtain ⟨list'', hdel', hitems'⟩ := listDel_spec hlast
      rw [hdel] at hdel'
      rw [← hitems, ← hitems', Option.some.inj hdel']
    · rw [listDel, if_neg hlast] at hdel
      exact nomatch hdel
  · intro heq
    have hlast : (listForEach list).idxOf item + 1 < list.length := by
      by_contra hlast
      rw [List.eraseIdx_of_length_le (by rw [listForEach_length]; omega), ← herase] at heq
      exact erase_ne_self hmem heq
    obtain ⟨list', hdel, hitems⟩ := listDel_spec hlast
    exact ⟨list', hdel, hitems.trans heq⟩

/-- **When `list_remove` removes what it is asked to.** -/
theorem removes_iff (item : U64) (list : ListT) : Removes item list ↔ RemoveOk item list := by
  unfold RemoveOk
  split
  case isTrue hmem =>
    by_cases h0 : item = 0
    · -- 0 stands for no element
      have hlt := List.idxOf_lt_length_of_mem hmem
      rw [listForEach_length] at hlt
      have hsame : listRemove item list = some list := by
        unfold listRemove
        dsimp only
        rw [if_pos hlt, if_pos h0]
      refine iff_of_false ?_ fun h => h.1 h0
      rintro ⟨list', hdel, hitems⟩
      rw [hsame] at hdel
      exact erase_ne_self hmem (Option.some.inj hdel ▸ hitems)
    · rw [removes_mem_iff hmem h0]
      exact ⟨fun h => ⟨h0, h⟩, fun h => h.2⟩
  case isFalse hmem =>
    have hidx : ¬ (listForEach list).idxOf item < list.length := by
      rw [List.idxOf_eq_length hmem, listForEach_length]
      exact Nat.lt_irrefl _
    unfold Removes listRemove
    dsimp only
    rw [if_neg hidx, List.erase_of_not_mem hmem]
    constructor
    · rintro ⟨list', hdel, -⟩
      split at hdel
      case isTrue hfull => cases hdel
      case isFalse hroom =>
        refine ⟨hroom, ?_⟩
        by_contra hstale
        rw [if_neg hstale, listDel, if_neg (Nat.lt_irrefl _)] at hdel
        exact nomatch hdel
    · rintro ⟨hroom, hstale⟩
      exact ⟨list, (if_neg hroom).trans (if_pos hstale), rfl⟩

/-! ## Runs -/

/-- The list, where the calls so far have had a defined effect, and the sequence
it should be. -/
structure ListRun where
  list : Option ListT
  items : List U64

/-- A call on both. -/
def ListRun.step (r : ListRun) (op : ListOp) : ListRun where
  list := r.list.bind (·.op op)
  items := seqOp r.items op

/-- A list made by `create_list`, in memory that holds `mem`. -/
def ListRun.start (mem : Nat → U64) : ListRun := ⟨some (createList mem), []⟩

/-- The list holds the sequence. -/
def ListRun.Agrees (r : ListRun) : Prop := ∃ list, r.list = some list ∧ listForEach list = r.items

/-- `list_del` is called with a position of the sequence. -/
def ListRun.ValidIndex (r : ListRun) : ListOp → Prop
  | .del index => index < r.items.length
  | _ => True

/-- `list_remove` is called where its slip does not show. -/
def ListRun.RemoveSpared (r : ListRun) : ListOp → Prop
  | .remove item => ∀ list, r.list = some list → RemoveOk item list
  | _ => True

theorem ListRun.agrees_start (mem : Nat → U64) : (start mem).Agrees := ⟨createList mem, rfl, rfl⟩

/-- One call. -/
theorem ListRun.agrees_step {r : ListRun} (h : r.Agrees) {op : ListOp} (hop : r.ValidIndex op) :
    (r.step op).Agrees ↔ r.RemoveSpared op := by
  obtain ⟨list, hlist, hitems⟩ := h
  unfold step Agrees
  rw [hlist, Option.bind_some, ← hitems]
  cases op with
  | add item => exact iff_of_true ⟨_, rfl, listForEach_listAdd item list⟩ trivial
  | remove item =>
      show Removes item list ↔ ∀ l, r.list = some l → RemoveOk item l
      rw [removes_iff, hlist]
      refine ⟨fun h l hl => Option.some.inj hl ▸ h, fun h => h list rfl⟩
  | del index =>
      have hlt : index < list.length := by
        rw [← listForEach_length, hitems]
        exact hop
      exact iff_of_true (listDel_spec hlt) trivial

/-! ## Requests -/

/-- The breakpoints are addresses of 32 bits. -/
def HoldsAddrs (list : ListT) : Prop := ∀ item ∈ listForEach list, ∃ addr : U32, item = addr.setWidth 64

theorem listDel_holdsAddrs {index : Nat} {list list' : ListT} (h : HoldsAddrs list)
    (hdel : listDel index list = some list') : HoldsAddrs list' := by
  by_cases hlt : index < list.length
  · obtain ⟨list'', hdel', hitems⟩ := listDel_spec hlt
    rw [hdel] at hdel'
    rw [HoldsAddrs, Option.some.inj hdel', hitems]
    exact fun item hitem => h item (List.mem_of_mem_eraseIdx hitem)
  · rw [listDel, if_neg hlt] at hdel
    exact nomatch hdel

theorem listRemove_holdsAddrs {item : U64} {list list' : ListT} (h : HoldsAddrs list)
    (hrem : listRemove item list = some list') : HoldsAddrs list' := by
  unfold listRemove at hrem
  dsimp only at hrem
  split at hrem
  · split at hrem
    · exact Option.some.inj hrem ▸ h
    · exact listDel_holdsAddrs h hrem
  · split at hrem
    · cases hrem
    · split at hrem
      · exact Option.some.inj hrem ▸ h
      · exact listDel_holdsAddrs h hrem

/-- The requests keep it. -/
theorem dispatchControlFlow_holdsAddrs {req : ControlFlow} {c c' : Control}
    (h : HoldsAddrs c.breakpointList) (hreq : dispatchControlFlow req c = some c') :
    HoldsAddrs c'.breakpointList := by
  cases req with
  | flowDelete addr =>
      rw [dispatchControlFlow, handleControlFlowDelete] at hreq
      split at hreq
      · obtain ⟨list', hrem, hc'⟩ := Option.bind_eq_some_iff.mp hreq
        rw [← Option.some.inj hc']
        exact listRemove_holdsAddrs h hrem
      · exact Option.some.inj hreq ▸ h
  | flowBreak addr =>
      rw [← Option.some.inj hreq]
      intro item hitem
      rw [handleControlFlowBreak, listForEach_listAdd] at hitem
      rcases List.mem_append.mp hitem with hitem | hitem
      · exact h item hitem
      · exact ⟨addr, List.mem_singleton.mp hitem⟩
  | flowUntil | flowContinue | flowNext | flowOther => exact Option.some.inj hreq ▸ h

/-- The statics after these requests, where their effect is defined. -/
def Control.after (mem : Nat → U64) (reqs : List ControlFlow) : Option Control :=
  reqs.foldlM (fun c req => dispatchControlFlow req c) (Control.init mem)

/-- What every request keeps holds after any. -/
theorem after_induct {I : Control → Prop} {mem : Nat → U64} (hinit : I (Control.init mem))
    (hstep : ∀ (req : ControlFlow) (c c' : Control),
      I c → dispatchControlFlow req c = some c' → I c') {reqs : List ControlFlow} :
    ∀ {c : Control}, Control.after mem reqs = some c → I c := by
  rw [Control.after]
  generalize Control.init mem = c₀ at hinit ⊢
  induction reqs generalizing c₀ with
  | nil =>
      intro c h
      exact Option.some.inj h ▸ hinit
  | cons req reqs ih =>
      intro c h
      rw [List.foldlM_cons] at h
      obtain ⟨c₁, hreq, h⟩ := Option.bind_eq_some_iff.mp h
      exact ih c₁ (hstep req c₀ c₁ hinit hreq) h

theorem after_holdsAddrs {mem : Nat → U64} {reqs : List ControlFlow} {c : Control}
    (h : Control.after mem reqs = some c) : HoldsAddrs c.breakpointList := by
  refine after_induct (I := fun c => HoldsAddrs c.breakpointList) ?_ ?_ h
  · exact fun item hitem => absurd hitem List.not_mem_nil
  · exact fun req c c' => dispatchControlFlow_holdsAddrs

/-- `handle_control_flow_delete` disarms one occurrence of the address, where
there is one, and nothing else. -/
def Disarms (addr : U32) (c : Control) : Prop :=
  ∃ c', handleControlFlowDelete addr c = some c' ∧
    listForEach c'.breakpointList = (listForEach c.breakpointList).erase (addr.setWidth 64)

/-- The search of `handle_control_flow_delete`. -/
theorem find_breakpoint {list : ListT} (h : HoldsAddrs list) {addr : U32} (h0 : addr ≠ 0) :
    (((listForEach list).map (·.setWidth 32)).find? fun breakpoint =>
        breakpoint = addr ∨ addr = 0) =
      if addr.setWidth 64 ∈ listForEach list then some addr else none := by
  have hback (a : U32) : (a.setWidth 64 : U64).setWidth 32 = a := by bv_omega
  split
  case isTrue hmem =>
    have haddr : addr ∈ (listForEach list).map (·.setWidth 32) :=
      List.mem_map.mpr ⟨_, hmem, hback addr⟩
    cases hf : ((listForEach list).map (·.setWidth 32)).find? fun breakpoint =>
        decide (breakpoint = addr ∨ addr = 0) with
    | none => exact absurd (decide_eq_true (.inl rfl)) (List.find?_eq_none.mp hf addr haddr)
    | some breakpoint =>
        have hfound : decide (breakpoint = addr ∨ addr = 0) = true :=
          List.find?_some (p := fun breakpoint => decide (breakpoint = addr ∨ addr = 0)) hf
        rw [(of_decide_eq_true hfound).resolve_right h0]
  case isFalse hmem =>
    refine List.find?_eq_none.mpr fun breakpoint hb hfound => hmem ?_
    obtain ⟨item, hitem, rfl⟩ := List.mem_map.mp hb
    obtain ⟨a, rfl⟩ := h item hitem
    have := (of_decide_eq_true hfound).resolve_right h0
    rw [hback] at this
    exact this ▸ hitem

/-- **When a breakpoint is disarmed.** -/
theorem disarms_iff {c : Control} (hc : HoldsAddrs c.breakpointList) {addr : U32} (h0 : addr ≠ 0) :
    Disarms addr c ↔ (addr.setWidth 64 ∈ listForEach c.breakpointList →
      Doubled (addr.setWidth 64) (listForEach c.breakpointList)) := by
  unfold Disarms handleControlFlowDelete
  rw [find_breakpoint hc h0]
  by_cases hmem : addr.setWidth 64 ∈ listForEach c.breakpointList
  · have hne : (addr.setWidth 64 : U64) ≠ 0 := by bv_omega
    rw [if_pos hmem, imp_iff_right hmem, ← removes_mem_iff hmem hne]
    constructor
    · rintro ⟨c', hdel, hitems⟩
      obtain ⟨list', hrem, hc'⟩ := Option.bind_eq_some_iff.mp hdel
      rw [← Option.some.inj hc'] at hitems
      exact ⟨list', hrem, hitems⟩
    · rintro ⟨list', hrem, hitems⟩
      exact ⟨_, Option.bind_eq_some_iff.mpr ⟨list', hrem, rfl⟩, hitems⟩
  · rw [if_neg hmem, List.erase_of_not_mem hmem]
    exact iff_of_true ⟨c, rfl, rfl⟩ fun h => absurd h hmem

/-- **The breakpoint list is a sequence**, but for `list_remove`. -/
theorem breakpointList_iff (mem : Nat → U64) :
    (∀ ops : List ListOp, Runs.Steps ListRun.step ListRun.ValidIndex (.start mem) ops →
      ((∀ r ∈ Runs.states ListRun.step (.start mem) ops, r.Agrees) ↔
        Runs.Steps ListRun.step ListRun.RemoveSpared (.start mem) ops)) ∧
    ∀ (reqs : List ControlFlow) (c : Control) (addr : U32),
      Control.after mem reqs = some c → addr ≠ 0 →
      (Disarms addr c ↔ (addr.setWidth 64 ∈ listForEach c.breakpointList →
        Doubled (addr.setWidth 64) (listForEach c.breakpointList))) := by
  constructor
  · intro ops hvalid
    refine Runs.forall_states_iff (I := ListRun.Agrees) (fun _ h => h) ?_ ?_
      (ListRun.agrees_start mem) hvalid
    · exact fun r op h hop hok => (ListRun.agrees_step h hop).mpr hok
    · exact fun r op h hop hbad hagrees => hbad ((ListRun.agrees_step h hop).mp hagrees)
  · exact fun reqs c addr h h0 => disarms_iff (after_holdsAddrs h) h0

/-- Two equal breakpoints, one of them removed. -/
def doubledOps : List ListOp := [.add 0x150, .add 0x150, .remove 0x150]

/-- The run agrees with the sequence throughout, and so does the request. -/
theorem breakpointList_doubled :
    (∀ r ∈ Runs.states ListRun.step (.start fun _ => 0) doubledOps, r.Agrees) ∧
      ∀ c, Control.after (fun _ => 0) [.flowBreak 0x150, .flowBreak 0x150] = some c →
        Disarms 0x150 c := by
  obtain ⟨hlist, hrequest⟩ := breakpointList_iff fun _ => 0
  constructor
  · refine (hlist doubledOps ⟨trivial, trivial, trivial, trivial⟩).mpr ⟨trivial, trivial, ?_, trivial⟩
    intro list h
    rw [← Option.some.inj h]
    decide
  · intro c hc
    refine (hrequest _ c 0x150 hc (by decide)).mpr fun _ => ?_
    rw [← Option.some.inj hc]
    decide

/-- Of two breakpoints the first is to go, and the second goes. -/
theorem not_breakpointList : ¬ ∀ (mem : Nat → U64) (ops : List ListOp),
    Runs.Steps ListRun.step ListRun.ValidIndex (.start mem) ops →
      ∀ r ∈ Runs.states ListRun.step (.start mem) ops, r.Agrees := by
  intro h
  obtain ⟨list, hlist, hitems⟩ := h (fun _ => 0) [.add 0x150, .add 0x200, .remove 0x150]
    ⟨trivial, trivial, trivial, trivial⟩ _ (Runs.run_mem_states ..)
  rw [← Option.some.inj hlist] at hitems
  exact absurd hitems (by decide)

end RealBoy
