/-
# `RealBoy.Server.Traversal` — what a traversal of the list reads

`list_for_each` loads the next element in its increment, before it looks whether
there is one.  A traversal that is not left early therefore reads the element
behind the last one, and `list_resize` makes room only when an element is added:
the read is past the allocation where the list is full (`traversalSafe_iff`).
The capacity begins with 10 and doubles, so that is where the list has 10·2^k
elements and never had more (`Brimful`).
-/
import RealBoy.Lib.Doubling
import RealBoy.Server.Breakpoints

namespace RealBoy

/-! ## The elements read -/

/-- The loads of the increment of `list_for_each`, `left` turns before the end;
the body leaves the loop at an element with `stop`. -/
def incrementReads (items : Nat → U64) (stop : U64 → Bool) : (left dummydummy : Nat) → List Nat
  | 0, _ => []
  | left + 1, dummydummy =>
    if stop (items dummydummy) then []
    else (dummydummy + 1) :: incrementReads items stop left (dummydummy + 1)

/-- The indices a `list_for_each` reads, in order. -/
def listForEachReads (stop : U64 → Bool) (list : ListT) : List Nat :=
  0 :: incrementReads list.items stop list.length 0

/-- The indices the `memmove` of `list_del` reads; its size is negative where the
index is none of the list. -/
def listDelReads (index : Nat) (list : ListT) : Option (List Nat) :=
  if index < list.length then some (List.range' (index + 1) (list.length - 1 - index)) else none

/-- The indices `list_remove` reads; `match` is what the traversal read last, and
`j` how often it came to its body. -/
def listRemoveReads (item : U64) (list : ListT) : Option (List Nat) :=
  let reads := listForEachReads (· == item) list
  let j := min reads.length list.length
  if list.items (reads.getLastD 0) = 0 then some reads
  else (listDelReads j list).map (reads ++ ·)

/-- The indices `handle_control_flow_delete` reads. -/
def controlFlowDeleteReads (addr : U32) (c : Control) : Option (List Nat) :=
  let reads := listForEachReads (fun breakpoint => breakpoint.setWidth 32 == addr || addr == 0)
    c.breakpointList
  match ((listForEach c.breakpointList).map (·.setWidth 32)).find?
      fun breakpoint => breakpoint = addr ∨ addr = 0 with
  | some breakpoint =>
    (listRemoveReads (breakpoint.setWidth 64) c.breakpointList).map (reads ++ ·)
  | none => some reads

/-- The indices `hit_breakpoint` reads. -/
def hitBreakpointReads (addr : U32) (c : Control) : List Nat :=
  if c.controlFlowContinue || c.controlFlowUntil then
    listForEachReads (fun breakpoint => breakpoint.setWidth 32 == addr) c.breakpointList
  else []

/-! ## A traversal -/

/-- The loads go on up to the element that stops the loop. -/
theorem incrementReads_eq (items : Nat → U64) (stop : U64 → Bool) (left : Nat) :
    ∀ dummydummy, incrementReads items stop left dummydummy =
      List.range' (dummydummy + 1)
        (((List.range' dummydummy left).map items).findIdx stop) := by
  induction left with
  | zero => exact fun _ => rfl
  | succ left ih =>
      intro dummydummy
      rw [incrementReads, List.range'_succ, List.map_cons, List.findIdx_cons]
      cases stop (items dummydummy) with
      | true => rfl
      | false =>
          rw [ih]
          rfl

/-- **A traversal** reads the list from its start up to the element at which it is
left, or up to the one behind the last. -/
theorem listForEachReads_eq (stop : U64 → Bool) (list : ListT) :
    listForEachReads stop list = List.range ((listForEach list).findIdx stop + 1) := by
  rw [listForEachReads, incrementReads_eq, listForEach, List.range_eq_range', List.range_eq_range']
  rfl

theorem mem_listForEachReads {stop : U64 → Bool} {list : ListT} {i : Nat} :
    i ∈ listForEachReads stop list ↔ i ≤ (listForEach list).findIdx stop := by
  rw [listForEachReads_eq, List.mem_range, Nat.lt_succ_iff]

/-- The list is no longer than its allocation. -/
def Within (list : ListT) : Prop := list.length ≤ list.capacity

/-- The reads are inside the allocation. -/
def ReadsWithin (list : ListT) (reads : List Nat) : Prop := ∀ i ∈ reads, i < list.capacity

/-- **One traversal** stays inside unless the list is full and nothing stops it. -/
theorem readsWithin_iff {stop : U64 → Bool} {list : ListT} (h : Within list) :
    ReadsWithin list (listForEachReads stop list) ↔
      (list.length = list.capacity → ∃ item ∈ listForEach list, stop item = true) := by
  have hlast : ReadsWithin list (listForEachReads stop list) ↔
      (listForEach list).findIdx stop < list.capacity := by
    simp only [ReadsWithin, mem_listForEachReads]
    exact ⟨fun hall => hall _ (Nat.le_refl _), fun hlt i hi => Nat.lt_of_le_of_lt hi hlt⟩
  have hfound : (listForEach list).findIdx stop < list.length ↔
      ∃ item ∈ listForEach list, stop item = true := by
    rw [← listForEach_length, List.findIdx_lt_length]
  have hle : (listForEach list).findIdx stop ≤ list.length := by
    rw [← listForEach_length]
    exact List.findIdx_le_length
  rw [hlast, ← hfound]
  have h : list.length ≤ list.capacity := h
  omega

/-- No traversal leaves the allocation. -/
def TraversalSafe (list : ListT) : Prop :=
  Within list ∧ ∀ stop, ReadsWithin list (listForEachReads stop list)

/-- **Every traversal** stays inside where the list is not full. -/
theorem traversalSafe_iff {list : ListT} (h : Within list) :
    TraversalSafe list ↔ list.length ≠ list.capacity := by
  constructor
  · rintro ⟨-, hreads⟩ hfull
    obtain ⟨item, -, hitem⟩ := (readsWithin_iff h).mp (hreads fun _ => false) hfull
    cases hitem
  · intro hfull
    exact ⟨h, fun stop => (readsWithin_iff h).mpr fun he => absurd he hfull⟩

/-! ## Calls -/

/-- `list_add`, or `list_del` with a position of the sequence. -/
def ListRun.AddDel (r : ListRun) : ListOp → Prop
  | .add _ => True
  | .del index => index < r.items.length
  | .remove _ => False

/-- The lengths of the sequence, from the start to the last call. -/
def lengths (mem : Nat → U64) (ops : List ListOp) : List Nat :=
  (Runs.states ListRun.step (.start mem) ops).map (·.items.length)

/-- The sequence has 10·2^k elements, and never had more. -/
def Brimful (mem : Nat → U64) (ops : List ListOp) : Prop :=
  (∃ k, (Runs.run ListRun.step (.start mem) ops).items.length = 10 * 2 ^ k) ∧
    ∀ n ∈ lengths mem ops, n ≤ (Runs.run ListRun.step (.start mem) ops).items.length

/-- The list holds the sequence, in an allocation made for the lengths so far. -/
structure Allocated (seen : List Nat) (r : ListRun) (list : ListT) : Prop where
  held : r.list = some list
  items : listForEach list = r.items
  tight : Doubling.Tight 10 seen list.capacity
  length_mem : list.length ∈ seen

theorem Allocated.items_length {seen : List Nat} {r : ListRun} {list : ListT}
    (h : Allocated seen r list) : r.items.length = list.length := by
  rw [← h.items, listForEach_length]

theorem allocated_start (mem : Nat → U64) : Allocated [0] (.start mem) (createList mem) where
  held := rfl
  items := rfl
  tight := Doubling.tight_start 10
  length_mem := List.mem_singleton_self 0

theorem listAdd_capacity (item : U64) (list : ListT) :
    (listAdd item list).capacity = Doubling.grow list.capacity list.length ∧
      (listAdd item list).length = list.length + 1 := by
  unfold listAdd listResize Doubling.grow
  split <;> exact ⟨rfl, rfl⟩

theorem listDel_capacity {index : Nat} {list list' : ListT} (h : listDel index list = some list') :
    list'.capacity = list.capacity ∧ list'.length = list.length - 1 := by
  unfold listDel at h
  split at h
  · cases h
    exact ⟨rfl, rfl⟩
  · cases h

/-- **One call.** -/
theorem Allocated.step {seen : List Nat} {r : ListRun} {list : ListT} (h : Allocated seen r list)
    {op : ListOp} (hop : r.AddDel op) :
    ∃ list', Allocated (seen ++ [(r.step op).items.length]) (r.step op) list' := by
  have hlen := h.items_length
  cases op with
  | add item =>
      obtain ⟨hcapacity, hlength⟩ := listAdd_capacity item list
      have hitems : (r.step (.add item)).items.length = list.length + 1 := by
        simp [ListRun.step, seqOp, hlen]
      refine ⟨listAdd item list, ?_, ?_, ?_, ?_⟩
      · simp [ListRun.step, h.held, ListT.op]
      · simp [ListRun.step, seqOp, listForEach_listAdd, h.items]
      · rw [hcapacity, hitems]
        exact h.tight.grow (by decide) h.length_mem
      · simp [hlength, hitems]
  | del index =>
      have hlt : index < list.length := hlen ▸ hop
      obtain ⟨list', hdel, hitems⟩ := listDel_spec hlt
      obtain ⟨hcapacity, hlength⟩ := listDel_capacity hdel
      have hseq : (r.step (.del index)).items.length = list.length - 1 := by
        rw [← hlength, ← listForEach_length, hitems, h.items]
        rfl
      have hle := h.tight.fits _ h.length_mem
      refine ⟨list', ?_, ?_, ?_, ?_⟩
      · simp [ListRun.step, h.held, ListT.op, hdel]
      · simp [ListRun.step, seqOp, hitems, h.items]
      · rw [hcapacity, hseq]
        exact h.tight.keep (by omega)
      · simp [hlength, hseq]
  | remove item => exact hop.elim

/-- **Any calls.** -/
theorem allocated_run (mem : Nat → U64) {ops : List ListOp}
    (hops : Runs.Steps ListRun.step ListRun.AddDel (.start mem) ops) :
    ∃ list, Allocated (lengths mem ops) (Runs.run ListRun.step (.start mem) ops) list := by
  induction ops using List.reverseRecOn with
  | nil => exact ⟨_, allocated_start mem⟩
  | append_singleton ops op ih =>
      obtain ⟨hops, hop, -⟩ := Runs.steps_append.mp hops
      obtain ⟨list, h⟩ := ih hops
      rw [lengths, Runs.states_concat, List.map_append, List.map_singleton, Runs.run_append]
      exact h.step hop

/-- The list is there, and no traversal leaves its allocation. -/
def ListRun.Safe (r : ListRun) : Prop := ∃ list, r.list = some list ∧ TraversalSafe list

theorem run_safe_iff (mem : Nat → U64) {ops : List ListOp}
    (hops : Runs.Steps ListRun.step ListRun.AddDel (.start mem) ops) :
    (Runs.run ListRun.step (.start mem) ops).Safe ↔ ¬ Brimful mem ops := by
  obtain ⟨list, h⟩ := allocated_run mem hops
  have hlen := h.items_length
  have hfull := h.tight.full_iff (by decide) h.length_mem
  have hsafe : (Runs.run ListRun.step (.start mem) ops).Safe ↔ TraversalSafe list := by
    rw [ListRun.Safe, h.held]
    simp
  rw [hsafe, traversalSafe_iff (h.tight.fits _ h.length_mem), Ne, hfull, Brimful, hlen]

theorem lengths_concat (mem : Nat → U64) (ops : List ListOp) (op : ListOp) :
    lengths mem (ops ++ [op]) = lengths mem ops ++
      [(Runs.run ListRun.step (.start mem) (ops ++ [op])).items.length] := by
  simp [lengths, Runs.states_concat]

/-- A call adds one element at most. -/
theorem items_length_step (r : ListRun) (op : ListOp) :
    (r.step op).items.length ≤ r.items.length + 1 := by
  cases op with
  | add item => simp [ListRun.step, seqOp]
  | remove item => exact (List.length_erase_le).trans (Nat.le_succ _)
  | del index => exact (List.length_eraseIdx_le ..).trans (Nat.le_succ _)

/-- The first ten elements fill the list. -/
theorem brimful_concat {mem : Nat → U64} {ops : List ListOp} {op : ListOp}
    (hfew : ∀ n ∈ lengths mem ops, n < 10) :
    Brimful mem (ops ++ [op]) ↔
      ¬ (Runs.run ListRun.step (.start mem) (ops ++ [op])).items.length < 10 := by
  have hprev : (Runs.run ListRun.step (.start mem) ops).items.length < 10 :=
    hfew _ (List.mem_map_of_mem (Runs.run_mem_states ..))
  have hstep := items_length_step (Runs.run ListRun.step (.start mem) ops) op
  have hrun : Runs.run ListRun.step (.start mem) (ops ++ [op]) =
      (Runs.run ListRun.step (.start mem) ops).step op := Runs.run_append ..
  constructor
  · rintro ⟨⟨k, hk⟩, -⟩
    have hpos : 0 < 2 ^ k := Nat.two_pow_pos k
    omega
  · intro hten
    have hlen : (Runs.run ListRun.step (.start mem) (ops ++ [op])).items.length = 10 := by
      rw [hrun] at hten ⊢
      omega
    rw [Brimful, hlen, lengths_concat, hlen]
    refine ⟨⟨0, rfl⟩, ?_⟩
    intro n hn
    rcases List.mem_append.mp hn with hn | hn
    · exact (hfew n hn).le
    · exact (List.mem_singleton.mp hn).le

/-- **Whole runs.**  In no state of a run a traversal can leave the allocation,
just where the sequence never comes to ten elements. -/
theorem states_safe_iff (mem : Nat → U64) {ops : List ListOp}
    (hops : Runs.Steps ListRun.step ListRun.AddDel (.start mem) ops) :
    (∀ r ∈ Runs.states ListRun.step (.start mem) ops, r.Safe) ↔ ∀ n ∈ lengths mem ops, n < 10 := by
  induction ops using List.reverseRecOn with
  | nil =>
      have hwithin : Within (createList mem) := Nat.zero_le 10
      have hempty : (ListRun.start mem).Safe :=
        ⟨createList mem, rfl, (traversalSafe_iff hwithin).mpr (Nat.zero_ne_add_one 9)⟩
      refine iff_of_true ?_ ?_
      · simpa using hempty
      · simp [lengths, ListRun.start]
  | append_singleton ops op ih =>
      have hlast := run_safe_iff mem hops
      have ih := ih (Runs.steps_append.mp hops).1
      rw [Runs.states_concat, lengths_concat, List.forall_mem_append, List.forall_mem_append,
        List.forall_mem_singleton, List.forall_mem_singleton, ih, hlast]
      refine and_congr_right fun hfew => ?_
      rw [brimful_concat hfew, not_not]

/-! ## Requests -/

/-- The allocation is not empty, and the list is no longer. -/
structure Room (list : ListT) : Prop where
  pos : 0 < list.capacity
  within : Within list

theorem Room.listDel {index : Nat} {list list' : ListT} (h : Room list)
    (hdel : listDel index list = some list') : Room list' := by
  obtain ⟨hcapacity, hlength⟩ := listDel_capacity hdel
  have hwithin : list.length ≤ list.capacity := h.within
  refine ⟨hcapacity ▸ h.pos, ?_⟩
  rw [Within, hcapacity, hlength]
  omega

theorem Room.listRemove {item : U64} {list list' : ListT} (h : Room list)
    (hrem : listRemove item list = some list') : Room list' := by
  unfold RealBoy.listRemove at hrem
  dsimp only at hrem
  split at hrem
  · split at hrem
    · exact Option.some.inj hrem ▸ h
    · exact h.listDel hrem
  · split at hrem
    · cases hrem
    · split at hrem
      · exact Option.some.inj hrem ▸ h
      · exact h.listDel hrem

theorem Room.listAdd (item : U64) {list : ListT} (h : Room list) : Room (listAdd item list) := by
  obtain ⟨hcapacity, hlength⟩ := listAdd_capacity item list
  have hpos := h.pos
  have hwithin : list.length ≤ list.capacity := h.within
  have hgrow : list.length + 1 ≤ Doubling.grow list.capacity list.length := by
    unfold Doubling.grow
    split <;> omega
  refine ⟨?_, ?_⟩
  · rw [hcapacity]
    omega
  · rw [Within, hcapacity, hlength]
    exact hgrow

/-- The requests keep it. -/
theorem dispatchControlFlow_room {req : ControlFlow} {c c' : Control} (h : Room c.breakpointList)
    (hreq : dispatchControlFlow req c = some c') : Room c'.breakpointList := by
  cases req with
  | flowDelete addr =>
      rw [dispatchControlFlow, handleControlFlowDelete] at hreq
      split at hreq
      · obtain ⟨list', hrem, hc'⟩ := Option.bind_eq_some_iff.mp hreq
        rw [← Option.some.inj hc']
        exact h.listRemove hrem
      · exact Option.some.inj hreq ▸ h
  | flowBreak addr =>
      rw [← Option.some.inj hreq]
      exact h.listAdd _
  | flowUntil | flowContinue | flowNext | flowOther => exact Option.some.inj hreq ▸ h

theorem after_room {mem : Nat → U64} {reqs : List ControlFlow} {c : Control}
    (h : Control.after mem reqs = some c) : Room c.breakpointList := by
  refine after_induct (I := fun c => Room c.breakpointList) ?_ ?_ h
  · exact ⟨Nat.zero_lt_succ 9, Nat.zero_le 10⟩
  · exact fun req c c' => dispatchControlFlow_room

/-- **`hit_breakpoint`.**  It leaves the allocation where it looks for a
breakpoint in a full list and finds none. -/
theorem hitBreakpointReads_iff {c : Control} (h : Room c.breakpointList) (addr : U32) :
    ReadsWithin c.breakpointList (hitBreakpointReads addr c) ↔
      (c.controlFlowContinue = true ∨ c.controlFlowUntil = true →
        atBreakpoint addr c = true ∨ c.breakpointList.length ≠ c.breakpointList.capacity) := by
  unfold hitBreakpointReads
  split
  case isTrue hflag =>
    have hflag : c.controlFlowContinue = true ∨ c.controlFlowUntil = true := by simpa using hflag
    have hfound : (∃ item ∈ listForEach c.breakpointList, (item.setWidth 32 == addr) = true) ↔
        atBreakpoint addr c = true := List.any_eq_true.symm
    rw [readsWithin_iff h.within, hfound, imp_iff_right hflag, imp_iff_not_or, or_comm]
  case isFalse hflag =>
    have hflag : ¬ (c.controlFlowContinue = true ∨ c.controlFlowUntil = true) := by
      simpa using hflag
    refine iff_of_true ?_ fun h => absurd h hflag
    simp [ReadsWithin]

/-- The element that `handle_control_flow_delete` finds; 0 is no address, and any
element will do. -/
def deleteTarget (addr : U32) (list : ListT) : Option U64 :=
  if addr = 0 then (listForEach list).head?
  else if addr.setWidth 64 ∈ listForEach list then some (addr.setWidth 64)
  else none

/-- The search for it. -/
theorem find_target {list : ListT} (h : HoldsAddrs list) (addr : U32) :
    (((listForEach list).map (·.setWidth 32)).find? fun breakpoint =>
        breakpoint = addr ∨ addr = 0) = (deleteTarget addr list).map (·.setWidth 32) := by
  have hback (a : U32) : (a.setWidth 64 : U64).setWidth 32 = a := by bv_omega
  unfold deleteTarget
  split
  case isTrue h0 =>
    cases listForEach list <;> simp [h0]
  case isFalse h0 =>
    rw [find_breakpoint h h0]
    split
    case isTrue => rw [Option.map_some, hback]
    case isFalse => rfl

theorem mem_of_deleteTarget {addr : U32} {list : ListT} {item : U64}
    (h : deleteTarget addr list = some item) : item ∈ listForEach list := by
  unfold deleteTarget at h
  split at h
  · exact List.mem_of_head? h
  · split at h
    · exact Option.some.inj h ▸ ‹_›
    · cases h

/-- Where the item is in the list, `list_remove` reads behind the allocation for
the last position only: its `list_del` is for the position after. -/
theorem listRemoveReads_mem {item : U64} {list : ListT} (h : Within list)
    (hmem : item ∈ listForEach list) :
    (∃ reads, listRemoveReads item list = some reads ∧ ReadsWithin list reads) ↔
      (item ≠ 0 → (listForEach list).idxOf item + 1 < list.length) := by
  have hidx : (listForEach list).idxOf item < list.length := by
    rw [← listForEach_length]
    exact List.idxOf_lt_length_of_mem hmem
  have hreads : listForEachReads (· == item) list =
      List.range ((listForEach list).idxOf item + 1) := listForEachReads_eq ..
  have hmatch : list.items ((listForEach list).idxOf item) = item := by
    have hlt := List.idxOf_lt_length_of_mem hmem
    rw [← listForEach_getElem hlt, List.getElem_idxOf]
  have hwithin : ReadsWithin list (List.range ((listForEach list).idxOf item + 1)) := by
    intro i hi
    have hi := List.mem_range.mp hi
    have h : list.length ≤ list.capacity := h
    omega
  unfold listRemoveReads
  dsimp only
  have hlast : (List.range ((listForEach list).idxOf item + 1)).getLastD 0 =
      (listForEach list).idxOf item := by
    simp [List.range_succ]
  rw [hreads, hlast, hmatch, List.length_range, Nat.min_eq_left hidx]
  split
  case isTrue h0 => exact iff_of_true ⟨_, rfl, hwithin⟩ fun hne => absurd h0 hne
  case isFalse h0 =>
    rw [imp_iff_right h0, listDelReads]
    split
    case isTrue hlt =>
      refine iff_of_true ⟨_, rfl, ?_⟩ hlt
      intro i hi
      rcases List.mem_append.mp hi with hi | hi
      · exact hwithin i hi
      · have hi := List.mem_range'_1.mp hi
        have h : list.length ≤ list.capacity := h
        omega
    case isFalse hlt =>
      refine iff_of_false ?_ hlt
      rintro ⟨reads, hnone, -⟩
      cases hnone

/-- **`handle_control_flow_delete`.**  Where it finds nothing it is the whole
traversal that must stay inside. -/
theorem controlFlowDeleteReads_iff {c : Control} (h : Room c.breakpointList)
    (hc : HoldsAddrs c.breakpointList) (addr : U32) :
    (∃ reads, controlFlowDeleteReads addr c = some reads ∧ ReadsWithin c.breakpointList reads) ↔
      match deleteTarget addr c.breakpointList with
      | none => c.breakpointList.length ≠ c.breakpointList.capacity
      | some item =>
        item ≠ 0 → (listForEach c.breakpointList).idxOf item + 1 < c.breakpointList.length := by
  have hfind := find_target hc addr
  have hstop (item : U64) : (item.setWidth 32 == addr || addr == 0) =
      decide (item.setWidth 32 = addr ∨ addr = 0) := by
    simp [Bool.decide_or, beq_eq_decide]
  unfold controlFlowDeleteReads
  dsimp only
  rw [hfind]
  cases htarget : deleteTarget addr c.breakpointList with
  | none =>
      rw [htarget, Option.map_none, List.find?_eq_none] at hfind
      have hnone : ¬ ∃ item ∈ listForEach c.breakpointList,
          (item.setWidth 32 == addr || addr == 0) = true := by
        rintro ⟨item, hitem, hfound⟩
        rw [hstop] at hfound
        exact hfind _ (List.mem_map_of_mem hitem) hfound
      simp only [Option.map_none, Option.some.injEq, exists_eq_left']
      rw [readsWithin_iff h.within, imp_iff_not hnone]
  | some item =>
      have hmem := mem_of_deleteTarget htarget
      obtain ⟨a, rfl⟩ := hc item hmem
      have hback : ((a.setWidth 64 : U64).setWidth 32).setWidth 64 = (a.setWidth 64 : U64) := by
        bv_omega
      rw [htarget] at hfind
      -- the element stops the first traversal
      have hfirst : ReadsWithin c.breakpointList (listForEachReads
          (fun breakpoint => breakpoint.setWidth 32 == addr || addr == 0) c.breakpointList) := by
        rw [readsWithin_iff h.within]
        intro _
        refine ⟨_, hmem, ?_⟩
        have hfound := List.find?_some hfind
        rw [hstop]
        exact hfound
      dsimp only [Option.map_some]
      rw [hback, ← listRemoveReads_mem h.within hmem]
      cases listRemoveReads (a.setWidth 64) c.breakpointList with
      | none => simp
      | some reads =>
          simp only [Option.map_some, Option.some.injEq, exists_eq_left']
          exact List.forall_mem_append.trans (and_iff_right hfirst)

/-- **Traversals.**  The list is never longer than its allocation.  Every traversal
stays inside where the list is not brimful, and in a run where there are never ten
elements; `hit_breakpoint` and `handle_control_flow_delete` do so where their
traversal is left early or the list is not full. -/
theorem traversals_iff (mem : Nat → U64) :
    (∀ ops : List ListOp, Runs.Steps ListRun.step ListRun.AddDel (.start mem) ops →
      (∃ list, (Runs.run ListRun.step (.start mem) ops).list = some list ∧ Within list) ∧
        ((Runs.run ListRun.step (.start mem) ops).Safe ↔ ¬ Brimful mem ops) ∧
        ((∀ r ∈ Runs.states ListRun.step (.start mem) ops, r.Safe) ↔
          ∀ n ∈ lengths mem ops, n < 10)) ∧
    ∀ (reqs : List ControlFlow) (c : Control) (addr : U32), Control.after mem reqs = some c →
      (ReadsWithin c.breakpointList (hitBreakpointReads addr c) ↔
        (c.controlFlowContinue = true ∨ c.controlFlowUntil = true →
          atBreakpoint addr c = true ∨ c.breakpointList.length ≠ c.breakpointList.capacity)) ∧
      ((∃ reads, controlFlowDeleteReads addr c = some reads ∧
          ReadsWithin c.breakpointList reads) ↔
        match deleteTarget addr c.breakpointList with
        | none => c.breakpointList.length ≠ c.breakpointList.capacity
        | some item =>
          item ≠ 0 →
            (listForEach c.breakpointList).idxOf item + 1 < c.breakpointList.length) := by
  constructor
  · intro ops hops
    obtain ⟨list, h⟩ := allocated_run mem hops
    refine ⟨⟨list, h.held, h.tight.fits _ h.length_mem⟩, run_safe_iff mem hops, ?_⟩
    exact states_safe_iff mem hops
  · intro reqs c addr h
    have hroom := after_room h
    exact ⟨hitBreakpointReads_iff hroom addr,
      controlFlowDeleteReads_iff hroom (after_holdsAddrs h) addr⟩

/-- A breakpoint comes and goes, and two are there while the emulation goes on. -/
theorem traversals_two :
    (∀ r ∈ Runs.states ListRun.step (.start fun _ => 0) [.add 0x150, .del 0], r.Safe) ∧
      ∀ c, Control.after (fun _ => 0) [.flowBreak 0x150, .flowBreak 0x200, .flowContinue] =
          some c →
        ReadsWithin c.breakpointList (hitBreakpointReads 0x300 c) ∧
          ∃ reads, controlFlowDeleteReads 0x150 c = some reads ∧
            ReadsWithin c.breakpointList reads := by
  obtain ⟨hlist, hrequest⟩ := traversals_iff fun _ => 0
  constructor
  · have hops : Runs.Steps ListRun.step ListRun.AddDel (.start fun _ => 0)
        [.add 0x150, .del 0] := ⟨trivial, Nat.zero_lt_one, trivial⟩
    exact (hlist _ hops).2.2.mpr (by decide)
  · intro c hc
    have hhit := (hrequest _ c 0x300 hc).1
    have hdelete := (hrequest _ c 0x150 hc).2
    rw [← Option.some.inj hc] at hhit hdelete ⊢
    exact ⟨hhit.mpr fun _ => .inr (by decide), hdelete.mpr fun _ => by decide⟩

/-- Ten breakpoints: a traversal to the end reads the eleventh cell of ten. -/
theorem not_traversals : ¬ ∀ (mem : Nat → U64) (ops : List ListOp),
    Runs.Steps ListRun.step ListRun.AddDel (.start mem) ops →
      (Runs.run ListRun.step (.start mem) ops).Safe := by
  intro h
  have hops : Runs.Steps ListRun.step ListRun.AddDel (.start fun _ => 0)
      (List.replicate 10 (.add 0x150)) :=
    Runs.steps_of_forall fun op hop _ => by
      rw [List.eq_of_mem_replicate hop]
      trivial
  refine (run_safe_iff _ hops).mp (h _ _ hops) ⟨⟨0, rfl⟩, ?_⟩
  decide

end RealBoy
