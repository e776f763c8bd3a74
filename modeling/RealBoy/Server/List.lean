/-
# `RealBoy.Server.List` — the breakpoint list

`list.c` and the `list_for_each` of `list.h`.  The allocation is a total
function of the index: what lies between `length` and `capacity` is whatever the
memory held.  `list_del` on the last index and beyond passes `memmove` a negative
size, and `list_remove` on a full list that lacks the item tests a word behind the
allocation; both are no behaviour at all: `none`.
-/
import RealBoy.Emu.State

namespace RealBoy

/-- `list_t`. -/
structure ListT where
  capacity : Nat
  length : Nat
  items : Nat → U64

/-- `create_list`, in memory that holds `mem`. -/
def createList (mem : Nat → U64) : ListT := ⟨10, 0, mem⟩

/-- `list_resize`; `realloc` keeps the contents. -/
def listResize (list : ListT) : ListT :=
  if list.length = list.capacity then { list with capacity := list.capacity * 2 } else list

/-- `list_add`. -/
def listAdd (item : U64) (list : ListT) : ListT :=
  let list := listResize list
  { list with items := Function.update list.items list.length item, length := list.length + 1 }

/-- `list_del`. -/
def listDel (index : Nat) (list : ListT) : Option ListT :=
  if index < list.length then
    some { list with
      length := list.length - 1
      items := fun i =>
        if index ≤ i ∧ i < list.length - 1 then list.items (i + 1) else list.items i }
  else none

/-- The elements `list_for_each` visits. -/
def listForEach (list : ListT) : List U64 := (List.range list.length).map list.items

/-- `list_remove`: `j` is already past the element when the loop is left, and
an element 0 is taken for no element at all. -/
def listRemove (item : U64) (list : ListT) : Option ListT :=
  let i := (listForEach list).idxOf item
  if i < list.length then
    if item = 0 then some list else listDel (i + 1) list
  else if list.length = list.capacity then none -- `match` comes from behind the allocation
  else if list.items list.length = 0 then some list
  else listDel list.length list

end RealBoy
