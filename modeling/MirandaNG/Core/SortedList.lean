import MirandaNG.Order.BinarySearch

/-!
This module contains the simple sorted list that all lists of the application are made of, with the
memory it allocates.
-/

def KeySort {α : Type} (key : α → Nat) (x y : α) : Int := (key x : Int) - key y

-- `items` are the slots that are allocated; a null pointer is `none`.
structure SortedList (α : Type) where
  items : List (Option α) := []
  realCount : Int := 0
  limit : Int := 0
  increment : Int
  sortFunc : Option (α → α → Int) := none

namespace SortedList

variable {α : Type}

def List_Create (limit increment : Int) : SortedList α := { limit, increment }

def List_Destroy (list : SortedList α) : SortedList α :=
  { list with items := [], realCount := 0, limit := 0 }

-- `none` is an access to memory that is not a slot of the list, or not an item.
def item (list : SortedList α) (i : Int) : Option α :=
  if i < 0 then none else list.items[i.toNat]?.join

def List_GetIndex (list : SortedList α) (value : Option α) : Option (Int × Bool) :=
  match value, list.sortFunc with
  | some value, some sortFunc =>
    BinarySearch.search (fun i => (list.item i).map (sortFunc · value)) (list.realCount.toNat + 1) 0
      (list.realCount - 1)
  | _, _ => some (-1, false)

def resize (list : SortedList α) (count : Int) : Option (SortedList α) :=
  if count < 0 then
    none
  else
    some { list with items := (list.items ++ List.replicate count.toNat none).take count.toNat }

def grow (list : SortedList α) : Option (SortedList α) :=
  if list.realCount = list.limit then
    (list.resize (list.realCount + list.increment)).map fun list =>
      { list with limit := list.limit + list.increment }
  else
    some list

def moveUp (list : SortedList α) (index : Int) : Option (SortedList α) :=
  if index < list.realCount then
    if 0 ≤ index ∧ list.realCount + 1 ≤ list.items.length then
      some { list with
        items := list.items.take (index.toNat + 1) ++
          ((list.items.drop index.toNat).take (list.realCount - index).toNat ++
            list.items.drop (list.realCount.toNat + 1)) }
    else
      none
  else
    some list

def moveDown (list : SortedList α) (index : Int) : Option (SortedList α) :=
  if list.realCount > index then
    if 0 ≤ index ∧ list.realCount + 1 ≤ list.items.length then
      some { list with
        items := list.items.take index.toNat ++
          ((list.items.drop (index.toNat + 1)).take (list.realCount - index).toNat ++
            list.items.drop list.realCount.toNat) }
    else
      none
  else
    some list

def put (list : SortedList α) (index : Int) (value : Option α) : Option (SortedList α) :=
  if 0 ≤ index ∧ index < list.items.length then
    some { list with items := list.items.set index.toNat value }
  else
    none

def List_Insert (list : SortedList α) (value : Option α) (index : Int)
    : Option (Int × SortedList α) :=
  if value = none ∨ index > list.realCount then
    some (0, list)
  else do
    let list ← list.grow
    let list ← list.moveUp index
    let list ← { list with realCount := list.realCount + 1 }.put index value
    pure (1, list)

def List_InsertPtr (list : SortedList α) (value : Option α) : Option (Int × SortedList α) :=
  if value = none then
    some (-1, list)
  else if list.sortFunc.isNone then
    list.List_Insert value list.realCount
  else do
    let (index, _) ← list.List_GetIndex value
    list.List_Insert value index

def List_Remove (list : SortedList α) (index : Int) : Option (Int × SortedList α) :=
  if index < 0 ∨ index > list.realCount then
    some (0, list)
  else do
    let list := { list with realCount := list.realCount - 1 }
    let list ← list.moveDown index
    let list ← list.put list.realCount none
    pure (1, list)

def List_RemovePtr (list : SortedList α) (value : Option α) : Option (Int × SortedList α) := do
  let (index, found) ← list.List_GetIndex value
  if found then
    let (_, list) ← list.List_Remove index
    pure (index, list)
  else
    pure (-1, list)

def List_Copy (s d : SortedList α) : Option (SortedList α) :=
  if 0 ≤ s.realCount ∧ s.realCount ≤ s.items.length then
    some { d with
      increment := s.increment
      limit := s.limit
      realCount := s.realCount
      items := s.items.take s.realCount.toNat }
  else
    none

def insertObjects (s : SortedList α) (objects : Nat → α)
    : Nat → Nat → SortedList α → Option (SortedList α)
  | 0, _, d => some d
  | n + 1, i, d => do
    let _ ← s.item i
    let (_, d) ← d.List_Insert (some (objects i)) i
    insertObjects s objects n (i + 1) d

def List_ObjCopy (s d : SortedList α) (objects : Nat → α) : Option (SortedList α) :=
  insertObjects s objects s.realCount.toNat 0
    { d with increment := s.increment, sortFunc := s.sortFunc }

def LIST (increment : Int) (sortFunc : Option (α → α → Int)) : SortedList α :=
  { increment, sortFunc }

def LIST.copy (x memory : SortedList α) : Option (SortedList α) :=
  List_Copy x { memory with items := [] }

def OBJLIST.copy (x : SortedList α) (objects : Nat → α) : Option (SortedList α) :=
  List_ObjCopy x (LIST x.increment x.sortFunc) objects

end SortedList
