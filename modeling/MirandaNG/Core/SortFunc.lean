import MirandaNG.Core.SortedListLemmas

/-!
This module contains the ways in which a sorted list compares its items, with the loops
`List_GetIndex` has for them, and proves that searching, inserting and removing do what they should
with every one of them.
-/

namespace SortedList

variable {α : Type}

structure Memory (α : Type) where
  handle : α → Nat
  number : α → Nat
  address : α → Nat

inductive SortFunc (α : Type) where
  | HandleKeySortT
  | NumericKeySortT
  | PtrKeySortT
  | func (sortFunc : α → α → Int)

def keySearch (vali : Int → Option Nat) (val : Nat) : Nat → Int → Int → Option (Int × Bool)
  | 0, low, _ => some (low, false)
  | n + 1, low, high =>
    if low ≤ high then
      match vali ((low + high) / 2) with
      | none => none
      | some key =>
        if key = val then
          some ((low + high) / 2, true)
        else if key < val then
          keySearch vali val n ((low + high) / 2 + 1) high
        else
          keySearch vali val n low ((low + high) / 2 - 1)
    else
      some (low, false)

def searchBy (list : SortedList α) (mem : Memory α) (value : α)
    : SortFunc α → Option (Int × Bool)
  | .HandleKeySortT =>
    keySearch (fun i => (list.item i).map mem.handle) (mem.handle value)
      (list.realCount.toNat + 1) 0 (list.realCount - 1)
  | .NumericKeySortT =>
    keySearch (fun i => (list.item i).map mem.number) (mem.number value)
      (list.realCount.toNat + 1) 0 (list.realCount - 1)
  | .PtrKeySortT =>
    keySearch (fun i => (list.item i).map mem.address) (mem.address value)
      (list.realCount.toNat + 1) 0 (list.realCount - 1)
  | .func sortFunc =>
    BinarySearch.search (fun i => (list.item i).map (sortFunc · value)) (list.realCount.toNat + 1) 0
      (list.realCount - 1)

def SortFunc.compare (mem : Memory α) : SortFunc α → α → α → Int
  | .HandleKeySortT => KeySort mem.handle
  | .NumericKeySortT => KeySort mem.number
  | .PtrKeySortT => KeySort mem.address
  | .func sortFunc => sortFunc

theorem KeySort_preorder (key : α → Nat) : Compare.TotalPreorder (KeySort key) where
  flip x y := by
    unfold KeySort
    omega
  trans x y z := by
    unfold KeySort
    omega

def SortFunc.Orders : SortFunc α → Prop
  | .func sortFunc => Compare.TotalPreorder sortFunc
  | _ => True

theorem SortFunc.Orders.preorder {func : SortFunc α} (h : func.Orders) (mem : Memory α)
    : Compare.TotalPreorder (func.compare mem) := by
  cases func with
  | HandleKeySortT => apply KeySort_preorder
  | NumericKeySortT => apply KeySort_preorder
  | PtrKeySortT => apply KeySort_preorder
  | func sortFunc => exact h

theorem keySearch_eq (items : Int → Option α) (key : α → Nat) (value : α) (n : Nat)
    : ∀ low high, keySearch (fun i => (items i).map key) (key value) n low high
        =
      BinarySearch.search (fun i => (items i).map (KeySort key · value)) n low high := by
  induction n with
  | zero =>
    intros
    rfl
  | succ n ih =>
    intro low high
    unfold keySearch BinarySearch.search
    split
    . cases items ((low + high) / 2) with
      | none => rfl
      | some x =>
        have hequal : KeySort key x value = 0 ↔ key x = key value := by
          unfold KeySort
          omega
        have hless : KeySort key x value < 0 ↔ key x < key value := by
          unfold KeySort
          omega
        simp only [Option.map_some, hequal, hless, ih]
    . rfl

theorem searchBy_eq (list : SortedList α) (mem : Memory α) (func : SortFunc α) (value : α)
    (hfunc : list.sortFunc = some (func.compare mem))
    : list.searchBy mem value func = list.List_GetIndex (some value) := by
  unfold searchBy List_GetIndex
  rw [hfunc]
  cases func with
  | HandleKeySortT => apply keySearch_eq
  | NumericKeySortT => apply keySearch_eq
  | PtrKeySortT => apply keySearch_eq
  | func sortFunc => rfl

variable {list : SortedList α} {xs : List α}

theorem Holds.List_Insert_none (h : list.Holds xs) (hgrows : ¬ list.Grows) {i : Nat}
    (hi : i ≤ xs.length) (x : α)
    : list.List_Insert (some x) i = none := by
  obtain ⟨hfull, hincrement⟩ := Classical.not_imp.1 hgrows
  have hcount := h.realCount
  have hno : ¬(some x = none ∨ (i : Int) > list.realCount) := by
    rw [hcount]
    simp only [reduceCtorEq, false_or]
    omega
  unfold List_Insert
  rw [if_neg hno]
  unfold grow resize
  rw [if_pos hfull]
  split
  . rfl
  . have hshort : ((list.items ++ List.replicate (list.realCount + list.increment).toNat none).take
        (list.realCount + list.increment).toNat).length ≤ xs.length := by
      apply (List.length_take_le _ _).trans
      omega
    generalize (list.items ++ List.replicate (list.realCount + list.increment).toNat none).take
      (list.realCount + list.increment).toNat = slots at hshort
    simp only [Option.map_some, Option.bind_eq_bind, Option.bind_some, Option.pure_def]
    unfold moveUp put
    by_cases hlt : i < xs.length
    . rw [if_pos (by simp only []; omega), if_neg (by simp only []; omega)]
      rfl
    . rw [if_neg (by simp only []; omega), Option.bind_some, if_neg (by simp only []; omega)]
      rfl

structure Correct (f : α → α → Int) (list : SortedList α) (xs : List α) (p : α) : Prop where
  found : (∃ x ∈ xs, f x p = 0) →
    ∃ (i : Nat) (x : α), list.List_GetIndex (some p) = some ((i : Int), true) ∧ xs[i]? = some x ∧
      f x p = 0
  missing : (∀ x ∈ xs, f x p ≠ 0) →
    ∃ i : Nat, list.List_GetIndex (some p) = some ((i : Int), false) ∧ i ≤ xs.length ∧
      Compare.Sorted f (xs.insertIdx i p) ∧
      ∀ r list', list.List_InsertPtr (some p) = some (r, list') → list'.Holds (xs.insertIdx i p)
  room : (list.List_InsertPtr (some p)).isSome ↔ list.Grows
  inserted : ∀ r list', list.List_InsertPtr (some p) = some (r, list') →
    ∃ ys, list'.Holds ys ∧ Compare.Sorted f ys ∧ ys.Perm (p :: xs) ∧ list'.sortFunc = some f
  removed : ∃ r list' ys, list.List_RemovePtr (some p) = some (r, list') ∧ list'.Holds ys ∧
    Compare.Sorted f ys ∧ list'.sortFunc = some f ∧
    ((∀ x ∈ xs, f x p ≠ 0) ∧ r = -1 ∧ ys = xs ∨
      ∃ (i : Nat) (x : α), r = i ∧ xs[i]? = some x ∧ f x p = 0 ∧ (x :: ys).Perm xs)

section Sorted

variable {f : α → α → Int} {p : α}

theorem Holds.room (h : list.Holds xs) (hf : list.sortFunc = some f)
    : (list.List_InsertPtr (some p)).isSome ↔ list.Grows := by
  constructor
  . intro hsome
    by_contra hgrows
    have hnone : list.List_InsertPtr (some p) = none := by
      unfold List_InsertPtr
      rw [if_neg (Option.some_ne_none p), hf, Option.isNone_some, if_neg Bool.false_ne_true,
        h.List_GetIndex_eq hf]
      obtain ⟨i, hsearch, _, hplace, hfound⟩ | ⟨i, hsearch, _, _, hi, _⟩ :=
        ListItems.search_spec (f · p) xs
      . rw [hsearch]
        exact h.List_Insert_none hgrows hfound.lt.le p
      . rw [hsearch]
        exact h.List_Insert_none hgrows hi p
    rw [hnone] at hsome
    cases hsome
  . intro hgrows
    obtain ⟨list', hinsert, _⟩ := h.List_InsertPtr_spec hgrows p
    rw [hinsert]
    rfl

theorem Holds.eq_insert (h : list.Holds xs) (hf : list.sortFunc = some f) {r : Int}
    {list' : SortedList α} (hinsert : list.List_InsertPtr (some p) = some (r, list'))
    : list'.Holds (ListItems.insert f xs p) ∧ list'.sortFunc = some f := by
  have hgrows := (h.room hf).1 (by rw [hinsert]; rfl)
  obtain ⟨list'', hinsert', hholds, hsort⟩ := h.List_InsertPtr_spec hgrows p
  rw [hinsert] at hinsert'
  cases hinsert'
  rw [hf] at hholds hsort
  exact ⟨hholds, hsort⟩

theorem Holds.found (h : list.Holds xs) (hf : list.sortFunc = some f)
    (hpreorder : Compare.TotalPreorder f) (hsorted : Compare.Sorted f xs)
    (hequal : ∃ x ∈ xs, f x p = 0)
    : ∃ (i : Nat) (x : α), list.List_GetIndex (some p) = some ((i : Int), true) ∧ xs[i]? = some x ∧
        f x p = 0 := by
  have hordered := hpreorder.ordered hsorted p
  rw [h.List_GetIndex_eq hf]
  obtain ⟨i, hsearch, hindex, _, _⟩ | ⟨i, _, hindex, _⟩ := ListItems.search_spec (f · p) xs
  . obtain ⟨x, hx, hzero⟩ := ListItems.getElem?_of_getIndex hindex
    exact ⟨i, x, hsearch, hx, hzero⟩
  . obtain ⟨x, hx, hzero⟩ := hequal
    exact absurd hzero ((ListItems.getIndex_eq_none_iff hordered).1 hindex x hx)

theorem Holds.missing (h : list.Holds xs) (hf : list.sortFunc = some f)
    (hpreorder : Compare.TotalPreorder f) (hsorted : Compare.Sorted f xs)
    (hnone : ∀ x ∈ xs, f x p ≠ 0)
    : ∃ i : Nat, list.List_GetIndex (some p) = some ((i : Int), false) ∧ i ≤ xs.length ∧
        Compare.Sorted f (xs.insertIdx i p) ∧
        ∀ r list', list.List_InsertPtr (some p) = some (r, list') →
          list'.Holds (xs.insertIdx i p) := by
  have hinsert := ListItems.sorted_insert hpreorder hsorted p
  unfold ListItems.insert at hinsert
  rw [h.List_GetIndex_eq hf]
  obtain ⟨i, _, hindex, _, _⟩ | ⟨i, hsearch, _, hplace, hi, _⟩ := ListItems.search_spec (f · p) xs
  . obtain ⟨x, hx, hzero⟩ := ListItems.getElem?_of_getIndex hindex
    exact absurd hzero (hnone x (List.mem_of_getElem? hx))
  . rw [hplace] at hinsert
    refine ⟨i, hsearch, hi, hinsert, fun r list' hcall => ?_⟩
    have hholds := (h.eq_insert hf hcall).1
    unfold ListItems.insert at hholds
    rwa [hplace] at hholds

theorem Holds.removed (h : list.Holds xs) (hf : list.sortFunc = some f)
    (hpreorder : Compare.TotalPreorder f) (hsorted : Compare.Sorted f xs)
    : ∃ r list' ys, list.List_RemovePtr (some p) = some (r, list') ∧ list'.Holds ys ∧
        Compare.Sorted f ys ∧ list'.sortFunc = some f ∧
        ((∀ x ∈ xs, f x p ≠ 0) ∧ r = -1 ∧ ys = xs ∨
          ∃ (i : Nat) (x : α), r = i ∧ xs[i]? = some x ∧ f x p = 0 ∧ (x :: ys).Perm xs) := by
  have hordered := hpreorder.ordered hsorted p
  unfold List_RemovePtr
  rw [h.List_GetIndex_eq hf]
  obtain ⟨i, hsearch, hindex, _, hfound⟩ | ⟨i, hsearch, hindex, _⟩ :=
    ListItems.search_spec (f · p) xs
  . have hi := hfound.lt
    obtain ⟨x, hx, hzero⟩ := ListItems.getElem?_of_getIndex hindex
    obtain ⟨list', hremove, hholds, hsort, _⟩ :=
      h.List_Remove_spec (List.ne_nil_of_length_pos (Nat.zero_lt_of_lt hi)) hi.le
    rw [min_eq_left (by omega)] at hholds
    refine ⟨i, list', xs.eraseIdx i, ?_, hholds, hsorted.eraseIdx i, hsort.trans hf,
      .inr ⟨i, x, rfl, hx, hzero, ?_⟩⟩
    . rw [hsearch]
      simp only [Option.bind_eq_bind, Option.bind_some, if_true, hremove, Option.pure_def]
    . obtain ⟨hlt, hget⟩ := List.getElem?_eq_some_iff.1 hx
      have hperm := List.getElem_cons_eraseIdx_perm hlt
      rwa [hget] at hperm
  . refine ⟨-1, list, xs, ?_, h, hsorted, hf, .inl ⟨?_, rfl, rfl⟩⟩
    . rw [hsearch]
      rfl
    . exact (ListItems.getIndex_eq_none_iff hordered).1 hindex

end Sorted

end SortedList
