import MirandaNG.Transition.Run
import MirandaNG.Core.SortedListLemmas

/-!
This module contains histories of sorted lists that are created, changed and copied, and proves when
every list of such a history is well-formed.
-/

namespace SortedList

variable {ι α : Type} [DecidableEq ι]

structure Lists (ι α : Type) where
  lists : ι → SortedList α
  funcs : ι → Option (α → α → Int)

inductive ListOp (ι α : Type) where
  | List_Create (d : ι) (limit increment : Int)
  | LIST (d : ι) (increment : Int) (sortFunc : Option (α → α → Int))
  | List_Destroy (d : ι)
  | List_Insert (d : ι) (value : Option α) (index : Int)
  | List_InsertPtr (d : ι) (value : Option α)
  | List_Remove (d : ι) (index : Int)
  | List_RemovePtr (d : ι) (value : Option α)
  | List_Copy (s d : ι)
  | List_ObjCopy (s d : ι) (objects : Nat → α)
  | copyList (s d : ι) (memory : SortedList α)
  | assignList (s d : ι)
  | copyObjList (s d : ι) (objects : Nat → α)
  | assignObjList (s d : ι) (objects : Nat → α)

namespace Lists

def put (st : Lists ι α) (d : ι) (list : SortedList α) : Lists ι α :=
  { st with lists := Function.update st.lists d list }

def init (st : Lists ι α) (d : ι) (list : SortedList α) (func : Option (α → α → Int))
    : Lists ι α :=
  ⟨Function.update st.lists d list, Function.update st.funcs d func⟩

def destroy (st : Lists ι α) (d : ι) : Lists ι α := st.put d (st.lists d).List_Destroy

def step (st : Lists ι α) : ListOp ι α → Option (Lists ι α)
  | .List_Create d limit increment => some (st.init d (List_Create limit increment) none)
  | .LIST d increment sortFunc => some (st.init d (LIST increment sortFunc) sortFunc)
  | .List_Destroy d => some (st.destroy d)
  | .List_Insert d value index =>
    ((st.lists d).List_Insert value index).map fun r => st.put d r.2
  | .List_InsertPtr d value => ((st.lists d).List_InsertPtr value).map fun r => st.put d r.2
  | .List_Remove d index => ((st.lists d).List_Remove index).map fun r => st.put d r.2
  | .List_RemovePtr d value => ((st.lists d).List_RemovePtr value).map fun r => st.put d r.2
  | .List_Copy s d =>
    (List_Copy (st.lists s) (st.lists d)).map fun list => st.init d list (st.funcs s)
  | .List_ObjCopy s d objects =>
    if s = d ∧ 0 < (st.lists s).realCount then
      none
    else
      (List_ObjCopy (st.lists s) (st.lists d) objects).map fun list =>
        st.init d list (st.funcs s)
  | .copyList s d memory =>
    (LIST.copy (st.lists s) memory).map fun list => st.init d list (st.funcs s)
  | .assignList s d =>
    (List_Copy ((st.destroy d).lists s) ((st.destroy d).lists d)).map fun list =>
      st.init d list (st.funcs s)
  | .copyObjList s d objects =>
    (OBJLIST.copy (st.lists s) objects).map fun list => st.init d list (st.funcs s)
  | .assignObjList s d objects =>
    (List_ObjCopy ((st.destroy d).lists s) ((st.destroy d).lists d) objects).map fun list =>
      st.init d list (st.funcs s)

def call (st : Option (Lists ι α)) (op : ListOp ι α) : Option (Lists ι α) := st.bind (·.step op)

end Lists

structure WellFormed (list : SortedList α) (func : Option (α → α → Int)) : Prop where
  nonneg : 0 ≤ list.realCount
  le_limit : list.realCount ≤ list.limit
  limit_le : list.limit ≤ list.items.length
  sortFunc : list.sortFunc = func

def contents (list : SortedList α) : List α :=
  (list.items.take list.realCount.toNat).filterMap id

def IsSorted (list : SortedList α) : Prop :=
  ∀ f ∈ list.sortFunc, Compare.Sorted f list.contents

structure Inserts (list : SortedList α) : Prop where
  inside : ∀ x, ∃ list', list.List_InsertPtr (some x) = some (1, list')
  sorted : ∀ x list', list.List_InsertPtr (some x) = some (1, list') → list.IsSorted →
    (∀ f ∈ list.sortFunc, Compare.TotalPreorder f) → list'.IsSorted

namespace Lists

structure Ok (st : Lists ι α) : Prop where
  wellFormed : ∀ d, (st.lists d).WellFormed (st.funcs d)
  inserts : ∀ d, (st.lists d).Grows → (st.lists d).Inserts
  copies : ∀ s memory list', List_Copy (st.lists s) memory = some list' →
    memory.sortFunc = (st.lists s).sortFunc → (st.lists s).IsSorted → list'.IsSorted

def Safe (st : Lists ι α) : ListOp ι α → Prop
  | .List_Create _ limit _ => limit = 0
  | .List_Insert d value index =>
    value = none ∨ index > (st.lists d).realCount ∨ 0 ≤ index ∧ (st.lists d).Grows
  | .List_InsertPtr d value => value = none ∨ (st.lists d).Grows
  | .List_Remove d index => ¬(index = 0 ∧ (st.lists d).realCount = 0)
  | .List_Copy s d =>
    (st.lists s).limit = (st.lists s).realCount ∧ (st.lists d).sortFunc = (st.lists s).sortFunc
  | .List_ObjCopy s d _ =>
    (s = d → (st.lists s).realCount = 0) ∧
      ((st.lists d).limit < (st.lists d).realCount + (st.lists s).realCount →
        1 ≤ (st.lists s).increment)
  | .copyList s _ memory =>
    (st.lists s).limit = (st.lists s).realCount ∧ memory.sortFunc = (st.lists s).sortFunc
  | .assignList s d =>
    s = d ∨
      ((st.lists s).limit = (st.lists s).realCount ∧
        (st.lists d).sortFunc = (st.lists s).sortFunc)
  | .copyObjList s _ _ => 0 < (st.lists s).realCount → 1 ≤ (st.lists s).increment
  | .assignObjList s d _ =>
    s = d ∨ (0 < (st.lists s).realCount → 1 ≤ (st.lists s).increment)
  | _ => True

def SafeCall (st : Option (Lists ι α)) (op : ListOp ι α) : Prop := ∀ st' ∈ st, st'.Safe op

def Inv (st : Lists ι α) : Prop :=
  ∀ d, (∃ xs, (st.lists d).Holds xs) ∧ (st.lists d).sortFunc = st.funcs d

end Lists

variable {list : SortedList α} {xs : List α}

def Kept (list : SortedList α) (r : Option (Int × SortedList α)) : Prop :=
  ∃ n list', r = some (n, list') ∧ (∃ xs, list'.Holds xs) ∧ list'.sortFunc = list.sortFunc

def Made (func : Option (α → α → Int)) (r : Option (SortedList α)) : Prop :=
  ∃ list', r = some list' ∧ (∃ xs, list'.Holds xs) ∧ list'.sortFunc = func

theorem holds_nil (hitems : list.items = []) (hcount : list.realCount = 0) (hlimit : list.limit = 0)
    : list.Holds [] := by
  constructor
  . exact hcount
  . exact ⟨[], hitems⟩
  . exact hlimit.ge
  . rw [hlimit, hitems]
    rfl

theorem Holds.kept_insert (h : list.Holds xs) {value : Option α} {index : Int}
    (hsafe : value = none ∨ index > list.realCount ∨ 0 ≤ index ∧ list.Grows)
    : list.Kept (list.List_Insert value index) := by
  have hcount := h.realCount
  by_cases hno : value = none ∨ index > list.realCount
  . refine ⟨0, list, ?_, ⟨xs, h⟩, rfl⟩
    unfold List_Insert
    rw [if_pos hno]
  . rw [not_or] at hno
    obtain ⟨hvalue, hindex⟩ := hno
    obtain ⟨x, rfl⟩ := Option.ne_none_iff_exists'.1 hvalue
    obtain ⟨hnonneg, hgrows⟩ := (hsafe.resolve_left hvalue).resolve_left hindex
    obtain ⟨i, rfl⟩ := Int.eq_ofNat_of_zero_le hnonneg
    have hi : i ≤ xs.length := by omega
    obtain ⟨list', hinsert, hholds, hsort, -⟩ := h.List_Insert_spec hgrows hi x
    exact ⟨1, list', hinsert, ⟨_, hholds⟩, hsort⟩

theorem Holds.kept_insertPtr (h : list.Holds xs) {value : Option α}
    (hsafe : value = none ∨ list.Grows)
    : list.Kept (list.List_InsertPtr value) := by
  cases value with
  | none => exact ⟨-1, list, rfl, ⟨xs, h⟩, rfl⟩
  | some x =>
    obtain ⟨list', hinsert, hholds, hsort⟩ :=
      h.List_InsertPtr_spec (hsafe.resolve_left nofun) x
    exact ⟨1, list', hinsert, ⟨_, hholds⟩, hsort⟩

theorem Holds.kept_remove (h : list.Holds xs) {index : Int}
    (hsafe : ¬(index = 0 ∧ list.realCount = 0))
    : list.Kept (list.List_Remove index) := by
  have hcount := h.realCount
  by_cases hno : index < 0 ∨ index > list.realCount
  . refine ⟨0, list, ?_, ⟨xs, h⟩, rfl⟩
    unfold List_Remove
    rw [if_pos hno]
  . have hne : xs ≠ [] := by
      intro hnil
      apply hsafe
      rw [hnil, List.length_nil] at hcount
      omega
    obtain ⟨i, rfl⟩ := Int.eq_ofNat_of_zero_le (by omega : 0 ≤ index)
    have hi : i ≤ xs.length := by omega
    obtain ⟨list', hremove, hholds, hsort, -⟩ := h.List_Remove_spec hne hi
    exact ⟨1, list', hremove, ⟨_, hholds⟩, hsort⟩

theorem Holds.kept_removePtr (h : list.Holds xs) (value : Option α)
    : list.Kept (list.List_RemovePtr value) := by
  cases value with
  | none => exact ⟨-1, list, rfl, ⟨xs, h⟩, rfl⟩
  | some x =>
    obtain ⟨r, list', hremove, hholds, hsort⟩ := h.List_RemovePtr_spec x
    exact ⟨r, list', hremove, ⟨_, hholds⟩, hsort⟩

theorem Holds.made_copy (h : list.Holds xs) {d : SortedList α} {func : Option (α → α → Int)}
    (hfull : list.limit = list.realCount) (hfunc : d.sortFunc = func)
    : Made func (list.List_Copy d) := by
  obtain ⟨list', hcopy, hholds, hsort⟩ := h.List_Copy_spec hfull d
  exact ⟨list', hcopy, ⟨xs, hholds⟩, hsort.trans hfunc⟩

theorem Holds.made_objCopy (h : list.Holds xs) {d : SortedList α} (hd : ∃ ys, d.Holds ys)
    (hgrows : d.limit < d.realCount + list.realCount → 1 ≤ list.increment) (objects : Nat → α)
    : Made list.sortFunc (list.List_ObjCopy d objects) := by
  obtain ⟨ys, hys⟩ := hd
  obtain ⟨list', zs, hcopy, hholds, hsort⟩ := h.List_ObjCopy_spec hys hgrows objects
  exact ⟨list', hcopy, ⟨zs, hholds⟩, hsort⟩

theorem Holds.wellFormed (h : list.Holds xs) : list.WellFormed list.sortFunc := by
  have hcount := h.realCount
  have hlimit := h.limit
  constructor
  . omega
  . omega
  . exact h.slots
  . rfl

theorem Holds.contents_eq (h : list.Holds xs) : list.contents = xs := by
  obtain ⟨junk, hitems⟩ := h.items
  unfold contents
  rw [h.realCount, Int.toNat_natCast, hitems,
    List.take_append_of_le_length (List.length_map _).ge,
    List.take_of_length_le (List.length_map _).le, List.filterMap_map]
  exact List.filterMap_some

theorem Holds.inserts (h : list.Holds xs) (hgrows : list.Grows) : list.Inserts := by
  constructor
  . intro x
    obtain ⟨list', hinsert, -⟩ := h.List_InsertPtr_spec hgrows x
    exact ⟨list', hinsert⟩
  . intro x list' hlist' hsorted hpreorder f hf
    obtain ⟨list'', hinsert, hholds, hsort⟩ := h.List_InsertPtr_spec hgrows x
    rw [hinsert] at hlist'
    injection hlist' with heq
    injection heq with _ heq
    rw [← heq, hsort] at hf
    rw [Option.mem_def.1 hf] at hholds
    rw [← heq, hholds.contents_eq]
    have hbefore := hsorted f hf
    rw [h.contents_eq] at hbefore
    exact ListItems.sorted_insert (hpreorder f hf) hbefore x

theorem isSorted_copy {memory list' : SortedList α} (hcopy : list.List_Copy memory = some list')
    (hfunc : memory.sortFunc = list.sortFunc) (hsorted : list.IsSorted)
    : list'.IsSorted := by
  have hcontents : list'.contents = list.contents ∧ list'.sortFunc = list.sortFunc := by
    unfold List_Copy at hcopy
    split at hcopy
    . injection hcopy with heq
      rw [← heq]
      refine ⟨?_, hfunc⟩
      unfold contents
      simp only [List.take_take, min_self]
    . cases hcopy
  intro f hf
  rw [hcontents.2] at hf
  rw [hcontents.1]
  exact hsorted f hf

namespace Lists

variable {st : Lists ι α} {d : ι}

theorem Inv.put (h : st.Inv) {list : SortedList α} (hholds : ∃ xs, list.Holds xs)
    (hsort : list.sortFunc = (st.lists d).sortFunc)
    : (st.put d list).Inv := by
  intro i
  unfold Lists.put
  by_cases hi : i = d
  . rw [hi]
    simp only [Function.update_self]
    exact ⟨hholds, hsort.trans (h d).2⟩
  . simp only [Function.update_of_ne hi]
    exact h i

theorem Inv.init (h : st.Inv) {list : SortedList α} {func : Option (α → α → Int)}
    (hholds : ∃ xs, list.Holds xs) (hsort : list.sortFunc = func)
    : (st.init d list func).Inv := by
  intro i
  unfold Lists.init
  by_cases hi : i = d
  . rw [hi]
    simp only [Function.update_self]
    exact ⟨hholds, hsort⟩
  . simp only [Function.update_of_ne hi]
    exact h i

theorem Inv.kept (h : st.Inv) {r : Option (Int × SortedList α)} (hr : (st.lists d).Kept r)
    : ∃ st', (r.map fun r => st.put d r.2) = some st' ∧ st'.Inv := by
  obtain ⟨n, list', hr, hholds, hsort⟩ := hr
  rw [hr]
  exact ⟨_, rfl, h.put hholds hsort⟩

theorem Inv.made (h : st.Inv) {s : ι} {r : Option (SortedList α)}
    (hr : Made (st.lists s).sortFunc r)
    : ∃ st', (r.map fun list => st.init d list (st.funcs s)) = some st' ∧ st'.Inv := by
  obtain ⟨list', hr, hholds, hsort⟩ := hr
  rw [hr]
  exact ⟨_, rfl, h.init hholds (hsort.trans (h s).2)⟩

theorem Inv.destroy (h : st.Inv) (d : ι) : (st.destroy d).Inv :=
  h.put ⟨[], holds_nil rfl rfl rfl⟩ rfl

theorem destroy_self (st : Lists ι α) (d : ι)
    : (st.destroy d).lists d = (st.lists d).List_Destroy := Function.update_self ..

theorem destroy_of_ne {s : ι} (hne : s ≠ d) : (st.destroy d).lists s = st.lists s :=
  Function.update_of_ne hne ..

theorem Inv.assignList (h : st.Inv) {s : ι} (hsafe : st.Safe (.assignList s d))
    : ∃ st', st.step (.assignList s d) = some st' ∧ st'.Inv := by
  apply h.made
  by_cases hsd : s = d
  . rw [hsd, destroy_self]
    have hempty : (st.lists d).List_Destroy.Holds [] := holds_nil rfl rfl rfl
    exact hempty.made_copy rfl rfl
  . obtain ⟨hfull, hsort⟩ := hsafe.resolve_left hsd
    rw [destroy_of_ne hsd, destroy_self]
    obtain ⟨xs, hxs⟩ := (h s).1
    exact hxs.made_copy hfull hsort

theorem Inv.assignObjList (h : st.Inv) {s : ι} {objects : Nat → α}
    (hsafe : st.Safe (.assignObjList s d objects))
    : ∃ st', st.step (.assignObjList s d objects) = some st' ∧ st'.Inv := by
  have hempty : (st.lists d).List_Destroy.Holds [] := holds_nil rfl rfl rfl
  apply h.made
  by_cases hsd : s = d
  . rw [hsd, destroy_self]
    exact hempty.made_objCopy ⟨[], hempty⟩ (fun hlt => absurd hlt (lt_irrefl 0)) objects
  . have hgrows := hsafe.resolve_left hsd
    rw [destroy_of_ne hsd, destroy_self]
    obtain ⟨xs, hxs⟩ := (h s).1
    apply hxs.made_objCopy ⟨[], hempty⟩
    intro hlt
    apply hgrows
    rwa [SortedList.List_Destroy, zero_add] at hlt

theorem Inv.step (h : st.Inv) {op : ListOp ι α} (hsafe : st.Safe op)
    : ∃ st', st.step op = some st' ∧ st'.Inv := by
  cases op with
  | List_Create d limit increment => exact ⟨_, rfl, h.init ⟨[], holds_nil rfl rfl hsafe⟩ rfl⟩
  | LIST d increment sortFunc => exact ⟨_, rfl, h.init ⟨[], holds_nil rfl rfl rfl⟩ rfl⟩
  | List_Destroy d => exact ⟨_, rfl, h.destroy d⟩
  | List_Insert d value index =>
    obtain ⟨xs, hxs⟩ := (h d).1
    exact h.kept (hxs.kept_insert hsafe)
  | List_InsertPtr d value =>
    obtain ⟨xs, hxs⟩ := (h d).1
    exact h.kept (hxs.kept_insertPtr hsafe)
  | List_Remove d index =>
    obtain ⟨xs, hxs⟩ := (h d).1
    exact h.kept (hxs.kept_remove hsafe)
  | List_RemovePtr d value =>
    obtain ⟨xs, hxs⟩ := (h d).1
    exact h.kept (hxs.kept_removePtr value)
  | List_Copy s d =>
    obtain ⟨xs, hxs⟩ := (h s).1
    exact h.made (hxs.made_copy hsafe.1 hsafe.2)
  | List_ObjCopy s d objects =>
    obtain ⟨xs, hxs⟩ := (h s).1
    have hself : ¬(s = d ∧ 0 < (st.lists s).realCount) := by
      intro ⟨heq, hpos⟩
      have := hsafe.1 heq
      omega
    have hstep : st.step (.List_ObjCopy s d objects) =
        (List_ObjCopy (st.lists s) (st.lists d) objects).map fun list =>
          st.init d list (st.funcs s) := if_neg hself
    rw [hstep]
    exact h.made (hxs.made_objCopy (h d).1 hsafe.2 objects)
  | copyList s d memory =>
    obtain ⟨xs, hxs⟩ := (h s).1
    have hmade : Made (st.lists s).sortFunc (LIST.copy (st.lists s) memory) :=
      hxs.made_copy hsafe.1 hsafe.2
    exact h.made hmade
  | assignList s d => exact h.assignList hsafe
  | copyObjList s d objects =>
    obtain ⟨xs, hxs⟩ := (h s).1
    have hempty : (LIST (st.lists s).increment (st.lists s).sortFunc).Holds [] :=
      holds_nil rfl rfl rfl
    have hmade : Made (st.lists s).sortFunc (OBJLIST.copy (st.lists s) objects) := by
      apply hxs.made_objCopy ⟨[], hempty⟩
      intro hlt
      apply hsafe
      rwa [LIST, zero_add] at hlt
    exact h.made hmade
  | assignObjList s d objects => exact h.assignObjList hsafe

omit [DecidableEq ι] in
theorem Inv.ok (h : st.Inv) : st.Ok := by
  constructor
  . intro d
    obtain ⟨⟨xs, hxs⟩, hsort⟩ := h d
    rw [← hsort]
    exact hxs.wellFormed
  . intro d hgrows
    obtain ⟨xs, hxs⟩ := (h d).1
    exact hxs.inserts hgrows
  . intro s memory list' hcopy hfunc hsorted
    exact isSorted_copy hcopy hfunc hsorted

theorem ok_of_run {st : Lists ι α} {st' : Option (Lists ι α)} (hinit : st.Inv)
    (hrun : Transition.Run call SafeCall (some st) st')
    : ∃ lists, st' = some lists ∧ lists.Ok := by
  have hinv : ∃ lists, st' = some lists ∧ lists.Inv := by
    apply hrun.inv (I := fun st' => ∃ lists, st' = some lists ∧ lists.Inv)
    . intro st₁ op ⟨lists, heq, h⟩ hsafe
      rw [heq] at hsafe ⊢
      exact h.step (hsafe lists rfl)
    . exact ⟨st, rfl, hinit⟩
  obtain ⟨lists, heq, h⟩ := hinv
  exact ⟨lists, heq, h.ok⟩

def start : Lists Bool Nat where
  lists := fun _ => { increment := 0 }
  funcs := fun _ => none

theorem start_inv : start.Inv := fun _ => ⟨⟨[], holds_nil rfl rfl rfl⟩, rfl⟩

theorem ok_insert
    : ∃ lists, call (call (some start) (.LIST true 20 (some fun x y => x - y)))
        (.List_InsertPtr true (some 3)) = some lists ∧ lists.Ok := by
  apply ok_of_run start_inv
  apply Transition.Run.call (.call .init _ fun _ _ => trivial)
  intro st hst
  injection hst with hst
  rw [← hst]
  exact .inr (fun _ => by decide)

-- A list of one item has room for twenty, its copy has none.
theorem not_ok_copy
    : ¬∀ st', Transition.Run call (fun _ _ => True) (some start) st' →
        ∃ lists, st' = some lists ∧ lists.Ok := by
  intro hall
  obtain ⟨lists, heq, hok⟩ := hall _
    (.call (.call (.call .init (.LIST false 20 none) trivial)
      (.List_InsertPtr false (some 3)) trivial) (.copyList false true { increment := 0 }) trivial)
  injection heq with heq
  have hlimit := (hok.wellFormed true).limit_le
  rw [← heq] at hlimit
  exact absurd hlimit (by decide)

end Lists
end SortedList
