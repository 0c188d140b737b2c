import MirandaNG.Clist.Groups
import MirandaNG.Order.MovedBefore

/-!
This module proves what the operations on the groups do to the two lists: what the list by names
needs to be searched, and what keeps the numbers in the list by numbers.
-/

namespace Clist

theorem numericKey_of_lt {i : Int} (hlow : 0 ≤ i) (hhigh : i < 2 ^ 32) : (numericKey i : Int) = i := by
  unfold numericKey
  omega

theorem keySort_eq_zero {i j : Int} (hi : 0 ≤ i ∧ i < 2 ^ 31 - 1) (hj : -(2 ^ 31) - 1 ≤ j ∧ j < 2 ^ 31)
    : KeySort numericKey i j = 0 ↔ i = j := by
  unfold KeySort numericKey
  omega

namespace Groups

variable {st st' : Groups} {p q : Nat}

structure Indexed (st : Groups) : Prop where
  nodup : st.arByIds.Nodup
  perm : st.arByName.Perm st.arByIds
  names : (st.arByIds.map fun p => (st.mem p).groupName).Nodup
  sorted : Compare.Sorted st.CompareGrpByName st.arByName
  fresh : ∀ p ∈ st.arByIds, p < st.next
  count : st.arByIds.length < 2 ^ 31

def Numbered (st : Groups) : Prop := ∀ i : Nat, ∀ p ∈ st.arByIds[i]?, (st.mem p).groupId = i

@[simp]
theorem modify_mem_self (st : Groups) (p : Nat) (f : CGroupInternal → CGroupInternal)
    : (st.modify p f).mem p = f (st.mem p) := by
  apply Function.update_self

theorem modify_mem_of_ne (st : Groups) (hq : q ≠ p) (f : CGroupInternal → CGroupInternal)
    : (st.modify p f).mem q = st.mem q := by
  apply Function.update_of_ne hq

@[simp]
theorem save_mem (st : Groups) (p : Nat) : (st.save p).mem = st.mem := rfl

theorem totalPreorder_byName (st : Groups) : Compare.TotalPreorder st.CompareGrpByName := by
  apply Compare.TotalPreorder.comap Compare.TotalPreorder.ofOrder

theorem totalPreorder_byId (st : Groups) : Compare.TotalPreorder st.NumericKeySort where
  flip p q := by
    unfold NumericKeySort KeySort
    omega
  trans p q r := by
    unfold NumericKeySort KeySort
    omega

theorem Indexed.name_inj (h : Indexed st) (hp : p ∈ st.arByIds) (hq : q ∈ st.arByIds)
    (hname : (st.mem p).groupName = (st.mem q).groupName)
    : p = q :=
  List.inj_on_of_nodup_map h.names hp hq hname

theorem Indexed.ordered (h : Indexed st) (name : WStr)
    : BinarySearch.Ordered (st.arByName.map fun p => WStr.wcscmp (st.mem p).groupName name) := by
  have hsorted : Compare.Sorted WStr.wcscmp (st.arByName.map fun p => (st.mem p).groupName) := by
    unfold Compare.Sorted
    rw [List.pairwise_map]
    exact h.sorted
  have hordered := Compare.TotalPreorder.ofOrder.ordered hsorted name
  rwa [List.map_map] at hordered

theorem mem_of_findGroupByName {name : WStr} (h : st.FindGroupByName name = some p)
    : p ∈ st.arByName ∧ (st.mem p).groupName = name := by
  obtain ⟨hmem, hzero⟩ := ListItems.mem_of_find h
  exact ⟨hmem, Compare.ofOrder_eq_zero.1 hzero⟩

theorem Indexed.findGroupByName_eq_none_iff (h : Indexed st) (name : WStr)
    : st.FindGroupByName name = none ↔ ∀ p ∈ st.arByIds, (st.mem p).groupName ≠ name := by
  have hnone := ListItems.find_eq_none_iff (h.ordered name)
  unfold FindGroupByName
  rw [hnone]
  constructor
  . intro hall p hp hname
    exact hall p (h.perm.mem_iff.2 hp) (Compare.ofOrder_eq_zero.2 hname)
  . intro hall p hp hzero
    exact hall p (h.perm.mem_iff.1 hp) (Compare.ofOrder_eq_zero.1 hzero)

theorem Numbered.nodup (hnum : Numbered st) : st.arByIds.Nodup := by
  rw [List.nodup_iff_getElem?_ne_getElem?]
  intro i j hij hj heq
  have hp := List.getElem?_eq_getElem hj
  have hi := hnum i _ (heq.trans hp)
  rw [hnum j _ hp] at hi
  omega

theorem Numbered.groupId_lt (hnum : Numbered st) (hcount : st.arByIds.length < 2 ^ 31)
    (hp : p ∈ st.arByIds)
    : 0 ≤ (st.mem p).groupId ∧ (st.mem p).groupId < 2 ^ 31 - 1 := by
  obtain ⟨i, hi⟩ := List.mem_iff_getElem?.1 hp
  have hid := hnum i p hi
  have hlt := (List.getElem?_eq_some_iff.1 hi).1
  omega

theorem Numbered.ordered (hnum : Numbered st) (hcount : st.arByIds.length < 2 ^ 31) (key : Int)
    : BinarySearch.Ordered
        (st.arByIds.map fun p => KeySort numericKey (st.mem p).groupId key) := by
  unfold BinarySearch.Ordered
  rw [List.pairwise_map, List.pairwise_iff_getElem]
  intro i j hi hj hij
  have hidi := hnum i _ (List.getElem?_eq_getElem hi)
  have hidj := hnum j _ (List.getElem?_eq_getElem hj)
  unfold KeySort
  rw [hidi, hidj, @numericKey_of_lt i (by omega) (by omega), @numericKey_of_lt j (by omega) (by omega)]
  omega

theorem Numbered.findGroup_eq_some_iff (hnum : Numbered st) (hcount : st.arByIds.length < 2 ^ 31)
    {key : Int} (hkey : -(2 ^ 31) - 1 ≤ key ∧ key < 2 ^ 31)
    : st.FindGroup key = some p ↔ 0 ≤ key ∧ st.arByIds[key.toNat]? = some p := by
  constructor
  . intro hfind
    obtain ⟨hmem, hzero⟩ := ListItems.mem_of_find hfind
    have hid := (keySort_eq_zero (hnum.groupId_lt hcount hmem) hkey).1 hzero
    obtain ⟨i, hi⟩ := List.mem_iff_getElem?.1 hmem
    have hplace := hnum i p hi
    have heq : key.toNat = i := by omega
    exact ⟨by omega, by rw [heq]; exact hi⟩
  . intro ⟨hlow, hget⟩
    have hid := hnum key.toNat p hget
    cases hfind : st.FindGroup key with
    | none =>
      have hall := (ListItems.find_eq_none_iff (hnum.ordered hcount key)).1 hfind
      have hmem := List.mem_of_getElem? hget
      exact absurd ((keySort_eq_zero (hnum.groupId_lt hcount hmem) hkey).2 (by omega)) (hall p hmem)
    | some q =>
      obtain ⟨hmem, hzero⟩ := ListItems.mem_of_find hfind
      have hidq := (keySort_eq_zero (hnum.groupId_lt hcount hmem) hkey).1 hzero
      obtain ⟨i, hi⟩ := List.mem_iff_getElem?.1 hmem
      have hplace := hnum i q hi
      have heq : key.toNat = i := by omega
      rw [heq, hi] at hget
      exact hget

structure KeepsNames (st st' : Groups) : Prop where
  arByIds : st'.arByIds = st.arByIds
  arByName : st'.arByName = st.arByName
  next : st'.next = st.next
  name : ∀ p, (st'.mem p).groupName = (st.mem p).groupName

namespace KeepsNames

theorem refl (st : Groups) : KeepsNames st st := ⟨rfl, rfl, rfl, fun _ => rfl⟩

theorem trans {st'' : Groups} (h : KeepsNames st st') (h' : KeepsNames st' st'')
    : KeepsNames st st'' where
  arByIds := h'.arByIds.trans h.arByIds
  arByName := h'.arByName.trans h.arByName
  next := h'.next.trans h.next
  name p := (h'.name p).trans (h.name p)

theorem modify (st : Groups) (p : Nat) {f : CGroupInternal → CGroupInternal}
    (hf : ∀ group, (f group).groupName = group.groupName)
    : KeepsNames st (st.modify p f) where
  arByIds := rfl
  arByName := rfl
  next := rfl
  name q := by
    by_cases hq : q = p
    . rw [hq, modify_mem_self, hf]
    . rw [modify_mem_of_ne st hq]

theorem save (st : Groups) (p : Nat) : KeepsNames st (st.save p) := ⟨rfl, rfl, rfl, fun _ => rfl⟩

end KeepsNames

theorem Indexed.congr (h : Indexed st) (hids : st'.arByIds.Perm st.arByIds)
    (hbyName : st'.arByName = st.arByName) (hnext : st'.next = st.next)
    (hname : ∀ p ∈ st.arByIds, (st'.mem p).groupName = (st.mem p).groupName)
    : Indexed st' where
  nodup := hids.nodup_iff.2 h.nodup
  perm := by
    rw [hbyName]
    exact h.perm.trans hids.symm
  names := by
    rw [(hids.map _).nodup_iff, List.map_congr_left hname]
    exact h.names
  sorted := by
    unfold Compare.Sorted
    rw [hbyName]
    apply List.Pairwise.imp_of_mem _ h.sorted
    intro p q hp hq hle
    unfold CompareGrpByName
    rw [hname p (h.perm.mem_iff.1 hp), hname q (h.perm.mem_iff.1 hq)]
    exact hle
  fresh p hp := by
    rw [hnext]
    exact h.fresh p (hids.mem_iff.1 hp)
  count := by
    rw [hids.length_eq]
    exact h.count

theorem Indexed.of_keepsNames (h : Indexed st) (hkeeps : KeepsNames st st') : Indexed st' :=
  h.congr (by rw [hkeeps.arByIds]) hkeeps.arByName hkeeps.next fun p _ => hkeeps.name p

theorem keepsNames_keepIds (ps : List Nat) (st : Groups) : KeepsNames st (st.keepIds ps) := by
  induction ps generalizing st with
  | nil => exact .refl st
  | cons p ps ih =>
    unfold keepIds
    apply KeepsNames.trans _ (ih _)
    apply KeepsNames.modify
    intro group
    rfl

theorem keepsNames_saveMoved (st : Groups) (p : Nat) : KeepsNames st (st.saveMoved p) := by
  unfold saveMoved
  split
  . exact .save st p
  . exact .refl st

theorem keepsNames_renumber (ps : List Nat) (i : Nat) (st : Groups)
    : KeepsNames st (renumber ps i st) := by
  induction ps generalizing i st with
  | nil => exact .refl st
  | cons p ps ih =>
    unfold renumber
    apply KeepsNames.trans _ (ih _ _)
    apply KeepsNames.trans _ (keepsNames_saveMoved _ p)
    apply KeepsNames.modify
    intro group
    rfl

theorem keepsNames_shuffle (shuffleStep : Int) (ps : List Nat) (st : Groups)
    : KeepsNames st (shuffle shuffleStep ps st) := by
  induction ps generalizing st with
  | nil => exact .refl st
  | cons p ps ih =>
    unfold shuffle
    apply KeepsNames.trans _ (ih _)
    apply KeepsNames.trans _ (KeepsNames.save _ p)
    apply KeepsNames.modify
    intro group
    rfl

theorem Indexed.removeByName_perm (h : Indexed st) (hp : p ∈ st.arByIds)
    : (p :: (st.removeByName p).arByName).Perm st.arByName := by
  apply ListItems.remove_perm
  . exact (totalPreorder_byName st).ordered h.sorted p
  . exact h.perm.mem_iff.2 hp
  . exact (totalPreorder_byName st).self p
  . intro q hq hzero
    exact h.name_inj (h.perm.mem_iff.1 hq) hp (Compare.ofOrder_eq_zero.1 hzero)

theorem Indexed.removeByName_sorted (h : Indexed st) (p : Nat)
    : Compare.Sorted st.CompareGrpByName (st.removeByName p).arByName :=
  List.Pairwise.sublist (ListItems.remove_sublist _ _ p) h.sorted

theorem Indexed.removeAt (h : Indexed st) {i : Nat} (hp : st.arByIds[i]? = some p)
    : Indexed (st.removeAt i p) := by
  have hsublist : ((st.removeAt i p).arByIds).Sublist st.arByIds := List.eraseIdx_sublist _ i
  obtain ⟨hi, hget⟩ := List.getElem?_eq_some_iff.1 hp
  have hids : (p :: (st.removeAt i p).arByIds).Perm st.arByIds := by
    have hperm := List.getElem_cons_eraseIdx_perm hi
    rwa [hget] at hperm
  have hnames := h.removeByName_perm (List.mem_of_getElem? hp)
  exact {
    nodup := h.nodup.sublist hsublist
    perm := ((hnames.trans h.perm).trans hids.symm).cons_inv
    names := h.names.sublist (hsublist.map _)
    sorted := h.removeByName_sorted p
    fresh := fun q hq => h.fresh q (hsublist.subset hq)
    count := lt_of_le_of_lt hsublist.length_le h.count
  }

theorem Indexed.removeGroups (wszOldName : WStr) (i : Nat) (r : Nat × Groups) (h : Indexed r.2)
    : Indexed (removeGroups wszOldName i r).2 := by
  induction i generalizing r with
  | zero => exact h
  | succ i ih =>
    unfold Groups.removeGroups
    split
    . exact ih _ h
    . next p hp =>
      split
      . exact ih _ (h.removeAt hp)
      . exact ih _ h

theorem Indexed.insertByName (hnodup : st.arByIds.Nodup) (hperm : (p :: st.arByName).Perm st.arByIds)
    (hnames : (st.arByIds.map fun p => (st.mem p).groupName).Nodup)
    (hsorted : Compare.Sorted st.CompareGrpByName st.arByName)
    (hfresh : ∀ p ∈ st.arByIds, p < st.next) (hcount : st.arByIds.length < 2 ^ 31)
    : Indexed (st.insertByName p) where
  nodup := hnodup
  perm := (ListItems.insert_perm _ _ p).trans hperm
  names := hnames
  sorted := ListItems.sorted_insert (totalPreorder_byName st) hsorted p
  fresh := hfresh
  count := hcount

theorem sorted_byName_congr {ps : List Nat} (h : Compare.Sorted st.CompareGrpByName ps)
    (hname : ∀ p ∈ ps, (st'.mem p).groupName = (st.mem p).groupName)
    : Compare.Sorted st'.CompareGrpByName ps := by
  apply List.Pairwise.imp_of_mem _ h
  intro p q hp hq hle
  unfold CompareGrpByName
  rw [hname p hp, hname q hq]
  exact hle

theorem nodup_names_update {ps : List Nat} {names : Nat → WStr} {name : WStr} (hnodup : ps.Nodup)
    (hnames : (ps.map names).Nodup) (hfree : ∀ q ∈ ps, q ≠ p → names q ≠ name)
    : (ps.map (Function.update names p name)).Nodup := by
  apply List.Nodup.map_on _ hnodup
  intro q hq q' hq' heq
  by_cases hqp : q = p
  . by_cases hqp' : q' = p
    . rw [hqp, hqp']
    . rw [hqp, Function.update_self, Function.update_of_ne hqp'] at heq
      exact absurd heq.symm (hfree q' hq' hqp')
  . by_cases hqp' : q' = p
    . rw [hqp', Function.update_self, Function.update_of_ne hqp] at heq
      exact absurd heq (hfree q hq hqp)
    . rw [Function.update_of_ne hqp, Function.update_of_ne hqp'] at heq
      exact List.inj_on_of_nodup_map hnames hq hq' heq

theorem Indexed.renameGroup (h : Indexed st) (hp : p ∈ st.arByIds) {szName : WStr}
    (hfree : ∀ q ∈ st.arByIds, q ≠ p → (st.mem q).groupName ≠ szName.truncate 255)
    : Indexed (st.renameGroup p szName) := by
  have hnames := h.removeByName_perm hp
  have hnotMem : p ∉ (st.removeByName p).arByName := by
    have hnodup := (hnames.trans h.perm).nodup_iff.2 h.nodup
    exact (List.nodup_cons.1 hnodup).1
  have hmem : ∀ q, (((st.removeByName p).modify p fun group =>
      { group with groupName := szName.truncate 255 }).mem q).groupName =
        Function.update (fun q => (st.mem q).groupName) p (szName.truncate 255) q := by
    intro q
    by_cases hq : q = p
    . rw [hq, Function.update_self, modify_mem_self]
    . rw [Function.update_of_ne hq, modify_mem_of_ne _ hq]
      rfl
  apply Indexed.insertByName
  . exact h.nodup
  . exact hnames.trans h.perm
  . have hmap := nodup_names_update h.nodup h.names hfree
    rwa [← List.map_congr_left fun q _ => hmem q] at hmap
  . apply sorted_byName_congr (h.removeByName_sorted p)
    intro q hq
    apply (hmem q).trans
    apply Function.update_of_ne
    intro heq
    rw [heq] at hq
    exact hnotMem hq
  . exact h.fresh
  . exact h.count

theorem numbered_insertById {b : Nat} (hb : b ≤ st.arByIds.length) (hp : (st.mem p).groupId = b)
    (hbelow : ∀ j < b, ∀ q ∈ st.arByIds[j]?, (st.mem q).groupId = j)
    (habove : ∀ j ≥ b, ∀ q ∈ st.arByIds[j]?, (st.mem q).groupId = j + 1)
    (hcount : st.arByIds.length + 1 < 2 ^ 31)
    : (st.insertById p).arByIds = st.arByIds.insertIdx b p ∧ Numbered (st.insertById p) := by
  have hlt : ∀ j : Nat, ∀ q ∈ st.arByIds[j]?, j < st.arByIds.length := by
    intro j q hq
    exact (List.getElem?_eq_some_iff.1 hq).1
  have hplace : ListItems.insertPlace (st.NumericKeySort · p) st.arByIds = b := by
    apply ListItems.insertPlace_eq hb
    . intro j hj q hq
      have hjlt := hlt j q hq
      unfold NumericKeySort KeySort
      rw [hp, hbelow j hj q hq, @numericKey_of_lt j (by omega) (by omega),
        @numericKey_of_lt b (by omega) (by omega)]
      omega
    . intro j hj q hq
      have hjlt := hlt j q hq
      unfold NumericKeySort KeySort
      rw [hp, habove j hj q hq, @numericKey_of_lt (j + 1) (by omega) (by omega),
        @numericKey_of_lt b (by omega) (by omega)]
      omega
  have hinsert : (st.insertById p).arByIds = st.arByIds.insertIdx b p := by
    unfold insertById ListItems.insert
    rw [hplace]
  refine ⟨hinsert, ?_⟩
  intro j q hq
  rw [hinsert, List.getElem?_insertIdx] at hq
  split at hq
  . next hjb => exact hbelow j hjb q hq
  . split at hq
    . next hjb =>
      split at hq
      . injection hq with hq
        rw [← hq, hjb]
        exact hp
      . cases hq
    . have hid := habove (j - 1) (by omega) q hq
      apply hid.trans
      omega

theorem numbered_addGroup (hnum : Numbered st) (hfresh : ∀ p ∈ st.arByIds, p < st.next)
    (hcount : st.arByIds.length + 1 < 2 ^ 31) (newName : WStr)
    : (st.addGroup newName).2.arByIds = st.arByIds ++ [st.next] ∧
        Numbered (st.addGroup newName).2 := by
  have hmem : ∀ j : Nat, ∀ q ∈ st.arByIds[j]?,
      (st.new (.new st.arByIds.length newName GROUPF_EXPANDED)).mem q = st.mem q := by
    intro j q hq
    apply Function.update_of_ne
    exact (hfresh q (List.mem_of_getElem? hq)).ne
  have hnew := @numbered_insertById (st.new (.new st.arByIds.length newName GROUPF_EXPANDED)) st.next
    st.arByIds.length (Nat.le_refl _) (congrArg _ (Function.update_self st.next _ st.mem)) ?_ ?_ hcount
  . obtain ⟨hids, hnumbered⟩ := hnew
    exact ⟨hids.trans List.insertIdx_length_self, hnumbered⟩
  . intro j _ q hq
    rw [hmem j q hq]
    exact hnum j q hq
  . intro j hj q hq
    have hlt : j < st.arByIds.length := (List.getElem?_eq_some_iff.1 hq).1
    omega

theorem Indexed.addGroup (h : Indexed st) (hnum : Numbered st) {newName : WStr}
    (hfree : ∀ q ∈ st.arByIds, (st.mem q).groupName ≠ newName)
    (hcount : st.arByIds.length + 1 < 2 ^ 31)
    : Indexed (st.addGroup newName).2 := by
  obtain ⟨hids, -⟩ := numbered_addGroup hnum h.fresh hcount newName
  have hnotMem : st.next ∉ st.arByIds := fun hmem => (h.fresh _ hmem).ne rfl
  have hname : ∀ q, ((st.addGroup newName).2.mem q).groupName =
      Function.update (fun q => (st.mem q).groupName) st.next newName q := by
    intro q
    by_cases hq : q = st.next
    . rw [hq, Function.update_self]
      exact congrArg CGroupInternal.groupName (Function.update_self st.next _ st.mem)
    . rw [Function.update_of_ne hq]
      exact congrArg CGroupInternal.groupName (Function.update_of_ne hq _ st.mem)
  have hold : ∀ q ∈ st.arByIds, ((st.addGroup newName).2.mem q).groupName = (st.mem q).groupName := by
    intro q hq
    have hne : q ≠ st.next := (h.fresh q hq).ne
    rw [hname q, Function.update_of_ne hne]
  have hperm : (st.next :: st.arByIds).Perm (st.addGroup newName).2.arByIds := by
    rw [hids]
    exact (List.perm_append_singleton _ _).symm
  have hinsert : Indexed (((st.new (.new st.arByIds.length newName GROUPF_EXPANDED)).insertById
      st.next).insertByName st.next) := by
    apply Indexed.insertByName
    . exact hperm.nodup_iff.1 (List.nodup_cons.2 ⟨hnotMem, h.nodup⟩)
    . exact (h.perm.cons _).trans hperm
    . apply (hperm.map fun q => ((st.addGroup newName).2.mem q).groupName).nodup_iff.1
      rw [List.map_cons, List.map_congr_left hold, hname, Function.update_self, List.nodup_cons]
      refine ⟨fun hmem => ?_, h.names⟩
      obtain ⟨q, hq, heq⟩ := List.mem_map.1 hmem
      exact hfree q hq heq
    . apply sorted_byName_congr h.sorted
      intro q hq
      exact hold q (h.perm.mem_iff.1 hq)
    . intro q hq
      rcases List.mem_cons.1 (hperm.mem_iff.2 hq) with heq | hmem
      . exact Nat.lt_succ_of_le heq.le
      . exact Nat.lt_succ_of_lt (h.fresh q hmem)
    . have hlength := hperm.length_eq
      rw [List.length_cons] at hlength
      exact hlength ▸ hcount
  exact hinsert.of_keepsNames (.save _ _)

theorem saveMoved_mem (st : Groups) (p : Nat) : (st.saveMoved p).mem = st.mem := by
  unfold saveMoved
  split
  . rfl
  . rfl

theorem renumber_of_notMem {ps : List Nat} (i : Nat) (st : Groups) (hq : q ∉ ps)
    : (renumber ps i st).mem q = st.mem q := by
  induction ps generalizing i st with
  | nil => rfl
  | cons p ps ih =>
    obtain ⟨hne, hq⟩ := not_or.1 fun hor => hq (List.mem_cons.2 hor)
    unfold renumber
    rw [ih _ _ hq, saveMoved_mem, modify_mem_of_ne st hne]

theorem renumber_groupId {ps : List Nat} (hnodup : ps.Nodup) (i : Nat) (st : Groups)
    : ∀ j : Nat, ∀ q ∈ ps[j]?, ((renumber ps i st).mem q).groupId = i + j := by
  induction ps generalizing i st with
  | nil => nofun
  | cons p ps ih =>
    obtain ⟨hp, hnodup⟩ := List.nodup_cons.1 hnodup
    unfold renumber
    intro j q hq
    cases j with
    | zero =>
      injection hq with hq
      rw [← hq, renumber_of_notMem _ _ hp, saveMoved_mem, modify_mem_self]
      rfl
    | succ j =>
      rw [ih hnodup _ _ j q hq]
      omega

theorem shuffle_groupId (shuffleStep : Int) {ps : List Nat} (hnodup : ps.Nodup) (st : Groups) (q : Nat)
    : ((shuffle shuffleStep ps st).mem q).groupId =
        (st.mem q).groupId - if q ∈ ps then shuffleStep else 0 := by
  induction ps generalizing st with
  | nil => exact (Int.sub_zero _).symm
  | cons p ps ih =>
    obtain ⟨hp, hnodup⟩ := List.nodup_cons.1 hnodup
    unfold shuffle
    rw [ih hnodup]
    by_cases hqp : q = p
    . rw [hqp, if_neg hp, if_pos List.mem_cons_self]
      rw [save_mem, modify_mem_self, Int.sub_zero]
    . have hmem : q ∈ p :: ps ↔ q ∈ ps := by rw [List.mem_cons, or_iff_right hqp]
      rw [if_congr hmem rfl rfl, save_mem, modify_mem_of_ne st hqp]

theorem removeById_arByIds (hnum : Numbered st) (hcount : st.arByIds.length < 2 ^ 31) {g : Nat}
    (hp : st.arByIds[g]? = some p)
    : (st.removeById p).arByIds = st.arByIds.eraseIdx g := by
  have hidp := hnum.groupId_lt hcount (List.mem_of_getElem? hp)
  unfold removeById ListItems.remove
  cases hindex : ListItems.getIndex (st.NumericKeySort · p) st.arByIds with
  | none =>
    have hall := (ListItems.getIndex_eq_none_iff (hnum.ordered hcount _)).1 hindex
    exact absurd (Int.sub_self _) (hall p (List.mem_of_getElem? hp))
  | some i =>
    obtain ⟨q, hq, hzero⟩ := ListItems.getElem?_of_getIndex hindex
    have hidq := hnum.groupId_lt hcount (List.mem_of_getElem? hq)
    have heq := (keySort_eq_zero hidq (by omega)).1 hzero
    have hi : i = g := by
      rw [hnum i q hq, hnum g p hp] at heq
      omega
    rw [hi]

theorem mem_slice_iff {ps : List Nat} (hnodup : ps.Nodup) {j : Nat} (hq : ps[j]? = some q)
    (first last : Nat)
    : q ∈ (ps.take last).drop first ↔ first ≤ j ∧ j < last := by
  obtain ⟨hj, -⟩ := List.getElem?_eq_some_iff.1 hq
  constructor
  . intro hmem
    obtain ⟨k, hfirst, hk⟩ := Compare.mem_drop_getElem? hmem
    rw [List.getElem?_take] at hk
    split at hk
    . next hlast =>
      have hkj : j = k := (List.getElem?_inj hj hnodup).1 (hq.trans hk.symm)
      omega
    . cases hk
  . intro ⟨hfirst, hlast⟩
    rw [List.mem_iff_getElem?]
    refine ⟨j - first, ?_⟩
    rw [List.getElem?_drop, List.getElem?_take, if_pos (by omega), ← hq]
    congr 1
    omega

def groupOf (st : Groups) (hGroup : Int) : Option Nat := if 0 < hGroup then st.arByIds[(hGroup - 1).toNat]? else none

theorem groupOf_eq_some_iff {hGroup : Int}
    : st.groupOf hGroup = some p ↔ ∃ g : Nat, hGroup = g + 1 ∧ st.arByIds[g]? = some p := by
  unfold groupOf
  constructor
  . intro h
    split at h
    . exact ⟨(hGroup - 1).toNat, by omega, h⟩
    . cases h
  . rintro ⟨g, rfl, hg⟩
    rw [if_pos (by omega), Int.add_sub_cancel, Int.toNat_natCast]
    exact hg

theorem findGroup_eq_groupOf (hnum : Numbered st) (hcount : st.arByIds.length < 2 ^ 31) {hGroup : Int}
    (hrange : -(2 ^ 31) ≤ hGroup ∧ hGroup ≤ 2 ^ 31)
    : st.FindGroup (hGroup - 1) = st.groupOf hGroup := by
  apply Option.ext
  intro p
  rw [hnum.findGroup_eq_some_iff hcount (by omega)]
  unfold groupOf
  split
  . exact and_iff_right (by omega)
  . exact iff_of_false (fun h => by omega) nofun

inductive Target (st : Groups) (hGroupBefore : Int) : Option Nat → Prop where
  | last (h : hGroupBefore = 0) : Target st hGroupBefore none
  | group {q : Nat} (h : st.groupOf hGroupBefore = some q) : Target st hGroupBefore (some q)

theorem Target.unique {hGroupBefore : Int} {target target' : Option Nat} (h : st.Target hGroupBefore target)
    (h' : st.Target hGroupBefore target')
    : target = target' := by
  have hzero : st.groupOf 0 = none := rfl
  cases h with
  | last h =>
    cases h' with
    | last => rfl
    | group h' =>
      rw [h, hzero] at h'
      cases h'
  | group h =>
    cases h' with
    | last h' =>
      rw [h', hzero] at h
      cases h
    | group h' => rw [← h, ← h']

structure Plan (st : Groups) (p : Nat) (target : Option Nat) (g b shuffleFrom shuffleTo : Nat) (shuffleStep : Int)
    : Prop where
  get : st.arByIds[g]? = some p
  lt : b < st.arByIds.length
  shuffle : ∀ j : Nat, j < st.arByIds.length - 1 →
    (if j < g then (j : Int) else j + 1) -
        (if shuffleFrom ≤ j ∧ j < shuffleTo then shuffleStep else 0) =
      if j < b then (j : Int) else j + 1
  place : Order.IsPlace (st.arByIds.eraseIdx g) b target

theorem groupMoveBefore_cases (hnum : Numbered st) (hcount : st.arByIds.length < 2 ^ 31) {hGroup hGroupBefore : Int}
    (hrange : -(2 ^ 31) ≤ hGroup ∧ hGroup ≤ 2 ^ 31)
    (hrangeBefore : -(2 ^ 31) ≤ hGroupBefore ∧ hGroupBefore ≤ 2 ^ 31)
    : (st.GroupMoveBefore hGroup hGroupBefore = (0, st) ∧
        ∀ p target, st.groupOf hGroup = some p → st.Target hGroupBefore target → target = some p) ∨
      ∃ (p : Nat) (target : Option Nat) (g b shuffleFrom shuffleTo : Nat) (shuffleStep : Int),
        st.groupOf hGroup = some p ∧ st.Target hGroupBefore target ∧ target ≠ some p ∧
        st.Plan p target g b shuffleFrom shuffleTo shuffleStep ∧
        st.GroupMoveBefore hGroup hGroupBefore = st.moveGroup p shuffleFrom shuffleTo shuffleStep b := by
  unfold GroupMoveBefore
  rw [findGroup_eq_groupOf hnum hcount hrange, findGroup_eq_groupOf hnum hcount hrangeBefore]
  split
  . next hsame =>
    left
    refine ⟨rfl, ?_⟩
    intro p target hp htarget
    obtain ⟨g, hg, -⟩ := groupOf_eq_some_iff.1 hp
    have heq : hGroup = hGroupBefore := by omega
    cases htarget with
    | last h => omega
    | group h => rw [← h, ← heq, hp]
  . next hne =>
    rw [not_or] at hne
    cases hp : st.groupOf hGroup with
    | none => exact .inl ⟨rfl, nofun⟩
    | some p =>
      obtain ⟨g, rfl, hg⟩ := groupOf_eq_some_iff.1 hp
      have hlt := (List.getElem?_eq_some_iff.1 hg).1
      dsimp only
      rw [Int.add_sub_cancel]
      split
      . next hzero =>
        right
        refine ⟨p, none, g, st.arByIds.length - 1, g, st.arByIds.length - 1, 1, rfl, .last hzero, nofun, ?_, ?_⟩
        . refine ⟨hg, by omega, ?_, (List.length_eraseIdx_of_lt hlt).symm⟩
          intro j hj
          split_ifs <;> omega
        . rw [show ((st.arByIds.length : Int) - 1) = ((st.arByIds.length - 1 : Nat) : Int) by omega]
      . next hzero =>
        cases hq : st.groupOf hGroupBefore with
        | none =>
          left
          refine ⟨rfl, ?_⟩
          intro p' target _ htarget
          cases htarget with
          | last h => exact absurd h hzero
          | group h =>
            rw [hq] at h
            cases h
        | some q =>
          obtain ⟨t, rfl, ht⟩ := groupOf_eq_some_iff.1 hq
          have hltt := (List.getElem?_eq_some_iff.1 ht).1
          have hnegt : g ≠ t := fun heq => hne.2 (by rw [heq])
          have hneqp : some q ≠ some p := by
            rintro ⟨⟩
            exact hnegt ((List.getElem?_inj hlt hnum.nodup).1 (hg.trans ht.symm))
          right
          rw [Option.isNone_some, if_neg Bool.false_ne_true]
          split
          . next hless =>
            refine ⟨p, some q, g, t - 1, g, t - 1, 1, rfl, .group hq, hneqp, ?_, ?_⟩
            . refine ⟨hg, by omega, ?_, ?_⟩
              . intro j hj
                split_ifs <;> omega
              . unfold Order.IsPlace
                rw [List.getElem?_eraseIdx, if_neg (by omega), Nat.sub_add_cancel (by omega)]
                exact ht
            . rw [show ((t : Int) + 1 - 2) = ((t - 1 : Nat) : Int) by omega]
          . next hless =>
            refine ⟨p, some q, g, t, t, g, -1, rfl, .group hq, hneqp, ?_, ?_⟩
            . refine ⟨hg, hltt, ?_, ?_⟩
              . intro j hj
                split_ifs <;> omega
              . unfold Order.IsPlace
                rw [List.getElem?_eraseIdx, if_pos (by omega)]
                exact ht
            . rw [Int.add_sub_cancel]

theorem numbered_moveGroup (hnum : Numbered st) (hcount : st.arByIds.length < 2 ^ 31) {target : Option Nat}
    {g b shuffleFrom shuffleTo : Nat} {shuffleStep : Int}
    (hplan : st.Plan p target g b shuffleFrom shuffleTo shuffleStep)
    : (st.moveGroup p shuffleFrom shuffleTo shuffleStep b).2.arByIds = (st.arByIds.eraseIdx g).insertIdx b p ∧
        Numbered (st.moveGroup p shuffleFrom shuffleTo shuffleStep b).2 := by
  have hp := hplan.get
  have hb := hplan.lt
  obtain ⟨hg, hget⟩ := List.getElem?_eq_some_iff.1 hp
  have hperm : (p :: st.arByIds.eraseIdx g).Perm st.arByIds := by
    have hperm := List.getElem_cons_eraseIdx_perm hg
    rwa [hget] at hperm
  obtain ⟨hnotMem, hnodup⟩ := List.nodup_cons.1 (hperm.nodup_iff.2 hnum.nodup)
  have hlength := hperm.length_eq
  rw [List.length_cons] at hlength
  have hremoved := removeById_arByIds hnum hcount hp
  let shuffled := ((st.removeById p).arByIds.take shuffleTo).drop shuffleFrom
  let st' := ((shuffle shuffleStep shuffled (st.removeById p)).modify p
    fun group => { group with groupId := b }).save p
  have hids : st'.arByIds = st.arByIds.eraseIdx g :=
    (keepsNames_shuffle shuffleStep shuffled _).arByIds.trans hremoved
  have hnumber : ∀ j : Nat, ∀ q ∈ st'.arByIds[j]?,
      (st'.mem q).groupId = if j < b then (j : Int) else j + 1 := by
    intro j q hq
    rw [hids] at hq
    have hj := (List.getElem?_eq_some_iff.1 hq).1
    have hne : q ≠ p := fun heq => hnotMem (heq ▸ List.mem_of_getElem? hq)
    have hold : (st.mem q).groupId = if j < g then (j : Int) else j + 1 := by
      rw [List.getElem?_eraseIdx] at hq
      split at hq
      . next hjg => exact (hnum j q hq).trans (if_pos hjg).symm
      . next hjg => exact (hnum (j + 1) q hq).trans (if_neg hjg).symm
    have hmem : q ∈ shuffled ↔ shuffleFrom ≤ j ∧ j < shuffleTo := by
      rw [← mem_slice_iff hnodup hq, ← hremoved]
    have hshuffled : shuffled.Nodup := by
      apply List.Nodup.sublist ((List.drop_sublist _ _).trans (List.take_sublist _ _))
      rwa [hremoved]
    rw [← hplan.shuffle j (by omega), save_mem, modify_mem_of_ne _ hne, shuffle_groupId _ hshuffled,
      if_congr hmem rfl rfl]
    exact congrArg (fun i => i - _) hold
  have hidp : (st'.mem p).groupId = b := by rw [save_mem, modify_mem_self]
  have hinsert := @numbered_insertById st' p b (by rw [hids]; omega) hidp ?_ ?_ (by rw [hids]; omega)
  . obtain ⟨hinserted, hnumbered⟩ := hinsert
    refine ⟨?_, hnumbered⟩
    exact hinserted.trans (by rw [hids])
  . intro j hj q hq
    exact (hnumber j q hq).trans (if_pos hj)
  . intro j hj q hq
    exact (hnumber j q hq).trans (if_neg (by omega))

theorem groupId_renameFirst (st : Groups) (p q : Nat) (szName : WStr)
    : ((st.renameFirst p szName).mem q).groupId = (st.mem q).groupId := by
  have hmem : (st.renameFirst p szName).mem = ((st.removeByName p).modify p
      fun group => { group with groupName := szName.truncate 255 }).mem := rfl
  rw [hmem]
  by_cases hq : q = p
  . rw [hq, modify_mem_self]
    rfl
  . rw [modify_mem_of_ne _ hq]
    rfl

theorem groupName_renameFirst (st : Groups) (p q : Nat) (szName : WStr)
    : ((st.renameFirst p szName).mem q).groupName = if q = p then szName.truncate 255 else (st.mem q).groupName := by
  have hmem : (st.renameFirst p szName).mem = ((st.removeByName p).modify p
      fun group => { group with groupName := szName.truncate 255 }).mem := rfl
  rw [hmem]
  by_cases hqp : q = p
  . rw [hqp, modify_mem_self, if_pos rfl]
  . rw [modify_mem_of_ne _ hqp, if_neg hqp]
    rfl

theorem renameSubgroups_succ (rename : Groups → Int → WStr → Groups) (st : Groups) (p : Nat)
    (groupId : Int) (szName : WStr) (n : Nat)
    : renameSubgroups rename st p groupId szName (n + 1) =
        renameSubgroup rename groupId (st.mem p).groupName szName
          (renameSubgroups rename st p groupId szName n) n := by
  unfold renameSubgroups
  rw [List.range_succ, List.foldl_append]
  rfl

end Groups
end Clist
