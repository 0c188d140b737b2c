import Mathlib.Data.List.Basic
import MirandaNG.Clist.Tree

/-!
This module contains the functions that tell the rows of the contact list: how many there are, which item stands in
a row, and in which row an item stands. It proves that they agree about one list, the items all of whose groups are
expanded.
-/

namespace ClcTree

open WStr

def Scan.returns {ρ σ τ : Type} (result : σ → τ) : Scan ρ σ → Scan ρ τ
  | running => .running
  | crashed => .crashed
  | found result groups => .found result groups
  | finished s groups => .finished (result s) groups

def visitIndex (testindex index : Int) (group k : Nat) (cc : ClcContact) : (Int × Row) ⊕ Int :=
  if testindex = index then .inl (index, ⟨group, k, cc⟩) else .inr (index + 1)

def fnGetRowByIndex (fuel : Nat) (groups : Groups) (testindex : Int) : Scan (Int × Row) Int :=
  if testindex < 0 then
    .finished (-1) groups
  else
    (scan false none (visitIndex testindex) fuel (groups.scanFrom 0 0) 0 0).returns fun _ => -1

def visitPrior (subgroup : Nat) (contactIndex count : Int) (group k : Nat) (cc : ClcContact) : Int ⊕ Int :=
  if group = subgroup ∧ contactIndex = k then
    .inl count
  else
    let count := count + 1
    if cc.group = some subgroup ∧ contactIndex = -1 then .inl (count - 1) else .inr count

def fnGetRowsPriorTo (fuel : Nat) (groups : Groups) (subgroup : Nat) (contactIndex : Int) : Scan Int Int :=
  (scan false none (visitPrior subgroup contactIndex) fuel (groups.scanFrom 0 0) 0 0).returns fun _ => -1

def visitCount (groups : Groups) (all : Bool) (count _ _ : Nat) (cc : ClcContact) : Empty ⊕ Nat :=
  match cc.group with
  | none => .inr count
  | some sub => if all || (groups sub).bExpanded then .inr (count + (groups sub).cl.length) else .inr count

def fnGetGroupContentsCount (fuel : Nat) (groups : Groups) (group : Nat) (visibleOnly : Bool) : Scan Empty Nat :=
  scan (!visibleOnly) (some group) (visitCount groups (!visibleOnly)) fuel (groups.scanFrom group 0) group
    (groups group).cl.length

def itemsBelow (above : List Nat) (p k : Nat) : Forest → List (List Nat × Row)
  | .nil => []
  | .item cc rest => (above, ⟨p, k, cc⟩) :: itemsBelow above p (k + 1) rest
  | .group groupId szText sub items rest =>
    (above, ⟨p, k, .CLCIT_GROUP groupId szText sub⟩) ::
      (itemsBelow (sub :: above) sub 0 items ++ itemsBelow above p (k + 1) rest)

def expanded (groups : Groups) (above : List Nat) : Bool := above.all fun p => (groups p).bExpanded

def shownItems (groups : Groups) (f : Forest) : List Row :=
  ((itemsBelow [] 0 0 f).filter fun item => expanded groups item.1).map Prod.snd

def Addresses (subgroup : Nat) (contactIndex : Int) (row : Row) : Prop :=
  (row.group = subgroup ∧ contactIndex = row.index) ∨ (row.cc.group = some subgroup ∧ contactIndex = -1)

instance (subgroup : Nat) (contactIndex : Int) (row : Row) : Decidable (Addresses subgroup contactIndex row) :=
  inferInstanceAs (Decidable (_ ∨ _))

def Returns {ρ σ : Type} (groups : Groups) (call : Nat → Scan ρ σ) (result : ρ ⊕ σ) : Prop :=
  ∃ n groups', SameTree groups groups' ∧
    ∀ fuel, call (n + fuel)
        =
      match result with
      | .inl result => .found result groups'
      | .inr s => .finished s groups'

structure AgreeOnRows (groups : Groups) (shown : List Row) : Prop where
  count : Returns groups (fun fuel => fnGetGroupContentsCount fuel groups 0 true) (.inr shown.length)
  row : ∀ (i : Nat) (row : Row), shown[i]? = some row →
    Returns groups (fun fuel => fnGetRowByIndex fuel groups i) (.inl (i, row))
  noRow : ∀ testindex : Int, testindex < 0 ∨ shown.length ≤ testindex →
    Returns groups (fun fuel => fnGetRowByIndex fuel groups testindex) (.inr (-1))
  prior : ∀ (i : Nat) (row : Row) (subgroup : Nat) (contactIndex : Int), shown[i]? = some row →
    Addresses subgroup contactIndex row →
    Returns groups (fun fuel => fnGetRowsPriorTo fuel groups subgroup contactIndex) (.inl i)
  noPrior : ∀ (subgroup : Nat) (contactIndex : Int), (∀ row ∈ shown, ¬Addresses subgroup contactIndex row) →
    Returns groups (fun fuel => fnGetRowsPriorTo fuel groups subgroup contactIndex) (.inr (-1))

theorem filter_itemsBelow (groups : Groups) (above : List Nat) (p k : Nat) (f : Forest)
    : ((itemsBelow above p k f).filter fun item => expanded groups item.1).map Prod.snd
        =
      if expanded groups above then rows groups false p k f else [] := by
  induction f generalizing above p k with
  | nil => rw [itemsBelow, rows, List.filter_nil, List.map_nil, ite_self]
  | item cc rest ih =>
    rw [itemsBelow, rows, List.filter_cons]
    dsimp only
    cases hexpanded : expanded groups above with
    | false =>
      rw [if_neg Bool.false_ne_true, if_neg Bool.false_ne_true, ih, hexpanded, if_neg Bool.false_ne_true]
    | true => rw [if_pos rfl, if_pos rfl, List.map_cons, ih, hexpanded, if_pos rfl]
  | group groupId szText sub items rest ihItems ihRest =>
    have hsub : expanded groups (sub :: above) = ((groups sub).bExpanded && expanded groups above) := List.all_cons ..
    rw [itemsBelow, rows, List.filter_cons, List.filter_append]
    dsimp only
    cases hexpanded : expanded groups above with
    | false =>
      rw [if_neg Bool.false_ne_true, if_neg Bool.false_ne_true, List.map_append, ihItems, ihRest, hsub, hexpanded,
        Bool.and_false, if_neg Bool.false_ne_true, if_neg Bool.false_ne_true, List.append_nil]
    | true =>
      rw [if_pos rfl, if_pos rfl, List.map_cons, List.map_append, ihItems, ihRest, hsub, hexpanded, Bool.and_true,
        if_pos rfl, Bool.false_or]

theorem shownItems_eq (groups : Groups) (f : Forest) : shownItems groups f = rows groups false 0 0 f :=
  filter_itemsBelow groups [] 0 0 f

theorem visitAll_index (l : List Row) (j : Int) (i : Nat)
    : visitAll (visitIndex (j + i)) j l
        =
      match l[i]? with
      | some row => .inl (j + i, row)
      | none => .inr (j + l.length) := by
  induction l generalizing j i with
  | nil => simp [visitAll]
  | cons row l ih =>
    rw [visitAll, visitIndex]
    cases i with
    | zero => simp
    | succ i =>
      rw [if_neg (by omega)]
      dsimp only
      rw [show j + ((i + 1 : Nat) : Int) = j + 1 + (i : Int) by omega, ih, List.getElem?_cons_succ, List.length_cons]
      cases l[i]? with
      | some row' => rfl
      | none => exact congrArg Sum.inr (by omega)

theorem visitAll_prior (subgroup : Nat) (contactIndex : Int) (l : List Row) (j : Int)
    : visitAll (visitPrior subgroup contactIndex) j l
        =
      match l.findIdx? fun row => decide (Addresses subgroup contactIndex row) with
      | some i => .inl (j + i)
      | none => .inr (j + l.length) := by
  induction l generalizing j with
  | nil => simp [visitAll]
  | cons row l ih =>
    have hvisit : visitPrior subgroup contactIndex j row.group row.index row.cc
        = if Addresses subgroup contactIndex row then .inl j else .inr (j + 1) := by
      unfold visitPrior
      by_cases hitem : row.group = subgroup ∧ contactIndex = row.index
      . rw [if_pos hitem, if_pos (show Addresses subgroup contactIndex row from .inl hitem)]
      . rw [if_neg hitem]
        by_cases hheader : row.cc.group = some subgroup ∧ contactIndex = -1
        . rw [if_pos hheader, if_pos (show Addresses subgroup contactIndex row from .inr hheader), Int.add_sub_cancel]
        . rw [if_neg hheader, if_neg fun h : Addresses subgroup contactIndex row => h.elim hitem hheader]
    rw [visitAll, hvisit, List.findIdx?_cons]
    by_cases haddress : Addresses subgroup contactIndex row
    . rw [if_pos haddress, if_pos (decide_eq_true haddress)]
      simp
    . rw [if_neg haddress, if_neg (by simpa using haddress)]
      dsimp only
      rw [ih, List.length_cons]
      cases l.findIdx? fun row => decide (Addresses subgroup contactIndex row) with
      | some i => exact congrArg Sum.inl (by push_cast; omega)
      | none => exact congrArg Sum.inr (by push_cast; omega)

theorem visitAll_count {groups : Groups} (all : Bool) {f : Forest} {p : Nat} (k count : Nat)
    (hf : Represents groups p f)
    : ∃ count', visitAll (visitCount groups all) count (rows groups all p k f) = .inr count' ∧
      count' + f.list.length = count + (rows groups all p k f).length := by
  induction f generalizing p k count with
  | nil => exact ⟨count, rfl, rfl⟩
  | item cc rest ih =>
    obtain ⟨count', hvisit, hcount⟩ := ih (k + 1) count hf.2
    refine ⟨count', ?_, ?_⟩
    . rw [rows, visitAll, visitCount]
      dsimp only
      rw [hf.1]
      exact hvisit
    . rw [rows, Forest.list, List.length_cons, List.length_cons]
      omega
  | group groupId szText sub items rest ihItems ihRest =>
    obtain ⟨⟨hcl, _⟩, hitems, hrest⟩ := hf
    rw [rows, visitAll, visitCount, Forest.list]
    dsimp only [ClcContact.group]
    cases henter : all || (groups sub).bExpanded with
    | false =>
      obtain ⟨count', hvisit, hcount⟩ := ihRest (k + 1) count hrest
      simp only [Bool.false_eq_true, if_false, List.nil_append, List.length_cons]
      exact ⟨count', hvisit, by omega⟩
    | true =>
      obtain ⟨count₁, hvisit₁, hcount₁⟩ := ihItems 0 (count + (groups sub).cl.length) hitems
      obtain ⟨count₂, hvisit₂, hcount₂⟩ := ihRest (k + 1) count₁ hrest
      simp only [if_true, List.length_cons, List.length_append]
      refine ⟨count₂, ?_, ?_⟩
      . rw [visitAll_append, hvisit₁]
        exact hvisit₂
      . rw [hcl] at hcount₁
        omega

theorem group_of_mem_rows {groups : Groups} {all : Bool} {f : Forest} {p k : Nat} {row : Row}
    (h : row ∈ rows groups all p k f) : (row.group = p ∧ k ≤ row.index) ∨ row.group ∈ f.pointers := by
  induction f generalizing p k with
  | nil => cases h
  | item cc rest ih =>
    rcases List.mem_cons.mp h with rfl | h
    . exact .inl ⟨rfl, le_rfl⟩
    . rcases ih h with ⟨hp, hk⟩ | hmem
      . exact .inl ⟨hp, by omega⟩
      . exact .inr hmem
  | group groupId szText sub items rest ihItems ihRest =>
    rcases List.mem_cons.mp h with rfl | h
    . exact .inl ⟨rfl, le_rfl⟩
    . rcases List.mem_append.mp h with h | h
      . split at h
        . rcases ihItems h with ⟨hp, _⟩ | hmem
          . exact .inr (hp ▸ List.mem_cons_self)
          . exact .inr (List.mem_cons_of_mem _ (List.mem_append_left _ hmem))
        . cases h
      . rcases ihRest h with ⟨hp, hk⟩ | hmem
        . exact .inl ⟨hp, by omega⟩
        . exact .inr (List.mem_cons_of_mem _ (List.mem_append_right _ hmem))

theorem header_of_mem_rows {groups : Groups} {all : Bool} {f : Forest} {p k sub : Nat} {row : Row}
    (hf : Represents groups p f) (h : row ∈ rows groups all p k f) (hsub : row.cc.group = some sub)
    : sub ∈ f.pointers := by
  induction f generalizing p k with
  | nil => cases h
  | item cc rest ih =>
    rcases List.mem_cons.mp h with rfl | h
    . rw [hf.1] at hsub
      cases hsub
    . exact ih hf.2 h
  | group groupId szText sub' items rest ihItems ihRest =>
    obtain ⟨_, hitems, hrest⟩ := hf
    rcases List.mem_cons.mp h with rfl | h
    . cases hsub
      exact List.mem_cons_self
    . rcases List.mem_append.mp h with h | h
      . split at h
        . exact List.mem_cons_of_mem _ (List.mem_append_left _ (ihItems hitems h))
        . cases h
      . exact List.mem_cons_of_mem _ (List.mem_append_right _ (ihRest hrest h))

def Apart (row row' : Row) : Prop :=
  ¬(row.group = row'.group ∧ row.index = row'.index) ∧
    ∀ sub, row.cc.group = some sub → row'.cc.group ≠ some sub

theorem Apart.not_addresses {row row' : Row} (h : Apart row row') {subgroup : Nat} {contactIndex : Int}
    (haddress : Addresses subgroup contactIndex row) : ¬Addresses subgroup contactIndex row' := by
  intro haddress'
  rcases haddress with ⟨hgroup, hindex⟩ | ⟨hheader, hindex⟩
  . rcases haddress' with ⟨hgroup', hindex'⟩ | ⟨_, hindex'⟩
    . exact h.1 ⟨hgroup.trans hgroup'.symm, by omega⟩
    . omega
  . rcases haddress' with ⟨_, hindex'⟩ | ⟨hheader', _⟩
    . omega
    . exact h.2 subgroup hheader hheader'

theorem rows_apart {groups : Groups} {all : Bool} {f : Forest} {p : Nat} (k : Nat) (hf : Represents groups p f)
    (hnodup : (p :: f.pointers).Nodup) : (rows groups all p k f).Pairwise Apart := by
  induction f generalizing p k with
  | nil => exact List.Pairwise.nil
  | item cc rest ih =>
    refine List.Pairwise.cons (fun row hrow => ⟨?_, fun sub hsub => ?_⟩) (ih (k + 1) hf.2 hnodup)
    . rintro ⟨hgroup, hindex⟩
      dsimp only at hgroup hindex
      rcases group_of_mem_rows hrow with ⟨_, hk⟩ | hmem
      . omega
      . exact (List.nodup_cons.mp hnodup).1 (hgroup ▸ hmem)
    . rw [hf.1] at hsub
      cases hsub
  | group groupId szText sub items rest ihItems ihRest =>
    obtain ⟨_, hitems, hrest⟩ := hf
    obtain ⟨hnodupItems, hnodupRest, hp, hdisjoint⟩ := Forest.nodup_group hnodup
    have hinner : (if all || (groups sub).bExpanded then rows groups all sub 0 items else []).Pairwise Apart := by
      split
      . exact ihItems 0 hitems hnodupItems
      . exact List.Pairwise.nil
    have hinside : ∀ row ∈ (if all || (groups sub).bExpanded then rows groups all sub 0 items else []),
        row.group ∈ sub :: items.pointers ∧ ∀ q, row.cc.group = some q → q ∈ items.pointers := by
      intro row hrow
      split at hrow
      . refine ⟨?_, fun q => header_of_mem_rows hitems hrow⟩
        rcases group_of_mem_rows hrow with ⟨hgroup, _⟩ | hmem
        . exact hgroup ▸ List.mem_cons_self
        . exact List.mem_cons_of_mem _ hmem
      . cases hrow
    refine List.Pairwise.cons (fun row hrow => ?_)
      (List.pairwise_append.mpr ⟨hinner, ihRest (k + 1) hrest hnodupRest, fun row hrow row' hrow' => ?_⟩)
    . rcases List.mem_append.mp hrow with hrow | hrow
      . obtain ⟨hgroup, hheader⟩ := hinside row hrow
        refine ⟨fun ⟨hsame, _⟩ => ?_, fun q hq hq' => ?_⟩
        . dsimp only at hsame
          exact hp (hsame ▸ hgroup)
        . cases hq
          exact (List.nodup_cons.mp hnodupItems).1 (hheader sub hq')
      . refine ⟨?_, fun q hq hq' => ?_⟩
        . rintro ⟨hgroup, hindex⟩
          dsimp only at hgroup hindex
          rcases group_of_mem_rows hrow with ⟨_, hk⟩ | hmem
          . omega
          . exact (List.nodup_cons.mp hnodupRest).1 (hgroup ▸ hmem)
        . cases hq
          exact hdisjoint sub List.mem_cons_self (header_of_mem_rows hrest hrow hq')
    . obtain ⟨hgroup, hheader⟩ := hinside row hrow
      refine ⟨fun h => ?_, fun q hq hq' => ?_⟩
      . rcases group_of_mem_rows hrow' with ⟨hgroup', _⟩ | hmem
        . exact hp (hgroup' ▸ h.1 ▸ hgroup)
        . exact hdisjoint row.group hgroup (h.1 ▸ hmem)
      . exact hdisjoint q (List.mem_cons_of_mem _ (hheader q hq)) (header_of_mem_rows hrest hrow' hq')

theorem findIdx_address {l : List Row} (hapart : l.Pairwise Apart) {i : Nat} {row : Row} {subgroup : Nat}
    {contactIndex : Int} (hrow : l[i]? = some row) (haddress : Addresses subgroup contactIndex row)
    : l.findIdx? (fun row => decide (Addresses subgroup contactIndex row)) = some i := by
  obtain ⟨hlt, rfl⟩ := List.getElem?_eq_some_iff.mp hrow
  refine List.findIdx?_eq_some_iff_getElem.mpr ⟨hlt, decide_eq_true haddress, fun j hj => ?_⟩
  have hjapart := List.pairwise_iff_getElem.mp hapart j i (by omega) hlt hj
  simpa using fun h => hjapart.not_addresses h haddress

theorem Returns.of_scan {ρ σ τ : Type} {all : Bool} {visit : σ → Nat → Nat → ClcContact → ρ ⊕ σ} {groups : Groups}
    {f : Forest} {s : σ} {result : ρ ⊕ σ} (g : σ → τ) (htree : IsTree groups f)
    (hvisit : visitAll visit s (rows groups all 0 0 f) = result)
    : Returns groups (fun fuel => (scan all none visit fuel (groups.scanFrom 0 0) 0 s).returns g)
        (result.map id g) := by
  have h := scan_tree all none visit s htree (.inl rfl)
  rw [hvisit] at h
  cases result with
  | inl result =>
    obtain ⟨n, groups', hsame, hscan⟩ := h
    exact ⟨n, groups', hsame, fun fuel => congrArg (Scan.returns g) (hscan fuel)⟩
  | inr s' =>
    obtain ⟨n, groups', hsame, _, hscan⟩ := h
    exact ⟨n, groups', hsame, fun fuel => congrArg (Scan.returns g) (hscan fuel)⟩

/--
The rows are the items with only expanded groups around them, depth first. Earlier walks may have left any places
in the groups.
-/
theorem agree_on_rows {groups groups' : Groups} {f : Forest} (htree : IsTree groups f)
    (hplaces : SameTree groups groups') : AgreeOnRows groups' (shownItems groups f) := by
  have hrows : shownItems groups f = rows groups' false 0 0 f := by rw [shownItems_eq, hplaces.rows]
  replace htree := hplaces.isTree htree
  rw [hrows]
  constructor
  case count =>
    obtain ⟨count, hvisit, hcount⟩ := visitAll_count false 0 (groups' 0).cl.length htree.represents
    have hscan := scan_tree false (some 0) (visitCount groups' false) (groups' 0).cl.length htree (.inr rfl)
    rw [hvisit] at hscan
    obtain ⟨n, groups'', hsame, _, hscan⟩ := hscan
    rw [htree.cl] at hcount
    rw [show count = (rows groups' false 0 0 f).length by omega] at hscan
    exact ⟨n, groups'', hsame, hscan⟩
  case row =>
    intro i row hrow
    have hvisit := visitAll_index (rows groups' false 0 0 f) 0 i
    rw [hrow, Int.zero_add] at hvisit
    have hreturns := Returns.of_scan (fun _ => (-1 : Int)) htree hvisit
    unfold Returns fnGetRowByIndex
    simp only [if_neg (show ¬((i : Int) < 0) by omega)]
    exact hreturns
  case noRow =>
    intro testindex hout
    unfold Returns fnGetRowByIndex
    by_cases hneg : testindex < 0
    . simp only [if_pos hneg]
      exact ⟨0, groups', SameTree.refl groups', fun _ => rfl⟩
    . obtain ⟨i, rfl⟩ := Int.eq_ofNat_of_zero_le (Int.not_lt.mp hneg)
      have hvisit := visitAll_index (rows groups' false 0 0 f) 0 i
      rw [List.getElem?_eq_none_iff.mpr (by omega), Int.zero_add] at hvisit
      have hreturns := Returns.of_scan (fun _ => (-1 : Int)) htree hvisit
      simp only [if_neg hneg]
      exact hreturns
  case prior =>
    intro i row subgroup contactIndex hrow haddress
    have hvisit := visitAll_prior subgroup contactIndex (rows groups' false 0 0 f) 0
    rw [findIdx_address (rows_apart 0 htree.represents htree.nodup) hrow haddress] at hvisit
    dsimp only at hvisit
    rw [Int.zero_add] at hvisit
    exact Returns.of_scan (fun _ => (-1 : Int)) htree hvisit
  case noPrior =>
    intro subgroup contactIndex hnone
    have hvisit := visitAll_prior subgroup contactIndex (rows groups' false 0 0 f) 0
    rw [List.findIdx?_eq_none_iff.mpr fun row hrow => decide_eq_false (hnone row hrow)] at hvisit
    exact Returns.of_scan (fun _ => (-1 : Int)) htree hvisit

def friendsGroup (groups : Groups) : Groups :=
  Function.update (Function.update groups 0
      { cl := [.CLCIT_GROUP 1 (lit "Friends") 1, .CLCIT_CONTACT 5], bExpanded := true }) 1
    { cl := [.CLCIT_CONTACT 6], groupId := 1, bExpanded := true, parent := some 0 }

theorem agree_on_rows_friendsGroup
    : AgreeOnRows (friendsGroup fun _ => {}) [⟨0, 0, .CLCIT_GROUP 1 (lit "Friends") 1⟩, ⟨1, 0, .CLCIT_CONTACT 6⟩,
        ⟨0, 1, .CLCIT_CONTACT 5⟩] :=
  agree_on_rows (f := .group 1 (lit "Friends") 1 (.item (.CLCIT_CONTACT 6) .nil) (.item (.CLCIT_CONTACT 5) .nil))
    ⟨rfl, rfl, ⟨⟨rfl, rfl⟩, ⟨rfl, trivial⟩, rfl, trivial⟩, by decide⟩ (SameTree.refl _)

end ClcTree
