import MirandaNG.Clist.Removal
import MirandaNG.Clist.Rows

/-!
This module contains `Clist_FindItem`, which looks for an item in all groups, collapsed or not, and tells if it can be seen.
-/

namespace ClcTree

open WStr

-- The part of the list that is in the window: `clRect.bottom` pixels behind `yScroll`
structure Window where
  GetRowTopY : Nat → Int
  yScroll : Int
  bottom : Int

def Window.shows (w : Window) (item : Nat) : Bool :=
  w.yScroll ≤ w.GetRowTopY item && w.GetRowTopY item < w.yScroll + w.bottom

structure Found where
  row : Row
  isVisible : Bool
deriving DecidableEq

section
variable (dwItem : UInt32) (w : Window)

/-
The loop of `Clist_FindItem`. The loop that looks at the parents, when the search is back in `group`, asks each time
if `group` is expanded: the first time decides.
-/
def findLoop : Nat → Groups → Nat → Bool → Nat → Scan Found Nat
  | 0, _, _, _, _ => .running
  | fuel + 1, groups, group, nowVisible, index =>
    if (groups group).scanIndex = (groups group).cl.length then
      match (groups group).parent with
      | none => .finished index groups
      | some group => findLoop fuel (groups.scanNext group) group (groups group).bExpanded index
    else
      match (groups group).cl[(groups group).scanIndex]? with
      | none => .crashed
      | some cc =>
        let index := if nowVisible && cc.group.isNone then index + 1 else index
        if fnFindItem dwItem cc then
          .found ⟨⟨group, (groups group).scanIndex, cc⟩, nowVisible && w.shows (index + 1)⟩ groups
        else
          match cc.group with
          | none => findLoop fuel (groups.scanNext group) group nowVisible index
          | some sub => findLoop fuel (groups.scanFrom sub 0) sub (nowVisible && (groups sub).bExpanded) index

-- `Clist_FindItem`, where `isVisible` is asked for. A search that finds nothing puts out nothing.
def Clist_FindItemVisible (fuel : Nat) (groups : Groups) : Scan Found Unit :=
  (findLoop dwItem w fuel (groups.scanFrom 0 0) 0 true 0).returns fun _ => ()

end

/-
All items of the tree, depth first, each with what `nowVisible` is there: behind a group it is what the group around both is,
whatever is around that.
-/
def itemsTaken (groups : Groups) (nowVisible : Bool) (p k : Nat) : Forest → List (Row × Bool)
  | .nil => []
  | .item cc rest => (⟨p, k, cc⟩, nowVisible) :: itemsTaken groups nowVisible p (k + 1) rest
  | .group groupId szText sub items rest =>
    (⟨p, k, .CLCIT_GROUP groupId szText sub⟩, nowVisible) ::
      (itemsTaken groups (nowVisible && (groups sub).bExpanded) sub 0 items ++
        itemsTaken groups (groups p).bExpanded p (k + 1) rest)

def counts (item : Row × Bool) : Bool := item.2 && item.1.cc.group.isNone

section
variable (dwItem : UInt32) (w : Window)

def findTaken (index : Nat) : List (Row × Bool) → Found ⊕ Nat
  | [] => .inr index
  | item :: items =>
    let index := if counts item then index + 1 else index
    if fnFindItem dwItem item.1.cc then .inl ⟨item.1, item.2 && w.shows (index + 1)⟩ else findTaken index items

theorem findTaken_append (index : Nat) (l l' : List (Row × Bool))
    : findTaken dwItem w index (l ++ l')
        =
      match findTaken dwItem w index l with
      | .inl result => .inl result
      | .inr index => findTaken dwItem w index l' := by
  induction l generalizing index with
  | nil => rfl
  | cons item l ih =>
    rw [List.cons_append, findTaken, findTaken]
    by_cases hfind : fnFindItem dwItem item.1.cc = true
    . rw [if_pos hfind, if_pos hfind]
    . rw [if_neg hfind, if_neg hfind, ih]

theorem itemsTaken_rows (groups : Groups) (nowVisible : Bool) (above : List Nat) (p k : Nat) (f : Forest)
    : (itemsTaken groups nowVisible p k f).map Prod.fst = (itemsBelow above p k f).map Prod.snd := by
  induction f generalizing nowVisible above p k with
  | nil => rfl
  | item cc rest ih => rw [itemsTaken, itemsBelow, List.map_cons, List.map_cons, ih _ above]
  | group groupId szText sub items rest ihItems ihRest =>
    rw [itemsTaken, itemsBelow, List.map_cons, List.map_cons, List.map_append, List.map_append, ihItems _ (sub :: above),
      ihRest _ above]

theorem SameTree.itemsTaken {groups groups' : Groups} (h : SameTree groups groups') (nowVisible : Bool) (p k : Nat) (f : Forest)
    : itemsTaken groups' nowVisible p k f = ClcTree.itemsTaken groups nowVisible p k f := by
  induction f generalizing nowVisible p k with
  | nil => rfl
  | item cc rest ih => rw [ClcTree.itemsTaken, ClcTree.itemsTaken, ih]
  | group groupId szText sub items rest ihItems ihRest =>
    rw [ClcTree.itemsTaken, ClcTree.itemsTaken, h.bExpanded, h.bExpanded, ihItems, ihRest]

def Searched (groups : Groups) (p : Nat) (nowVisible : Bool) (index : Nat) (items : List (Row × Bool)) (pointers : List Nat)
    : Prop :=
  match findTaken dwItem w index items with
  | .inl result => ∃ n groups', SameTree groups groups' ∧
      ∀ fuel, findLoop dwItem w (n + fuel) groups p nowVisible index = .found result groups'
  | .inr index' => ∃ n groups' nowVisible', SameTree groups groups' ∧ (groups' p).scanIndex = (groups p).cl.length ∧
      (∀ q, q ≠ p → q ∉ pointers → groups' q = groups q) ∧
      ∀ fuel, findLoop dwItem w (n + fuel) groups p nowVisible index = findLoop dwItem w fuel groups' p nowVisible' index'

variable {dwItem w} {groups : Groups} {p index : Nat} {nowVisible : Bool} {cc : ClcContact} {items : List (Row × Bool)}
  {pointers : List Nat}

theorem searched_found (hitem : (groups p).cl[(groups p).scanIndex]? = some cc) (hfind : fnFindItem dwItem cc = true)
    : Searched dwItem w groups p nowVisible index ((⟨p, (groups p).scanIndex, cc⟩, nowVisible) :: items) pointers := by
  have hlt : (groups p).scanIndex < (groups p).cl.length := (List.getElem?_eq_some_iff.mp hitem).1
  unfold Searched findTaken
  dsimp only
  rw [if_pos hfind]
  refine ⟨1, groups, SameTree.refl groups, fun fuel => ?_⟩
  rw [Nat.add_comm]
  unfold findLoop
  rw [if_neg (by omega), hitem]
  dsimp only
  rw [if_pos hfind]
  rfl

theorem searched_item (hitem : (groups p).cl[(groups p).scanIndex]? = some cc) (hfind : fnFindItem dwItem cc = false)
    (hgroup : cc.group = none)
    (h : ∀ index, Searched dwItem w (groups.scanNext p) p nowVisible index items pointers)
    : Searched dwItem w groups p nowVisible index ((⟨p, (groups p).scanIndex, cc⟩, nowVisible) :: items) pointers := by
  have hlt : (groups p).scanIndex < (groups p).cl.length := (List.getElem?_eq_some_iff.mp hitem).1
  have hstep : ∀ fuel, findLoop dwItem w (fuel + 1) groups p nowVisible index
      = findLoop dwItem w fuel (groups.scanNext p) p nowVisible
          (if counts (⟨p, (groups p).scanIndex, cc⟩, nowVisible) then index + 1 else index) := by
    intro fuel
    conv_lhs => unfold findLoop
    rw [if_neg (by omega), hitem]
    dsimp only
    rw [hfind, if_neg Bool.false_ne_true, hgroup]
    simp only [counts, hgroup]
  have hsame : SameTree groups (groups.scanNext p) := SameTree.modify groups p _
  have hother : ∀ q, q ≠ p → groups.scanNext p q = groups q := fun q hq => Function.update_of_ne hq ..
  have h := h (if counts (⟨p, (groups p).scanIndex, cc⟩, nowVisible) then index + 1 else index)
  unfold Searched at h ⊢
  rw [findTaken]
  dsimp only
  rw [hfind, if_neg Bool.false_ne_true]
  cases hall : findTaken dwItem w (if counts (⟨p, (groups p).scanIndex, cc⟩, nowVisible) then index + 1 else index) items with
  | inl result =>
    rw [hall] at h
    obtain ⟨n, groups', hsame', hloop⟩ := h
    refine ⟨n + 1, groups', hsame.trans hsame', fun fuel => ?_⟩
    rw [Nat.add_right_comm, hstep, hloop]
  | inr index' =>
    rw [hall] at h
    obtain ⟨n, groups', nowVisible', hsame', hend, hrest, hloop⟩ := h
    refine ⟨n + 1, groups', nowVisible', hsame.trans hsame', ?_,
      fun q hq hnot => (hrest q hq hnot).trans (hother q hq), fun fuel => ?_⟩
    . rw [hend, hsame.cl]
    . rw [Nat.add_right_comm, hstep, hloop]

theorem searched_enter {sub : Nat} {inner : List (Row × Bool)} {below : List Nat}
    (hitem : (groups p).cl[(groups p).scanIndex]? = some cc) (hfind : fnFindItem dwItem cc = false)
    (hgroup : cc.group = some sub) (hparent : (groups sub).parent = some p) (hne : p ≠ sub) (hnot : p ∉ below)
    (hinner : Searched dwItem w (groups.scanFrom sub 0) sub (nowVisible && (groups sub).bExpanded) index inner below)
    (hrest : ∀ groups' index, SameTree groups groups' → groups' p = groups p →
      Searched dwItem w (groups'.scanNext p) p (groups p).bExpanded index items pointers)
    : Searched dwItem w groups p nowVisible index ((⟨p, (groups p).scanIndex, cc⟩, nowVisible) :: (inner ++ items))
        (sub :: (below ++ pointers)) := by
  have hlt : (groups p).scanIndex < (groups p).cl.length := (List.getElem?_eq_some_iff.mp hitem).1
  have hcounts : counts (⟨p, (groups p).scanIndex, cc⟩, nowVisible) = false := by
    rw [counts, hgroup]
    exact Bool.and_false _
  have hstep : ∀ fuel, findLoop dwItem w (fuel + 1) groups p nowVisible index
      = findLoop dwItem w fuel (groups.scanFrom sub 0) sub (nowVisible && (groups sub).bExpanded) index := by
    intro fuel
    conv_lhs => unfold findLoop
    rw [if_neg (by omega), hitem]
    dsimp only
    rw [hfind, if_neg Bool.false_ne_true, hgroup]
    dsimp only
    rw [Option.isNone_some, Bool.and_false, if_neg Bool.false_ne_true]
  have hsame : SameTree groups (groups.scanFrom sub 0) := SameTree.modify groups sub _
  have hother : ∀ q, q ≠ sub → groups.scanFrom sub 0 q = groups q := fun q hq => Function.update_of_ne hq ..
  unfold Searched at hinner ⊢
  rw [findTaken]
  dsimp only
  rw [hfind, if_neg Bool.false_ne_true, hcounts, if_neg Bool.false_ne_true, findTaken_append]
  cases hin : findTaken dwItem w index inner with
  | inl result =>
    rw [hin] at hinner
    obtain ⟨n, groups₁, hsame₁, hloop₁⟩ := hinner
    refine ⟨n + 1, groups₁, hsame.trans hsame₁, fun fuel => ?_⟩
    rw [Nat.add_right_comm, hstep, hloop₁]
  | inr index₁ =>
    rw [hin] at hinner
    obtain ⟨n, groups₁, nowVisible₁, hsame₁, hend₁, hrest₁, hloop₁⟩ := hinner
    have hsame₁ := hsame.trans hsame₁
    have hp : groups₁ p = groups p := (hrest₁ p hne hnot).trans (hother p hne)
    have hclimb : ∀ fuel, findLoop dwItem w (fuel + 1) groups₁ sub nowVisible₁ index₁
        = findLoop dwItem w fuel (groups₁.scanNext p) p (groups p).bExpanded index₁ := by
      intro fuel
      conv_lhs => unfold findLoop
      rw [if_pos (by rw [hend₁, hsame.cl, hsame₁.cl]), hsame₁.parent, hparent]
      dsimp only
      rw [hp]
    have hsame₂ : SameTree groups (groups₁.scanNext p) := hsame₁.trans (SameTree.modify groups₁ p _)
    have hother₂ : ∀ q, q ≠ p → groups₁.scanNext p q = groups₁ q := fun q hq => Function.update_of_ne hq ..
    have hafter := hrest groups₁ index₁ hsame₁ hp
    unfold Searched at hafter
    dsimp only
    cases hout : findTaken dwItem w index₁ items with
    | inl result =>
      rw [hout] at hafter
      obtain ⟨m, groups₂, hsame₃, hloop₂⟩ := hafter
      refine ⟨n + 1 + m + 1, groups₂, hsame₂.trans hsame₃, fun fuel => ?_⟩
      rw [show n + 1 + m + 1 + fuel = n + (m + fuel + 1) + 1 by omega, hstep, hloop₁, hclimb, hloop₂]
    | inr index₂ =>
      rw [hout] at hafter
      obtain ⟨m, groups₂, nowVisible₂, hsame₃, hend₂, hrest₂, hloop₂⟩ := hafter
      refine ⟨n + 1 + m + 1, groups₂, nowVisible₂, hsame₂.trans hsame₃, ?_, fun q hq hnotin => ?_, fun fuel => ?_⟩
      . rw [hend₂, hsame₂.cl]
      . rw [List.mem_cons, List.mem_append, not_or, not_or] at hnotin
        obtain ⟨hsub, hbelow, hpointers⟩ := hnotin
        rw [hrest₂ q hq hpointers, hother₂ q hq, hrest₁ q hsub hbelow, hother q hsub]
      . rw [show n + 1 + m + 1 + fuel = n + (m + fuel + 1) + 1 by omega, hstep, hloop₁, hclimb, hloop₂]

theorem searched_forest {f : Forest} {before : List ClcContact} (nowVisible : Bool) (index : Nat)
    (hcl : (groups p).cl = before ++ f.list) (hscan : (groups p).scanIndex = before.length)
    (hf : Represents groups p f) (hnodup : (p :: f.pointers).Nodup)
    : Searched dwItem w groups p nowVisible index (itemsTaken groups nowVisible p before.length f) f.pointers := by
  induction f generalizing groups p before nowVisible index with
  | nil =>
    refine ⟨0, groups, nowVisible, SameTree.refl groups, ?_, fun _ _ _ => rfl, fun fuel => ?_⟩
    . rw [hscan, hcl, Forest.list, List.append_nil]
    . rw [Nat.zero_add]
  | item cc rest ih =>
    rw [Forest.list] at hcl
    have hitem : (groups p).cl[(groups p).scanIndex]? = some cc := by
      rw [hcl, hscan, List.getElem?_append_right le_rfl, Nat.sub_self]
      rfl
    rw [itemsTaken, ← hscan]
    cases hfind : fnFindItem dwItem cc with
    | true => exact searched_found hitem hfind
    | false =>
      have hsame : SameTree groups (groups.scanNext p) := SameTree.modify groups p _
      refine searched_item hitem hfind hf.1 fun index => ?_
      have hnext := @ih (groups.scanNext p) p (before ++ [cc]) nowVisible index
        (by rw [hsame.cl, hcl, List.append_cons])
        (by simp [Groups.scanNext, Groups.modify, hscan])
        (hsame.represents hf.2) hnodup
      rw [hsame.itemsTaken, List.length_append, List.length_singleton, ← hscan] at hnext
      exact hnext
  | group groupId szText sub items rest ihItems ihRest =>
    rw [Forest.list] at hcl
    obtain ⟨⟨hclSub, hparent⟩, hitems, hrest⟩ := hf
    obtain ⟨hnodupItems, hnodupRest, hp, _⟩ := Forest.nodup_group hnodup
    have hitem : (groups p).cl[(groups p).scanIndex]? = some (.CLCIT_GROUP groupId szText sub) := by
      rw [hcl, hscan, List.getElem?_append_right le_rfl, Nat.sub_self]
      rfl
    rw [itemsTaken, ← hscan]
    cases hfind : fnFindItem dwItem (.CLCIT_GROUP groupId szText sub) with
    | true => exact searched_found hitem hfind
    | false =>
      have hsame : SameTree groups (groups.scanFrom sub 0) := SameTree.modify groups sub _
      refine searched_enter hitem hfind rfl hparent (fun h => hp (h ▸ List.mem_cons_self))
        (fun h => hp (List.mem_cons_of_mem _ h)) ?_ fun groups' index' hsame' hpsame => ?_
      . have hinner := @ihItems (groups.scanFrom sub 0) sub [] (nowVisible && (groups sub).bExpanded) index
          (by rw [hsame.cl, hclSub, List.nil_append])
          (by simp [Groups.scanFrom, Groups.modify])
          (hsame.represents hitems) hnodupItems
        rwa [hsame.itemsTaken] at hinner
      . have hsame' : SameTree groups (groups'.scanNext p) := hsame'.trans (SameTree.modify groups' p _)
        have hnext := @ihRest (groups'.scanNext p) p (before ++ [.CLCIT_GROUP groupId szText sub]) (groups p).bExpanded index'
          (by rw [hsame'.cl, hcl, List.append_cons])
          (by simp [Groups.scanNext, Groups.modify, hpsame, hscan])
          (hsame'.represents hrest) hnodupRest
        rw [hsame'.itemsTaken, List.length_append, List.length_singleton, ← hscan] at hnext
        exact hnext

variable (dwItem w) in
theorem findItem_tree {f : Forest} (htree : IsTree groups f)
    : Returns groups (fun fuel => Clist_FindItemVisible dwItem w fuel groups)
        ((findTaken dwItem w 0 (itemsTaken groups true 0 0 f)).map id fun _ => ()) := by
  have hsame : SameTree groups (groups.scanFrom 0 0) := SameTree.modify groups 0 _
  have hsearched : Searched dwItem w (groups.scanFrom 0 0) 0 true 0 (itemsTaken (groups.scanFrom 0 0) true 0 0 f)
      f.pointers :=
    @searched_forest _ _ _ _ _ [] true 0 (by rw [hsame.cl, htree.cl, List.nil_append])
      (by simp [Groups.scanFrom, Groups.modify]) (hsame.represents htree.represents) htree.nodup
  rw [hsame.itemsTaken] at hsearched
  unfold Searched at hsearched
  unfold Returns Clist_FindItemVisible
  cases hall : findTaken dwItem w 0 (itemsTaken groups true 0 0 f) with
  | inl result =>
    rw [hall] at hsearched
    obtain ⟨n, groups', hsame', hloop⟩ := hsearched
    exact ⟨n, groups', hsame.trans hsame', fun fuel => congrArg (Scan.returns _) (hloop fuel)⟩
  | inr index =>
    rw [hall] at hsearched
    obtain ⟨n, groups', nowVisible, hsame', hend, _, hloop⟩ := hsearched
    refine ⟨n + 1, groups', hsame.trans hsame', fun fuel => ?_⟩
    dsimp only
    rw [show n + 1 + fuel = n + (fuel + 1) by omega, hloop, findLoop, if_pos (by rw [hend, hsame'.cl]), hsame'.parent,
      hsame.parent, htree.parent]
    rfl

theorem findTaken_none {l : List (Row × Bool)} (index : Nat) (h : ∀ item ∈ l, fnFindItem dwItem item.1.cc = false)
    : findTaken dwItem w index l = .inr (index + l.countP counts) := by
  induction l generalizing index with
  | nil => rfl
  | cons item l ih =>
    rw [findTaken, h item List.mem_cons_self, if_neg Bool.false_ne_true, ih _ fun x hx => h x (List.mem_cons_of_mem _ hx),
      List.countP_cons]
    refine congrArg Sum.inr ?_
    split <;> omega

theorem findTaken_first {l : List (Row × Bool)} {i : Nat} {item : Row × Bool} (hitem : l[i]? = some item)
    (hfind : fnFindItem dwItem item.1.cc = true) (hfirst : ∀ x ∈ l.take i, fnFindItem dwItem x.1.cc = false)
    : findTaken dwItem w 0 l = .inl ⟨item.1, item.2 && w.shows ((l.take (i + 1)).countP counts + 1)⟩ := by
  obtain ⟨hlt, rfl⟩ := List.getElem?_eq_some_iff.mp hitem
  have hsplit : l = l.take i ++ l[i] :: l.drop (i + 1) := by
    rw [List.getElem_cons_drop, List.take_append_drop]
  have hcount : (l.take (i + 1)).countP counts = (l.take i).countP counts + (if counts l[i] then 1 else 0) := by
    rw [List.take_add_one, hitem, List.countP_append, Option.toList_some, List.countP_singleton]
  conv_lhs => rw [hsplit]
  rw [findTaken_append, findTaken_none 0 hfirst]
  dsimp only
  rw [findTaken, if_pos hfind, hcount]
  split <;> simp

theorem getElem?_filter_of_countP {α : Type} (shown : α → Bool) {l : List α} {i : Nat} {x : α} (hx : l[i]? = some x)
    (hshown : shown x = true) : (l.filter shown)[(l.take i).countP shown]? = some x := by
  obtain ⟨hlt, rfl⟩ := List.getElem?_eq_some_iff.mp hx
  have hsplit : l = l.take i ++ l[i] :: l.drop (i + 1) := by
    rw [List.getElem_cons_drop, List.take_append_drop]
  conv_lhs => rw [hsplit]
  rw [List.filter_append, List.filter_cons_of_pos hshown, List.getElem?_append_right, ← hsplit, List.countP_eq_length_filter,
    Nat.sub_self]
  . rfl
  . rw [← hsplit, List.countP_eq_length_filter]

theorem Returns.unique {ρ σ : Type} {call : Nat → Scan ρ σ} {result result' : ρ ⊕ σ} (h : Returns groups call result)
    (h' : Returns groups call result') : result = result' := by
  obtain ⟨n, groups₁, -, h⟩ := h
  obtain ⟨m, groups₂, -, h'⟩ := h'
  have heq := (h m).symm.trans ((congrArg call (Nat.add_comm n m)).trans (h' n))
  cases result <;> cases result' <;> cases heq <;> rfl

end

section
variable (dwItem : UInt32) (w : Window) (groups : Groups) (f : Forest)

def IsFirst (i : Nat) (above : List Nat) (row : Row) : Prop :=
  (itemsBelow [] 0 0 f)[i]? = some (above, row) ∧ fnFindItem dwItem row.cc = true ∧
    ∀ item ∈ (itemsBelow [] 0 0 f).take i, fnFindItem dwItem item.2.cc = false

/-
Whatever places earlier walks have left: no item is found if there is none, the first one is found otherwise, and it is
visible if all groups around it are expanded and the window shows its row.
-/
structure FindsItem : Prop where
  none : ∀ groups', SameTree groups groups' → (∀ item ∈ itemsBelow [] 0 0 f, fnFindItem dwItem item.2.cc = false) →
    Returns groups' (fun fuel => Clist_FindItemVisible dwItem w fuel groups') (.inr ())
  first : ∀ groups', SameTree groups groups' → ∀ i above row, IsFirst dwItem f i above row → ∃ isVisible,
    Returns groups' (fun fuel => Clist_FindItemVisible dwItem w fuel groups') (.inl ⟨row, isVisible⟩) ∧
      (isVisible = true ↔ expanded groups above = true ∧ ∃ j : Nat, w.shows j = true ∧
        Returns groups' (fun fuel => fnGetRowsPriorTo fuel groups' row.group row.index) (.inl j))

variable {dwItem w groups f}

theorem rowsPrior_expanded {groups' : Groups} {i : Nat} {above : List Nat} {row : Row} (htree : IsTree groups f)
    (hplaces : SameTree groups groups') (hitem : (itemsBelow [] 0 0 f)[i]? = some (above, row))
    (hexpanded : expanded groups above = true)
    : Returns groups' (fun fuel => fnGetRowsPriorTo fuel groups' row.group row.index)
        (.inl (((itemsBelow [] 0 0 f).take i).countP fun item => expanded groups item.1 : Nat)) := by
  have hrows : shownItems groups f = rows groups' false 0 0 f := by rw [shownItems_eq, hplaces.rows]
  have hrow : (rows groups' false 0 0 f)[((itemsBelow [] 0 0 f).take i).countP fun item => expanded groups item.1]?
      = some row := by
    rw [← hrows, shownItems, List.getElem?_map, getElem?_filter_of_countP (fun item => expanded groups item.1) hitem hexpanded]
    rfl
  have htree' := hplaces.isTree htree
  have hvisit := visitAll_prior row.group row.index (rows groups' false 0 0 f) 0
  rw [findIdx_address (rows_apart 0 htree'.represents htree'.nodup) hrow (.inl ⟨rfl, rfl⟩)] at hvisit
  dsimp only at hvisit
  rw [Int.zero_add] at hvisit
  exact Returns.of_scan (fun _ => (-1 : Int)) htree' hvisit

theorem findItem_first {groups' : Groups} {i : Nat} {above : List Nat} {row : Row} (htree : IsTree groups f)
    (hplaces : SameTree groups groups') (h : IsFirst dwItem f i above row)
    : ∃ nowVisible, (itemsTaken groups true 0 0 f)[i]? = some (row, nowVisible) ∧
        Returns groups' (fun fuel => Clist_FindItemVisible dwItem w fuel groups')
          (.inl ⟨row, nowVisible && w.shows (((itemsTaken groups true 0 0 f).take (i + 1)).countP counts + 1)⟩) := by
  obtain ⟨hitem, hfind, hfirst⟩ := h
  have hrows := itemsTaken_rows groups true [] 0 0 f
  have htaken : ((itemsTaken groups true 0 0 f)[i]?).map Prod.fst = some row := by
    rw [← List.getElem?_map, hrows, List.getElem?_map, hitem]
    rfl
  obtain ⟨⟨row', nowVisible⟩, hget, rfl⟩ := Option.map_eq_some_iff.1 htaken
  have hbefore : ∀ x ∈ (itemsTaken groups true 0 0 f).take i, fnFindItem dwItem x.1.cc = false := by
    intro x hx
    have hmem : x.1 ∈ ((itemsTaken groups true 0 0 f).map Prod.fst).take i := by
      rw [← List.map_take]
      exact List.mem_map_of_mem hx
    rw [hrows, ← List.map_take, List.mem_map] at hmem
    obtain ⟨item, hmem, heq⟩ := hmem
    rw [← heq]
    exact hfirst item hmem
  have hreturns := findItem_tree dwItem w (hplaces.isTree htree)
  rw [hplaces.itemsTaken, findTaken_first hget hfind hbefore] at hreturns
  exact ⟨nowVisible, hget, hreturns⟩

variable (dwItem w) in
theorem findsItem_iff (htree : IsTree groups f)
    : FindsItem dwItem w groups f ↔
        ∀ i above row nowVisible, IsFirst dwItem f i above row →
          (itemsTaken groups true 0 0 f)[i]? = some (row, nowVisible) →
          ((nowVisible = true ∧ w.shows (((itemsTaken groups true 0 0 f).take (i + 1)).countP counts + 1) = true) ↔
            expanded groups above = true ∧
              w.shows (((itemsBelow [] 0 0 f).take i).countP fun item => expanded groups item.1) = true) := by
  have hshown : ∀ groups', SameTree groups groups' → ∀ {i above row}, (itemsBelow [] 0 0 f)[i]? = some (above, row) →
      ((expanded groups above = true ∧ ∃ j : Nat, w.shows j = true ∧
        Returns groups' (fun fuel => fnGetRowsPriorTo fuel groups' row.group row.index) (.inl j)) ↔
      expanded groups above = true ∧
        w.shows (((itemsBelow [] 0 0 f).take i).countP fun item => expanded groups item.1) = true) := by
    intro groups' hplaces i above row hitem
    refine and_congr_right fun hexpanded => ?_
    have hprior := rowsPrior_expanded htree hplaces hitem hexpanded
    constructor
    . rintro ⟨j, hj, hreturns⟩
      have heq := Sum.inl.inj (hreturns.unique hprior)
      rwa [Int.ofNat_inj.1 heq] at hj
    . exact fun h => ⟨_, h, hprior⟩
  constructor
  . rintro hfinds i above row nowVisible hfirst htaken
    obtain ⟨isVisible, hreturns, hvisible⟩ := hfinds.first groups (SameTree.refl groups) i above row hfirst
    obtain ⟨nowVisible', htaken', hreturns'⟩ := findItem_first htree (SameTree.refl groups) hfirst
    cases Option.some.inj (htaken.symm.trans htaken')
    cases hreturns.unique hreturns'
    rw [← hshown groups (SameTree.refl groups) hfirst.1, ← hvisible, Bool.and_eq_true]
  . intro hagree
    constructor
    case none =>
      intro groups' hplaces hnone
      have hreturns := findItem_tree dwItem w (hplaces.isTree htree)
      rw [hplaces.itemsTaken, findTaken_none 0 fun x hx => ?_] at hreturns
      . exact hreturns
      . have hmem : x.1 ∈ (itemsTaken groups true 0 0 f).map Prod.fst := List.mem_map_of_mem hx
        rw [itemsTaken_rows groups true [] 0 0 f, List.mem_map] at hmem
        obtain ⟨item, hmem, heq⟩ := hmem
        rw [← heq]
        exact hnone item hmem
    case first =>
      intro groups' hplaces i above row hfirst
      obtain ⟨nowVisible, htaken, hreturns⟩ := findItem_first htree hplaces hfirst
      refine ⟨_, hreturns, ?_⟩
      rw [hshown groups' hplaces hfirst.1, ← hagree i above row nowVisible hfirst htaken, Bool.and_eq_true]

end
def oneRow : Window where
  GetRowTopY item := item * 16
  yScroll := 0
  bottom := 16

def collapsedGroup : Groups :=
  Function.update (Function.update (fun _ => {}) 0 { cl := [.CLCIT_GROUP 1 (lit "Friends") 1], bExpanded := true }) 1
    { cl := [.CLCIT_CONTACT 6], groupId := 1, parent := some 0 }

theorem findsItem_collapsedGroup
    : FindsItem 6 oneRow collapsedGroup (.group 1 (lit "Friends") 1 (.item (.CLCIT_CONTACT 6) .nil) .nil) := by
  have htree : IsTree collapsedGroup (.group 1 (lit "Friends") 1 (.item (.CLCIT_CONTACT 6) .nil) .nil) :=
    ⟨rfl, rfl, ⟨⟨rfl, rfl⟩, ⟨rfl, trivial⟩, trivial⟩, by decide⟩
  refine (findsItem_iff 6 oneRow htree).2 ?_
  rintro (_ | _ | i) above row nowVisible ⟨hitem, hfind, -⟩ htaken
  . cases hitem
    cases hfind
  . cases hitem
    cases htaken
    exact iff_of_false (fun h => by cases h.1) fun h => by cases h.1
  . cases hitem

def oneContact : Groups := Function.update (fun _ => {}) 0 { cl := [.CLCIT_CONTACT 5], bExpanded := true }

theorem not_findsItem_oneContact : ¬∀ dwItem w groups f, IsTree groups f → FindsItem dwItem w groups f := by
  intro h
  have htree : IsTree oneContact (.item (.CLCIT_CONTACT 5) .nil) := ⟨rfl, rfl, ⟨rfl, trivial⟩, by decide⟩
  have hfirst : IsFirst 5 (.item (.CLCIT_CONTACT 5) .nil) 0 [] ⟨0, 0, .CLCIT_CONTACT 5⟩ :=
    ⟨rfl, rfl, fun _ h => absurd h List.not_mem_nil⟩
  obtain ⟨isVisible, hreturns, hvisible⟩ := (h 5 oneRow oneContact _ htree).first oneContact (SameTree.refl _) _ _ _ hfirst
  -- The code looks at the second row behind it.
  have hfound : isVisible = false := by
    have heq := hreturns.unique (findItem_tree 5 oneRow htree)
    cases heq
    rfl
  have hprior := rowsPrior_expanded htree (SameTree.refl _) hfirst.1 rfl
  rw [hvisible.2 ⟨rfl, 0, rfl, hprior⟩] at hfound
  cases hfound

end ClcTree
