import MirandaNG.Core.SortFunc

/-!
This module contains how the contact list keeps its state when it is built anew: `Clist_SaveStateAndRebuildList` puts what is to
be kept into three sorted lists, and takes it from there by its keys.
-/

namespace ClcRebuild

structure ContactState where
  iExtraImage : List UInt16
  checked : Bool
deriving DecidableEq

structure InfoItem where
  flags : UInt8
  hContact : UInt32
  szText : List UInt16
deriving DecidableEq

inductive Item where
  | CLCIT_CONTACT (hContact : UInt32) (state : ContactState)
  | CLCIT_INFO (cc : InfoItem)
  | CLCIT_DIVIDER
deriving DecidableEq

inductive Items where
  | nil
  | item (it : Item) (rest : Items)
  | CLCIT_GROUP (groupId : UInt16) (bExpanded : Bool) (items rest : Items)
deriving DecidableEq

open Item Items

def insert {β : Type} (xs : List (Nat × β)) (p : Nat × β) : List (Nat × β) := ListItems.insert (KeySort Prod.fst) xs p

def find {β : Type} (xs : List (Nat × β)) (key : Nat) : Option β :=
  (ListItems.find (fun p => (p.1 : Int) - key) xs).map Prod.snd

structure Saved where
  saveContact : List (Nat × ContactState) := []
  saveGroup : List (Nat × Bool) := []
  saveInfo : List (Nat × InfoItem) := []

def noParent : Nat := 2 ^ 32 - 1

def save (parentId : Nat) : Items → Saved → Saved
  | nil, s => s
  | item (CLCIT_CONTACT hContact state) rest, s =>
    save parentId rest { s with saveContact := insert s.saveContact (hContact.toNat, state) }
  | item (CLCIT_INFO cc) rest, s => save parentId rest { s with saveInfo := insert s.saveInfo (parentId, cc) }
  | item CLCIT_DIVIDER rest, s => save parentId rest s
  | CLCIT_GROUP groupId bExpanded items rest, s =>
    save parentId rest
      (save groupId.toNat items { s with saveGroup := insert s.saveGroup (groupId.toNat, bExpanded) })

def restoreContact (s : Saved) (p : Nat × ContactState) : ContactState :=
  match find s.saveContact p.1 with
    | none => p.2
    | some q => ⟨q.iExtraImage, p.2.checked || q.checked⟩

def restore (s : Saved) : Items → Items
  | nil => nil
  | item (CLCIT_CONTACT hContact state) rest =>
    item (CLCIT_CONTACT hContact (restoreContact s (hContact.toNat, state))) (restore s rest)
  | item (CLCIT_INFO cc) rest => item (CLCIT_INFO cc) (restore s rest)
  | item CLCIT_DIVIDER rest => item CLCIT_DIVIDER (restore s rest)
  | CLCIT_GROUP groupId bExpanded items rest =>
    CLCIT_GROUP groupId ((find s.saveGroup groupId.toNat).getD bExpanded) (restore s items) (restore s rest)

def CLCIIF_BELOWGROUPS : UInt8 := 1
def CLCIIF_BELOWCONTACTS : UInt8 := 2

inductive Kind where
  | contact
  | info (cc : InfoItem)
  | other
deriving DecidableEq

def Item.kind : Item → Kind
  | CLCIT_CONTACT _ _ => .contact
  | CLCIT_INFO cc => .info cc
  | CLCIT_DIVIDER => .other

def passes (flags : UInt8) : Kind → Bool
  | .contact => flags &&& CLCIIF_BELOWCONTACTS ≠ 0
  | .info _ => true
  | .other => flags &&& CLCIIF_BELOWCONTACTS ≠ 0 || flags &&& CLCIIF_BELOWGROUPS ≠ 0

def fnAddInfoItemToGroup (cc : InfoItem) : Items → Items
  | nil => item (CLCIT_INFO cc) nil
  | item it rest =>
    if passes cc.flags it.kind then item it (fnAddInfoItemToGroup cc rest) else item (CLCIT_INFO cc) (item it rest)
  | CLCIT_GROUP groupId bExpanded items rest =>
    if passes cc.flags .other then CLCIT_GROUP groupId bExpanded items (fnAddInfoItemToGroup cc rest)
    else item (CLCIT_INFO cc) (CLCIT_GROUP groupId bExpanded items rest)

def addToGroup (parentId : Nat) (cc : InfoItem) : Items → Option Items
  | nil => none
  | item it rest => (addToGroup parentId cc rest).map (item it)
  | CLCIT_GROUP groupId bExpanded items rest =>
    if groupId.toNat = parentId then
      some (CLCIT_GROUP groupId bExpanded (fnAddInfoItemToGroup cc items) rest)
    else
      match addToGroup parentId cc items with
      | some items => some (CLCIT_GROUP groupId bExpanded items rest)
      | none => (addToGroup parentId cc rest).map (CLCIT_GROUP groupId bExpanded items)

def addInfo (items : Items) (it : Nat × InfoItem) : Items :=
  if it.1 = noParent then fnAddInfoItemToGroup it.2 items else (addToGroup it.1 it.2 items).getD items

def Clist_SaveStateAndRebuildList (rebuilt list : Items) : Items :=
  let s := save noParent list {}
  s.saveInfo.foldl addInfo (restore s rebuilt)

def contacts : Items → List (Nat × ContactState)
  | nil => []
  | item (CLCIT_CONTACT hContact state) rest => (hContact.toNat, state) :: contacts rest
  | item (CLCIT_INFO _) rest | item CLCIT_DIVIDER rest => contacts rest
  | CLCIT_GROUP _ _ items rest => contacts items ++ contacts rest

def groups : Items → List (Nat × Bool)
  | nil => []
  | item _ rest => groups rest
  | CLCIT_GROUP groupId bExpanded items rest => (groupId.toNat, bExpanded) :: (groups items ++ groups rest)

def level : Items → List Kind
  | nil => []
  | item it rest => it.kind :: level rest
  | CLCIT_GROUP _ _ _ rest => .other :: level rest

def levelsBelow : Items → List (Nat × List Kind)
  | nil => []
  | item _ rest => levelsBelow rest
  | CLCIT_GROUP groupId _ items rest => (groupId.toNat, level items) :: (levelsBelow items ++ levelsBelow rest)

def levels (t : Items) : List (Nat × List Kind) := (noParent, level t) :: levelsBelow t

def infosOf (l : List Kind) : List InfoItem :=
  l.filterMap fun
    | .info cc => some cc
    | _ => none

def infos (t : Items) : List (Nat × List InfoItem) := (levels t).map fun e => (e.1, infosOf e.2)

-- The same contacts and groups, which may be in another order: nothing is checked, and there are no info items.
structure Rebuilt (list rebuilt : Items) : Prop where
  contacts : ((contacts rebuilt).map Prod.fst).Perm ((contacts list).map Prod.fst)
  groups : ((groups rebuilt).map Prod.fst).Perm ((groups list).map Prod.fst)
  unchecked : ∀ p ∈ ClcRebuild.contacts rebuilt, p.2.checked = false
  noInfos : ∀ e ∈ infos rebuilt, e.2 = []

structure Kept (list new : Items) : Prop where
  contacts : (contacts new).Perm (contacts list)
  groups : (groups new).Perm (groups list)
  infos : (infos new).Perm (infos list)

def OneValue {β : Type} (l : List (Nat × β)) : Prop := ∀ p ∈ l, ∀ q ∈ l, p.1 = q.1 → p = q

def Alone (l : List (Nat × List InfoItem)) : Prop :=
  ∀ e ∈ l, e.2 ≠ [] → e.2.length = 1 ∧ (l.map Prod.fst).count e.1 = 1

def OnePlace (l : List (Nat × List InfoItem)) : Prop :=
  ∀ e ∈ l, e.2 ≠ [] → e.2.Nodup ∧ (∀ x ∈ e.2, ∀ y ∈ e.2, passes x.flags = passes y.flags) ∧
    (l.map Prod.fst).count e.1 = 1

section
variable {β : Type} {xs l l' : List (Nat × β)} {key : Nat} {p : Nat × β}

theorem sorted_foldl_insert (h : Compare.Sorted (KeySort Prod.fst) xs) (l : List (Nat × β))
    : Compare.Sorted (KeySort Prod.fst) (l.foldl insert xs) := by
  induction l generalizing xs with
  | nil => exact h
  | cons p l ih => exact ih (ListItems.sorted_insert (SortedList.KeySort_preorder Prod.fst) h p)

theorem foldl_insert_perm (xs l : List (Nat × β)) : (l.foldl insert xs).Perm (l ++ xs) := by
  induction l generalizing xs with
  | nil => exact List.Perm.refl xs
  | cons p l ih =>
    refine (ih _).trans ?_
    exact ((ListItems.insert_perm (KeySort Prod.fst) xs p).append_left l).trans List.perm_middle

theorem find_foldl_insert (l : List (Nat × β)) (hp : p ∈ l)
    : ∃ q ∈ l, q.1 = p.1 ∧ find (l.foldl insert []) p.1 = some q.2 := by
  have hperm := foldl_insert_perm [] l
  rw [List.append_nil] at hperm
  have hsorted := sorted_foldl_insert (List.Pairwise.nil : Compare.Sorted (KeySort Prod.fst) []) l
  have hordered : BinarySearch.Ordered ((l.foldl insert []).map fun q => (q.1 : Int) - p.1) :=
    (SortedList.KeySort_preorder Prod.fst).ordered hsorted p
  unfold find
  cases hfind : ListItems.find (fun q => (q.1 : Int) - p.1) (l.foldl insert []) with
  | none =>
    exact absurd (Int.sub_self _) ((ListItems.find_eq_none_iff hordered).1 hfind p (hperm.mem_iff.2 hp))
  | some q =>
    obtain ⟨hmem, hzero⟩ := ListItems.mem_of_find hfind
    exact ⟨q, hperm.mem_iff.1 hmem, by omega, rfl⟩

theorem find_insert_iff (l : List (Nat × β))
    : (∀ p ∈ l, find (l.foldl insert []) p.1 = some p.2) ↔ OneValue l := by
  constructor
  . intro h p hp q hq hkey
    have hvalue := (h p hp).symm.trans ((congrArg _ hkey).trans (h q hq))
    exact Prod.ext hkey (Option.some.inj hvalue)
  . intro h p hp
    obtain ⟨q, hq, hkey, hfind⟩ := find_foldl_insert l hp
    rw [hfind, h q hq p hp hkey]

theorem restored_perm_iff {f : Nat × β → β} (hkeys : (l'.map Prod.fst).Perm (l.map Prod.fst))
    (hf : ∀ p ∈ l', find (l.foldl insert []) p.1 = some (f p))
    : (l'.map fun p => (p.1, f p)).Perm l ↔ OneValue l := by
  rw [← find_insert_iff]
  constructor
  . intro hperm p hp
    obtain ⟨q, hq, rfl⟩ := List.mem_map.1 (hperm.mem_iff.2 hp)
    exact hf q hq
  . intro h
    have hinjective : Function.Injective fun p : Nat × β => (p.1, some p.2) := by
      rintro ⟨key, x⟩ ⟨key', x'⟩ heq
      simpa using heq
    rw [← List.map_perm_map_iff hinjective, List.map_map]
    have hl' : l'.map ((fun p : Nat × β => (p.1, some p.2)) ∘ fun p => (p.1, f p)) =
        (l'.map Prod.fst).map fun key => (key, find (l.foldl insert []) key) := by
      rw [List.map_map]
      exact List.map_congr_left fun p hp => by simp [hf p hp]
    have hl : l.map (fun p : Nat × β => (p.1, some p.2)) =
        (l.map Prod.fst).map fun key => (key, find (l.foldl insert []) key) := by
      rw [List.map_map]
      exact List.map_congr_left fun p hp => by simp [h p hp]
    rw [hl', hl]
    exact hkeys.map _

end

def infoList (parentId : Nat) : Items → List (Nat × InfoItem)
  | nil => []
  | item (CLCIT_INFO cc) rest => (parentId, cc) :: infoList parentId rest
  | item (CLCIT_CONTACT _ _) rest | item CLCIT_DIVIDER rest => infoList parentId rest
  | CLCIT_GROUP groupId _ items rest => infoList groupId.toNat items ++ infoList parentId rest

theorem save_eq (parentId : Nat) (t : Items) (s : Saved)
    : save parentId t s =
        { saveContact := (contacts t).foldl insert s.saveContact
          saveGroup := (groups t).foldl insert s.saveGroup
          saveInfo := (infoList parentId t).foldl insert s.saveInfo } := by
  induction t generalizing parentId s with
  | nil => rfl
  | item it rest ih => cases it <;> exact ih _ _
  | CLCIT_GROUP groupId bExpanded items rest ihItems ihRest =>
    simp only [save, ihItems, ihRest, contacts, groups, infoList, List.foldl_append, List.foldl_cons]

theorem contacts_restore (s : Saved) (t : Items)
    : contacts (restore s t) = (contacts t).map fun p => (p.1, restoreContact s p) := by
  induction t with
  | nil => rfl
  | item it rest ih => cases it <;> simp [restore, contacts, ih]
  | CLCIT_GROUP groupId bExpanded items rest ihItems ihRest =>
    rw [restore, contacts, ihItems, ihRest, contacts, List.map_append]

theorem groups_restore (s : Saved) (t : Items)
    : groups (restore s t) = (groups t).map fun p => (p.1, (find s.saveGroup p.1).getD p.2) := by
  induction t with
  | nil => rfl
  | item it rest ih => cases it <;> exact ih
  | CLCIT_GROUP groupId bExpanded items rest ihItems ihRest =>
    simp only [restore, groups, ihItems, ihRest, List.map_cons, List.map_append]

theorem level_restore (s : Saved) (t : Items) : level (restore s t) = level t := by
  induction t with
  | nil => rfl
  | item it rest ih => cases it <;> simp only [restore, level, ih, Item.kind]
  | CLCIT_GROUP groupId bExpanded items rest _ ih => rw [restore, level, ih, level]

theorem levelsBelow_restore (s : Saved) (t : Items) : levelsBelow (restore s t) = levelsBelow t := by
  induction t with
  | nil => rfl
  | item it rest ih => cases it <;> exact ih
  | CLCIT_GROUP groupId bExpanded items rest ihItems ihRest =>
    simp only [restore, levelsBelow, ihItems, ihRest, level_restore]

theorem infos_restore (s : Saved) (t : Items) : infos (restore s t) = infos t := by
  rw [infos, levels, level_restore, levelsBelow_restore, infos, levels]

def put (cc : InfoItem) (l : List Kind) : List Kind :=
  l.takeWhile (passes cc.flags) ++ .info cc :: l.dropWhile (passes cc.flags)

theorem put_cons (cc : InfoItem) (k : Kind) (l : List Kind)
    : put cc (k :: l) = if passes cc.flags k then k :: put cc l else .info cc :: k :: l := by
  unfold put
  split
  . next h => rw [List.takeWhile_cons_of_pos h, List.dropWhile_cons_of_pos h, List.cons_append]
  . next h => rw [List.takeWhile_cons_of_neg h, List.dropWhile_cons_of_neg h, List.nil_append]

theorem fnAddInfoItemToGroup_spec (cc : InfoItem) (t : Items)
    : contacts (fnAddInfoItemToGroup cc t) = contacts t ∧ groups (fnAddInfoItemToGroup cc t) = groups t ∧
      levelsBelow (fnAddInfoItemToGroup cc t) = levelsBelow t ∧
      level (fnAddInfoItemToGroup cc t) = put cc (level t) := by
  induction t with
  | nil => exact ⟨rfl, rfl, rfl, rfl⟩
  | item it rest ih =>
    obtain ⟨hcontacts, hgroups, hbelow, hlevel⟩ := ih
    rw [fnAddInfoItemToGroup, level, put_cons]
    split
    . refine ⟨?_, hgroups, hbelow, by rw [level, hlevel]⟩
      cases it <;> simp [contacts, hcontacts]
    . exact ⟨rfl, rfl, rfl, rfl⟩
  | CLCIT_GROUP groupId bExpanded items rest _ ih =>
    obtain ⟨hcontacts, hgroups, hbelow, hlevel⟩ := ih
    rw [fnAddInfoItemToGroup, level, put_cons]
    split
    . exact ⟨by rw [contacts, hcontacts, contacts], by rw [groups, hgroups, groups],
        by rw [levelsBelow, hbelow, levelsBelow], by rw [level, hlevel]⟩
    . exact ⟨rfl, rfl, rfl, rfl⟩

section
variable {β : Type} {key : Nat} {f : β → β} {l l' : List (Nat × β)}

def modifyFirst (key : Nat) (f : β → β) : List (Nat × β) → List (Nat × β)
  | [] => []
  | e :: l => if e.1 = key then (e.1, f e.2) :: l else e :: modifyFirst key f l

theorem modifyFirst_of_notMem (h : key ∉ l.map Prod.fst) : modifyFirst key f l = l := by
  induction l with
  | nil => rfl
  | cons e l ih =>
    rw [List.map_cons, List.mem_cons, not_or] at h
    rw [modifyFirst, if_neg (Ne.symm h.1), ih h.2]

theorem modifyFirst_append_of_mem (h : key ∈ l.map Prod.fst)
    : modifyFirst key f (l ++ l') = modifyFirst key f l ++ l' := by
  induction l with
  | nil => exact absurd h List.not_mem_nil
  | cons e l ih =>
    rw [List.cons_append, modifyFirst, modifyFirst]
    split
    . rfl
    . next hne => rw [ih ((List.mem_cons.1 h).resolve_left (Ne.symm hne)), List.cons_append]

theorem modifyFirst_append_of_notMem (h : key ∉ l.map Prod.fst)
    : modifyFirst key f (l ++ l') = l ++ modifyFirst key f l' := by
  induction l with
  | nil => rfl
  | cons e l ih =>
    rw [List.map_cons, List.mem_cons, not_or] at h
    rw [List.cons_append, modifyFirst, if_neg (Ne.symm h.1), ih h.2, List.cons_append]

theorem modifyFirst_eq_map (h : (l.map Prod.fst).count key = 1)
    : modifyFirst key f l = l.map fun e => if e.1 = key then (e.1, f e.2) else e := by
  induction l with
  | nil => cases h
  | cons e l ih =>
    rw [modifyFirst, List.map_cons]
    split
    . next hkey =>
      rw [List.map_cons, hkey, List.count_cons_self] at h
      have hnot : key ∉ l.map Prod.fst := List.count_eq_zero.1 (by omega)
      conv_lhs => rw [← List.map_id l]
      refine congrArg _ (List.map_congr_left fun e' he' => (if_neg fun hkey' => hnot ?_).symm)
      exact List.mem_map.2 ⟨e', he', hkey'⟩
    . next hkey =>
      rw [List.map_cons, List.count_cons_of_ne hkey] at h
      rw [ih h]

end

theorem addToGroup_spec (key : Nat) (cc : InfoItem) (t : Items)
    : (addToGroup key cc t = none ∧ key ∉ (levelsBelow t).map Prod.fst) ∨
      (∃ t', addToGroup key cc t = some t' ∧ key ∈ (levelsBelow t).map Prod.fst ∧
        contacts t' = contacts t ∧ groups t' = groups t ∧ level t' = level t ∧
        levelsBelow t' = modifyFirst key (put cc) (levelsBelow t)) := by
  induction t with
  | nil => exact Or.inl ⟨rfl, List.not_mem_nil⟩
  | item it rest ih =>
    rcases ih with ⟨hnone, hnot⟩ | ⟨t', hsome, hmem, hcontacts, hgroups, hlevel, hbelow⟩
    . exact Or.inl ⟨by rw [addToGroup, hnone]; rfl, hnot⟩
    . refine Or.inr ⟨item it t', by rw [addToGroup, hsome]; rfl, hmem, ?_, hgroups, by rw [level, hlevel, level], hbelow⟩
      cases it <;> simp [contacts, hcontacts]
  | CLCIT_GROUP groupId bExpanded items rest ihItems ihRest =>
    by_cases hid : groupId.toNat = key
    . obtain ⟨hcontacts, hgroups, hbelow, hlevel⟩ := fnAddInfoItemToGroup_spec cc items
      refine Or.inr ⟨CLCIT_GROUP groupId bExpanded (fnAddInfoItemToGroup cc items) rest, by rw [addToGroup, if_pos hid],
        by simp [levelsBelow, hid], ?_, ?_, rfl, ?_⟩
      . rw [contacts, hcontacts, contacts]
      . rw [groups, hgroups, groups]
      . rw [levelsBelow, hbelow, hlevel, levelsBelow, modifyFirst, if_pos hid]
    . rcases ihItems with ⟨hnone, hnot⟩ | ⟨items', hsome, hmem, hcontacts, hgroups, hlevel, hbelow⟩
      . rcases ihRest with ⟨hnone', hnot'⟩ | ⟨rest', hsome', hmem', hcontacts', hgroups', hlevel', hbelow'⟩
        . refine Or.inl ⟨by rw [addToGroup, if_neg hid, hnone, hnone']; rfl, ?_⟩
          rw [levelsBelow, List.map_cons, List.map_append, List.mem_cons, List.mem_append]
          rintro (h | h | h)
          . exact hid h.symm
          . exact hnot h
          . exact hnot' h
        . refine Or.inr ⟨CLCIT_GROUP groupId bExpanded items rest', by rw [addToGroup, if_neg hid, hnone, hsome']; rfl,
            ?_, ?_, ?_, ?_, ?_⟩
          . rw [levelsBelow, List.map_cons, List.map_append, List.mem_cons, List.mem_append]
            exact Or.inr (Or.inr hmem')
          . rw [contacts, hcontacts', contacts]
          . rw [groups, hgroups', groups]
          . rw [level, hlevel', level]
          . rw [levelsBelow, hbelow', levelsBelow, modifyFirst, if_neg hid, modifyFirst_append_of_notMem hnot]
      . refine Or.inr ⟨CLCIT_GROUP groupId bExpanded items' rest, by rw [addToGroup, if_neg hid, hsome], ?_, ?_, ?_, rfl, ?_⟩
        . rw [levelsBelow, List.map_cons, List.map_append, List.mem_cons, List.mem_append]
          exact Or.inr (Or.inl hmem)
        . rw [contacts, hcontacts, contacts]
        . rw [groups, hgroups, groups]
        . rw [levelsBelow, hbelow, hlevel, levelsBelow, modifyFirst, if_neg hid, modifyFirst_append_of_mem hmem]

theorem addInfo_spec (t : Items) (it : Nat × InfoItem)
    : contacts (addInfo t it) = contacts t ∧ groups (addInfo t it) = groups t ∧
      levels (addInfo t it) = modifyFirst it.1 (put it.2) (levels t) := by
  unfold addInfo levels
  split
  . next hkey =>
    obtain ⟨hcontacts, hgroups, hbelow, hlevel⟩ := fnAddInfoItemToGroup_spec it.2 t
    rw [modifyFirst, if_pos hkey.symm]
    exact ⟨hcontacts, hgroups, by rw [hlevel, hbelow]⟩
  . next hkey =>
    rw [modifyFirst, if_neg (Ne.symm hkey)]
    rcases addToGroup_spec it.1 it.2 t with ⟨hnone, hnot⟩ | ⟨t', hsome, -, hcontacts, hgroups, hlevel, hbelow⟩
    . rw [hnone, Option.getD_none, modifyFirst_of_notMem hnot]
      exact ⟨rfl, rfl, rfl⟩
    . rw [hsome, Option.getD_some, hlevel, hbelow]
      exact ⟨hcontacts, hgroups, rfl⟩

theorem foldl_addInfo_keeps (l : List (Nat × InfoItem)) (t : Items)
    : contacts (l.foldl addInfo t) = contacts t ∧ groups (l.foldl addInfo t) = groups t := by
  induction l generalizing t with
  | nil => exact ⟨rfl, rfl⟩
  | cons it l ih =>
    obtain ⟨hcontacts, hgroups, -⟩ := addInfo_spec t it
    obtain ⟨ihContacts, ihGroups⟩ := ih (addInfo t it)
    exact ⟨ihContacts.trans hcontacts, ihGroups.trans hgroups⟩

def under (key : Nat) (l : List (Nat × InfoItem)) : List InfoItem := (l.filter (·.1 = key)).map Prod.snd

theorem under_cons (key : Nat) (it : Nat × InfoItem) (l : List (Nat × InfoItem))
    : under key (it :: l) = if it.1 = key then it.2 :: under key l else under key l := by
  unfold under
  rw [List.filter_cons]
  split
  . next h => rw [if_pos (of_decide_eq_true h), List.map_cons]
  . next h => rw [if_neg fun hkey => h (decide_eq_true hkey)]

theorem under_append (key : Nat) (l l' : List (Nat × InfoItem)) : under key (l ++ l') = under key l ++ under key l' := by
  rw [under, List.filter_append, List.map_append]
  rfl

theorem under_perm {l l' : List (Nat × InfoItem)} (h : l.Perm l') (key : Nat) : (under key l).Perm (under key l') :=
  (h.filter _).map _

theorem keys_levels (t : Items) : (levels t).map Prod.fst = (infos t).map Prod.fst := by
  rw [infos, List.map_map]
  rfl

theorem put_between {cc : InfoItem} {before behind : List Kind} (hbefore : ∀ k ∈ before, passes cc.flags k)
    (hbehind : ∀ k ∈ behind.head?, passes cc.flags k = false) : put cc (before ++ behind) = before ++ .info cc :: behind := by
  induction before with
  | nil =>
    cases behind with
    | nil => rfl
    | cons k behind =>
      rw [List.nil_append, put_cons, hbehind k rfl]
      rfl
  | cons k before ih =>
    rw [List.cons_append, put_cons, if_pos (hbefore k List.mem_cons_self), ih fun k hk => hbefore k (List.mem_cons_of_mem _ hk)]
    rfl

theorem foldl_put {pass : Kind → Bool} {behind : List Kind} (hbehind : ∀ k ∈ behind.head?, pass k = false)
    {items : List InfoItem} (hitems : ∀ x ∈ items, passes x.flags = pass) {before : List Kind} (hbefore : ∀ k ∈ before, pass k)
    : items.foldl (fun l x => put x l) (before ++ behind) = before ++ items.map .info ++ behind := by
  induction items generalizing before with
  | nil => rw [List.map_nil, List.append_nil]; rfl
  | cons x items ih =>
    obtain rfl := hitems x List.mem_cons_self
    have hput := put_between hbefore hbehind
    have hpass : ∀ k ∈ before ++ [.info x], passes x.flags k := by
      intro k hk
      rcases List.mem_append.1 hk with hk | hk
      . exact hbefore k hk
      . rw [List.mem_singleton.1 hk]
        rfl
    have := ih (fun y hy => hitems y (List.mem_cons_of_mem _ hy)) hpass
    rw [List.foldl_cons, hput, List.map_cons]
    simpa using this

theorem exists_split (pass : Kind → Bool) (l : List Kind)
    : ∃ before behind, l = before ++ behind ∧ (∀ k ∈ before, pass k) ∧ (∀ k ∈ behind.head?, pass k = false) := by
  induction l with
  | nil => exact ⟨[], [], rfl, by simp, by simp⟩
  | cons k l ih =>
    by_cases hk : pass k
    . obtain ⟨before, behind, rfl, hbefore, hbehind⟩ := ih
      exact ⟨k :: before, behind, rfl, by simpa [hk] using hbefore, hbehind⟩
    . exact ⟨[], k :: l, rfl, by simp, by simpa using hk⟩

theorem infosOf_append (l l' : List Kind) : infosOf (l ++ l') = infosOf l ++ infosOf l' := List.filterMap_append

theorem infosOf_map (items : List InfoItem) : infosOf (items.map .info) = items := by
  rw [infosOf, List.filterMap_map]
  exact List.filterMap_some

theorem infosOf_foldl_put {items : List InfoItem} (hitems : ∀ x ∈ items, ∀ y ∈ items, passes x.flags = passes y.flags)
    {l : List Kind} (hl : infosOf l = []) : infosOf (items.foldl (fun l x => put x l) l) = items := by
  cases items with
  | nil => exact hl
  | cons x items =>
    obtain ⟨before, behind, rfl, hbefore, hbehind⟩ := exists_split (passes x.flags) l
    rw [infosOf_append, List.append_eq_nil_iff] at hl
    rw [foldl_put hbehind (fun y hy => hitems y hy x List.mem_cons_self) hbefore, infosOf_append, infosOf_append,
      infosOf_map, hl.1, hl.2, List.nil_append, List.append_nil]

theorem levels_foldl_addInfo {l : List (Nat × InfoItem)} {t : Items}
    (hcount : ∀ it ∈ l, ((levels t).map Prod.fst).count it.1 = 1)
    : levels (l.foldl addInfo t) = (levels t).map fun e => (e.1, (under e.1 l).foldl (fun l x => put x l) e.2) := by
  induction l generalizing t with
  | nil => exact (List.map_id _).symm
  | cons it l ih =>
    have hadd : levels (addInfo t it) = (levels t).map fun e => if e.1 = it.1 then (e.1, put it.2 e.2) else e := by
      rw [(addInfo_spec t it).2.2, modifyFirst_eq_map (hcount it List.mem_cons_self)]
    have hkeys : (levels (addInfo t it)).map Prod.fst = (levels t).map Prod.fst := by
      rw [hadd, List.map_map]
      refine List.map_congr_left fun e _ => ?_
      rw [Function.comp_apply]
      split <;> rfl
    rw [List.foldl_cons, ih fun it' hit' => hkeys ▸ hcount it' (List.mem_cons_of_mem _ hit'), hadd, List.map_map]
    refine List.map_congr_left fun e _ => ?_
    rw [Function.comp_apply, under_cons]
    by_cases hkey : e.1 = it.1
    . rw [if_pos hkey, if_pos hkey.symm, List.foldl_cons]
    . rw [if_neg hkey, if_neg (Ne.symm hkey)]

theorem infos_foldl_addInfo {l : List (Nat × InfoItem)} {t : Items} (hempty : ∀ e ∈ infos t, e.2 = [])
    (hcount : ∀ it ∈ l, ((infos t).map Prod.fst).count it.1 = 1)
    (hplace : ∀ key, ∀ x ∈ under key l, ∀ y ∈ under key l, passes x.flags = passes y.flags)
    : infos (l.foldl addInfo t) = ((infos t).map Prod.fst).map fun key => (key, under key l) := by
  rw [← keys_levels] at hcount ⊢
  rw [infos, levels_foldl_addInfo hcount, List.map_map, List.map_map]
  refine List.map_congr_left fun e he => ?_
  have hnil : infosOf e.2 = [] := by
    exact hempty (e.1, infosOf e.2) (List.mem_map.2 ⟨e, he, rfl⟩)
  exact congrArg (Prod.mk e.1) (infosOf_foldl_put (hplace e.1) hnil)

def flat (l : List (Nat × List InfoItem)) : List (Nat × InfoItem) := l.flatMap fun e => e.2.map (e.1, ·)

def infosBelow (t : Items) : List (Nat × List InfoItem) := (levelsBelow t).map fun e => (e.1, infosOf e.2)

theorem infosBelow_group (groupId : UInt16) (bExpanded : Bool) (items rest : Items)
    : infosBelow (CLCIT_GROUP groupId bExpanded items rest) =
        (groupId.toNat, infosOf (level items)) :: (infosBelow items ++ infosBelow rest) := by
  unfold infosBelow
  rw [levelsBelow, List.map_cons, List.map_append]

theorem infoList_perm (parentId : Nat) (t : Items)
    : (infoList parentId t).Perm (flat ((parentId, infosOf (level t)) :: infosBelow t)) := by
  induction t generalizing parentId with
  | nil => exact List.Perm.refl _
  | item it rest ih =>
    cases it with
    | CLCIT_INFO cc => exact (ih parentId).cons _
    | CLCIT_CONTACT | CLCIT_DIVIDER => exact ih parentId
  | CLCIT_GROUP groupId bExpanded items rest ihItems ihRest =>
    refine ((ihItems groupId.toNat).append (ihRest parentId)).trans ?_
    have hlevel : infosOf (level (CLCIT_GROUP groupId bExpanded items rest)) = infosOf (level rest) := rfl
    simp only [flat, hlevel, infosBelow_group, List.flatMap_cons, List.flatMap_append]
    rw [← List.append_assoc, ← List.append_assoc, ← List.append_assoc]
    refine List.Perm.append_right _ ?_
    rw [List.append_assoc (List.map _ (infosOf (level rest)))]
    exact List.perm_append_comm

section
variable {l : List (Nat × List InfoItem)}

theorem mem_flat {it : Nat × InfoItem} : it ∈ flat l ↔ ∃ e ∈ l, e.1 = it.1 ∧ it.2 ∈ e.2 := by
  unfold flat
  rw [List.mem_flatMap]
  constructor
  . rintro ⟨e, he, hit⟩
    obtain ⟨cc, hcc, rfl⟩ := List.mem_map.1 hit
    exact ⟨e, he, rfl, hcc⟩
  . rintro ⟨e, he, hkey, hcc⟩
    exact ⟨e, he, List.mem_map.2 ⟨it.2, hcc, Prod.ext hkey rfl⟩⟩

theorem under_group (key : Nat) (e : Nat × List InfoItem)
    : under key (e.2.map (e.1, ·)) = if e.1 = key then e.2 else [] := by
  split
  . next h => simp [under, List.filter_map, Function.comp_def, h]
  . next h => simp [under, List.filter_map, Function.comp_def, h]

theorem under_eq_nil {key : Nat} (h : ∀ e ∈ l, e.1 = key → e.2 = []) : under key (flat l) = [] := by
  rw [under, List.map_eq_nil_iff, List.filter_eq_nil_iff]
  intro it hit hkey
  obtain ⟨e, he, hfst, hcc⟩ := mem_flat.1 hit
  rw [h e he (hfst.trans (of_decide_eq_true hkey))] at hcc
  exact List.not_mem_nil hcc

theorem under_flat_cons (key : Nat) (d : Nat × List InfoItem) (l : List (Nat × List InfoItem))
    : under key (flat (d :: l)) = (if d.1 = key then d.2 else []) ++ under key (flat l) := by
  rw [← under_group, ← under_append]
  rfl

theorem eq_of_count {e e' : Nat × List InfoItem} (he : e ∈ l) (he' : e' ∈ l) (hkey : e'.1 = e.1)
    (hcount : (l.map Prod.fst).count e.1 = 1) : e' = e := by
  obtain ⟨before, behind, rfl⟩ := List.append_of_mem he
  rw [List.map_append, List.map_cons, List.count_append, List.count_cons_self] at hcount
  have hbefore : e.1 ∉ before.map Prod.fst := List.count_eq_zero.1 (by omega)
  have hbehind : e.1 ∉ behind.map Prod.fst := List.count_eq_zero.1 (by omega)
  rcases List.mem_append.1 he' with he' | he'
  . exact absurd (List.mem_map.2 ⟨e', he', hkey⟩) hbefore
  . rcases List.mem_cons.1 he' with rfl | he'
    . rfl
    . exact absurd (List.mem_map.2 ⟨e', he', hkey⟩) hbehind

theorem under_flat {e : Nat × List InfoItem} (he : e ∈ l) (hcount : (l.map Prod.fst).count e.1 = 1)
    : under e.1 (flat l) = e.2 := by
  induction l with
  | nil => exact absurd he List.not_mem_nil
  | cons d l ih =>
    rw [under_flat_cons]
    rw [List.map_cons] at hcount
    by_cases hkey : d.1 = e.1
    . rw [hkey, List.count_cons_self] at hcount
      have hnot : e.1 ∉ l.map Prod.fst := List.count_eq_zero.1 (by omega)
      rw [if_pos hkey, under_eq_nil fun e' he' hkey' => absurd (List.mem_map.2 ⟨e', he', hkey'⟩) hnot, List.append_nil]
      rcases List.mem_cons.1 he with rfl | he
      . rfl
      . exact absurd (List.mem_map.2 ⟨e, he, rfl⟩) hnot
    . rw [List.count_cons_of_ne hkey] at hcount
      rw [if_neg hkey, List.nil_append]
      exact ih ((List.mem_cons.1 he).resolve_left fun heq => hkey (heq ▸ rfl)) hcount

theorem OnePlace.under_eq (h : OnePlace l) {e : Nat × List InfoItem} (he : e ∈ l) : under e.1 (flat l) = e.2 := by
  by_cases hnil : e.2 = []
  . rw [hnil]
    refine under_eq_nil fun e' he' hkey => ?_
    by_contra hne
    have heq := eq_of_count he' he hkey.symm (h e' he' hne).2.2
    exact hne (heq ▸ hnil)
  . exact under_flat he (h e he hnil).2.2

theorem Alone.onePlace (h : Alone l) : OnePlace l := by
  intro e he hnil
  obtain ⟨hlength, hcount⟩ := h e he hnil
  obtain ⟨cc, hcc⟩ := List.length_eq_one_iff.1 hlength
  rw [hcc]
  exact ⟨List.nodup_singleton cc, by simp, hcount⟩

end

theorem flat_append (l l' : List (Nat × List InfoItem)) : flat (l ++ l') = flat l ++ flat l' := List.flatMap_append

theorem under_infoList (key : Nat) (t : Items) (parentId : Nat)
    (hcount : (parentId :: (infosBelow t).map Prod.fst).count key ≤ 1)
    : under key (infoList parentId t) = under key (flat ((parentId, infosOf (level t)) :: infosBelow t)) := by
  induction t generalizing parentId with
  | nil => rfl
  | item it rest ih =>
    cases it with
    | CLCIT_INFO cc =>
      have hlevel : infosOf (level (item (CLCIT_INFO cc) rest)) = cc :: infosOf (level rest) := rfl
      rw [infoList, under_cons, ih parentId hcount, under_flat_cons, under_flat_cons, hlevel]
      split <;> rfl
    | CLCIT_CONTACT | CLCIT_DIVIDER => exact ih parentId hcount
  | CLCIT_GROUP groupId bExpanded items rest ihItems ihRest =>
    have hlevel : infosOf (level (CLCIT_GROUP groupId bExpanded items rest)) = infosOf (level rest) := rfl
    rw [infosBelow_group, List.map_cons, List.map_append] at hcount
    simp only [List.count_cons, List.count_append] at hcount
    rw [infoList, under_append, ihItems groupId.toNat (by rw [List.count_cons]; omega),
      ihRest parentId (by rw [List.count_cons]; omega)]
    simp only [under_flat_cons, hlevel, infosBelow_group, flat_append, under_append]
    by_cases hkey : parentId = key
    . -- The group and those in it have other numbers.
      have hid : groupId.toNat ≠ key := by
        rintro rfl
        simp [hkey] at hcount
      have hitems : key ∉ (infosBelow items).map Prod.fst := by
        rw [← List.count_eq_zero]
        simp only [hkey, beq_self_eq_true, if_true] at hcount
        omega
      rw [if_neg hid, under_eq_nil fun e he hfst => absurd (List.mem_map.2 ⟨e, he, hfst⟩) hitems]
      simp
    . rw [if_neg hkey]
      simp

theorem getLast?_under_insert {xs : List (Nat × InfoItem)} (hsorted : Compare.Sorted (KeySort Prod.fst) xs)
    (p : Nat × InfoItem) (key : Nat)
    : (under key (insert xs p)).getLast? = ((under key xs).getLast?).or (if p.1 = key then some p.2 else none) := by
  have hordered := (SortedList.KeySort_preorder Prod.fst).ordered hsorted p
  have hxs (i : Nat) : under key xs = under key (xs.take i) ++ under key (xs.drop i) := by
    rw [← under_append, List.take_append_drop]
  unfold insert ListItems.insert
  rw [Compare.insertIdx_eq_append (ListItems.insertPlace_le _ xs), under_append, under_cons,
    hxs (ListItems.insertPlace (KeySort Prod.fst · p) xs)]
  by_cases hkey : p.1 = key
  . rw [if_pos hkey, if_pos hkey]
    rcases ListItems.search_spec (KeySort Prod.fst · p) xs with ⟨i, -, -, hplace, hfound⟩ | ⟨i, -, hindex, hplace, -⟩
    . -- In front of an item with this key
      have hlt := hfound.lt
      have hget : KeySort Prod.fst xs[i] p = 0 := by
        simpa [BinarySearch.Found, List.getElem?_eq_getElem hlt] using hfound
      have hequal : xs[i].1 = key := by
        unfold KeySort at hget
        omega
      rw [hplace, List.drop_eq_getElem_cons hlt, under_cons, if_pos hequal]
      simp [List.getLast?_append, List.getLast?_cons]
    . have hnot : ∀ x ∈ xs, x.1 ≠ key := by
        intro x hx hx'
        refine (ListItems.getIndex_eq_none_iff hordered).1 hindex x hx ?_
        unfold KeySort
        omega
      have hnil : under key xs = [] := by
        rw [under, List.map_eq_nil_iff, List.filter_eq_nil_iff]
        exact fun x hx h => hnot x hx (of_decide_eq_true h)
      rw [hxs (ListItems.insertPlace (KeySort Prod.fst · p) xs), List.append_eq_nil_iff] at hnil
      rw [hnil.1, hnil.2]
      rfl
  . rw [if_neg hkey, if_neg hkey, Option.or_none]

theorem getLast?_under_foldl_insert {xs : List (Nat × InfoItem)} (hsorted : Compare.Sorted (KeySort Prod.fst) xs)
    (l : List (Nat × InfoItem)) (key : Nat)
    : (under key (l.foldl insert xs)).getLast? = ((under key xs).getLast?).or (under key l).head? := by
  induction l generalizing xs with
  | nil => simp [under]
  | cons p l ih =>
    have hinsert : Compare.Sorted (KeySort Prod.fst) (insert xs p) :=
      ListItems.sorted_insert (SortedList.KeySort_preorder Prod.fst) hsorted p
    rw [List.foldl_cons, ih hinsert, getLast?_under_insert hsorted, under_cons, Option.or_assoc]
    split <;> simp

section
variable {list rebuilt : Items}

theorem keys_infosBelow (t : Items) : (infosBelow t).map Prod.fst = (groups t).map Prod.fst := by
  induction t with
  | nil => rfl
  | item it rest ih => exact ih
  | CLCIT_GROUP groupId bExpanded items rest ihItems ihRest =>
    simp only [infosBelow_group, groups, List.map_cons, List.map_append, ihItems, ihRest]

theorem keys_infos (t : Items) : (infos t).map Prod.fst = noParent :: (groups t).map Prod.fst :=
  congrArg _ (keys_infosBelow t)

theorem Rebuilt.keys (h : Rebuilt list rebuilt)
    : ((infos rebuilt).map Prod.fst).Perm ((infos list).map Prod.fst) := by
  rw [keys_infos, keys_infos]
  exact h.groups.cons _

theorem saved_infos_perm (list : Items)
    : ((infoList noParent list).foldl insert []).Perm (flat (infos list)) := by
  have h := foldl_insert_perm [] (infoList noParent list)
  rw [List.append_nil] at h
  exact h.trans (infoList_perm noParent list)

theorem rebuild_contacts_iff (h : Rebuilt list rebuilt)
    : (contacts (Clist_SaveStateAndRebuildList rebuilt list)).Perm (contacts list) ↔ OneValue (contacts list) := by
  rw [Clist_SaveStateAndRebuildList, (foldl_addInfo_keeps _ _).1, contacts_restore, save_eq]
  refine restored_perm_iff h.contacts fun p hp => ?_
  obtain ⟨q, hq, hkey⟩ := List.mem_map.1 (h.contacts.mem_iff.1 (List.mem_map.2 ⟨p, hp, rfl⟩))
  obtain ⟨r, -, -, hfind⟩ := find_foldl_insert (contacts list) hq
  rw [hkey] at hfind
  simp [restoreContact, hfind, h.unchecked p hp]

theorem rebuild_groups_iff (h : Rebuilt list rebuilt)
    : (groups (Clist_SaveStateAndRebuildList rebuilt list)).Perm (groups list) ↔ OneValue (groups list) := by
  rw [Clist_SaveStateAndRebuildList, (foldl_addInfo_keeps _ _).2, groups_restore, save_eq]
  refine restored_perm_iff h.groups fun p hp => ?_
  obtain ⟨q, hq, hkey⟩ := List.mem_map.1 (h.groups.mem_iff.1 (List.mem_map.2 ⟨p, hp, rfl⟩))
  obtain ⟨r, -, -, hfind⟩ := find_foldl_insert (groups list) hq
  rw [hkey] at hfind
  simp [hfind]

theorem under_saved_perm (key : Nat) (list : Items)
    : (under key ((infoList noParent list).foldl insert [])).Perm (under key (flat (infos list))) :=
  under_perm (saved_infos_perm list) key

theorem rebuild_infos_perm (h : Rebuilt list rebuilt) (hplace : OnePlace (infos list))
    : (infos (Clist_SaveStateAndRebuildList rebuilt list)).Perm
        (((infos list).map Prod.fst).map fun key => (key, under key ((infoList noParent list).foldl insert []))) := by
  have hsaved := saved_infos_perm list
  rw [Clist_SaveStateAndRebuildList, save_eq, infos_foldl_addInfo, infos_restore]
  . exact h.keys.map _
  . rw [infos_restore]
    exact h.noInfos
  . intro it hit
    obtain ⟨e, he, hkey, hcc⟩ := mem_flat.1 (hsaved.mem_iff.1 hit)
    rw [infos_restore, h.keys.count_eq, ← hkey]
    exact (hplace e he (List.ne_nil_of_mem hcc)).2.2
  . intro key x hx y hy
    have hmem : ∀ z ∈ under key ((infoList noParent list).foldl insert []), ∃ e ∈ infos list, e.1 = key ∧ z ∈ e.2 := by
      intro z hz
      obtain ⟨it, hit, rfl⟩ := List.mem_map.1 hz
      obtain ⟨hit, hkey⟩ := List.mem_filter.1 hit
      obtain ⟨e, he, hfst, hcc⟩ := mem_flat.1 (hsaved.mem_iff.1 hit)
      exact ⟨e, he, hfst.trans (of_decide_eq_true hkey), hcc⟩
    obtain ⟨e, he, hkey, hx⟩ := hmem x hx
    obtain ⟨e', he', hkey', hy⟩ := hmem y hy
    obtain ⟨-, hpasses, hcount⟩ := hplace e he (List.ne_nil_of_mem hx)
    obtain rfl := eq_of_count he he' (hkey'.trans hkey.symm) hcount
    exact hpasses x hx y hy

theorem rebuild_infos_of_alone (h : Rebuilt list rebuilt) (halone : Alone (infos list))
    : (infos (Clist_SaveStateAndRebuildList rebuilt list)).Perm (infos list) := by
  have hplace := halone.onePlace
  have hsame : ((infos list).map Prod.fst).map (fun key => (key, under key ((infoList noParent list).foldl insert []))) =
      infos list := by
    rw [List.map_map]
    conv_rhs => rw [← List.map_id (infos list)]
    refine List.map_congr_left fun e he => congrArg (Prod.mk e.1) ?_
    have hperm := under_saved_perm e.1 list
    rw [hplace.under_eq he] at hperm
    by_cases hnil : e.2 = []
    . rw [hnil] at hperm ⊢
      exact hperm.eq_nil
    . obtain ⟨cc, hcc⟩ := List.length_eq_one_iff.1 (halone e he hnil).1
      rw [hcc] at hperm ⊢
      exact List.perm_singleton.1 hperm
  exact hsame ▸ rebuild_infos_perm h hplace

theorem alone_of_rebuild (h : Rebuilt list rebuilt) (hplace : OnePlace (infos list))
    (hkept : (infos (Clist_SaveStateAndRebuildList rebuilt list)).Perm (infos list)) : Alone (infos list) := by
  intro e he hnil
  obtain ⟨hnodup, -, hcount⟩ := hplace e he hnil
  refine ⟨?_, hcount⟩
  have hmem : (e.1, under e.1 ((infoList noParent list).foldl insert [])) ∈ infos list := by
    refine ((rebuild_infos_perm h hplace).symm.trans hkept).mem_iff.1 ?_
    exact List.mem_map.2 ⟨e.1, List.mem_map.2 ⟨e, he, rfl⟩, rfl⟩
  have hsaved : under e.1 ((infoList noParent list).foldl insert []) = e.2 :=
    congrArg Prod.snd (eq_of_count he hmem rfl hcount)
  have hlast := getLast?_under_foldl_insert List.Pairwise.nil (infoList noParent list) e.1
  have hlist : under e.1 (infoList noParent list) = under e.1 (flat (infos list)) :=
    under_infoList e.1 list noParent hcount.le
  rw [hsaved, hlist, under_flat he hcount] at hlast
  have hhead : e.2.getLast? = e.2.head? := hlast
  cases hitems : e.2 with
  | nil => exact absurd hitems hnil
  | cons x items =>
    rw [hitems] at hhead hnodup
    cases items with
    | nil => rfl
    | cons y items =>
      rw [List.head?_cons, List.getLast?_cons_cons] at hhead
      exact absurd (List.mem_of_getLast? hhead) (List.nodup_cons.1 hnodup).1

end

theorem rebuild_keeps (list rebuilt : Items) (h : Rebuilt list rebuilt)
    : (Kept list (Clist_SaveStateAndRebuildList rebuilt list) → OneValue (contacts list) ∧ OneValue (groups list)) ∧
      (OnePlace (infos list) → Kept list (Clist_SaveStateAndRebuildList rebuilt list) → Alone (infos list)) ∧
      (OneValue (contacts list) ∧ OneValue (groups list) ∧ Alone (infos list) →
        Kept list (Clist_SaveStateAndRebuildList rebuilt list)) := by
  refine ⟨?_, ?_, ?_⟩
  . intro hkept
    exact ⟨(rebuild_contacts_iff h).1 hkept.contacts, (rebuild_groups_iff h).1 hkept.groups⟩
  . intro hplace hkept
    exact alone_of_rebuild h hplace hkept.infos
  . rintro ⟨hcontacts, hgroups, halone⟩
    exact ⟨(rebuild_contacts_iff h).2 hcontacts, (rebuild_groups_iff h).2 hgroups, rebuild_infos_of_alone h halone⟩

theorem rebuild_keeps_groupWithInfo
    : Kept
        (item (CLCIT_INFO ⟨0, 1, []⟩) (CLCIT_GROUP 1 false (item (CLCIT_INFO ⟨0, 2, []⟩) nil)
          (item (CLCIT_CONTACT 5 ⟨[7], true⟩) nil)))
        (Clist_SaveStateAndRebuildList (CLCIT_GROUP 1 true nil (item (CLCIT_CONTACT 5 ⟨[], false⟩) nil))
          (item (CLCIT_INFO ⟨0, 1, []⟩) (CLCIT_GROUP 1 false (item (CLCIT_INFO ⟨0, 2, []⟩) nil)
            (item (CLCIT_CONTACT 5 ⟨[7], true⟩) nil)))) :=
  (rebuild_keeps _ _ ⟨by decide, by decide, by decide, by decide⟩).2.2 ⟨by simp [OneValue, contacts],
    by simp [OneValue, groups], by simp [Alone, infos, infosOf, levels, level, levelsBelow, Item.kind, noParent]⟩

-- Two info items that are to be above everything else: the second comes back first.
theorem not_kept_twoInfos : ¬∀ list rebuilt, Rebuilt list rebuilt → Kept list (Clist_SaveStateAndRebuildList rebuilt list) := by
  intro h
  have hkept := h (item (CLCIT_INFO ⟨0, 1, []⟩) (item (CLCIT_INFO ⟨0, 2, []⟩) nil)) nil
    ⟨by decide, by decide, by decide, by decide⟩
  exact absurd hkept.infos (by decide)

end ClcRebuild
