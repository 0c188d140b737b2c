import MirandaNG.Clist.GroupRename

/-!
This module proves when a rename takes the whole subtree along: the groups that lie below the group, and
the contacts in them.
-/

namespace Clist

open WStr (backslash)

variable {oldName szName name : WStr}

def movedPath (oldName szName name : WStr) : WStr :=
  if isParentOf oldName name then newPath oldName szName name else name

theorem isParentOf_iff
    : isParentOf oldName name ↔
        ∃ rest, name.chars = oldName.chars ++ rest ∧ (rest = [] ∨ rest.head? = some backslash) := by
  unfold isParentOf
  rw [Bool.and_eq_true, Bool.or_eq_true, decide_eq_true_iff, decide_eq_true_iff, decide_eq_true_iff]
  constructor
  . rintro ⟨htake, hnext⟩
    refine ⟨name.chars.drop oldName.wcslen, ?_, ?_⟩
    . rw [← htake, List.take_append_drop]
    . rw [List.head?_drop]
      refine hnext.imp (fun hnone => ?_) id
      rw [List.drop_eq_nil_iff]
      exact List.getElem?_eq_none_iff.1 hnone
  . rintro ⟨rest, hchars, hrest⟩
    unfold WStr.wcslen
    rw [hchars, List.take_left, List.getElem?_append_right (Nat.le_refl _), Nat.sub_self, ← List.head?_eq_getElem?]
    refine ⟨rfl, hrest.imp (fun hnil => ?_) id⟩
    rw [hnil]
    rfl

theorem drop_child (chars last : List UInt16) : (chars ++ backslash :: last).drop (chars.length + 1) = last := by
  rw [List.drop_append, List.drop_of_length_le (by omega), Nat.add_sub_cancel_left]
  rfl

theorem isChildOf_iff : isChildOf oldName name ↔ name.parent = some oldName := by
  rw [parent_eq_some_iff]
  unfold isChildOf WStr.wcslen
  rw [Bool.and_eq_true, Bool.and_eq_true, decide_eq_true_iff, decide_eq_true_iff, Bool.not_eq_true',
    ← Bool.not_eq_true, List.contains_iff_mem]
  constructor
  . rintro ⟨⟨htake, hnext⟩, hlast⟩
    refine ⟨name.chars.drop (oldName.chars.length + 1), ?_, hlast⟩
    obtain ⟨hlt, hget⟩ := List.getElem?_eq_some_iff.1 hnext
    have hsplit := List.take_append_drop oldName.chars.length name.chars
    rw [htake, List.drop_eq_getElem_cons hlt, hget] at hsplit
    exact hsplit.symm
  . rintro ⟨last, hchars, hlast⟩
    rw [hchars, List.take_left, List.getElem?_append_right (Nat.le_refl _), Nat.sub_self, drop_child]
    exact ⟨⟨rfl, rfl⟩, hlast⟩

theorem joinPath_eq {szName' : WStr} (hstarts : oldName.chars <+: name.chars) {child : WStr} (hchild : isChildOf name child)
    (hfits : (newPath oldName szName child).wcslen ≤ 255) (hname : szName' = newPath oldName szName name)
    : joinPath 255 szName' (child.skip (name.wcslen + 1)) = newPath oldName szName child := by
  obtain ⟨last, hchars, -⟩ := parent_eq_some_iff.1 (isChildOf_iff.1 hchild)
  have hjoined : szName' ++ .lit "\\" ++ child.skip (name.wcslen + 1) = newPath oldName szName child := by
    apply WStr.ext_chars
    have happend : ∀ s t : WStr, (s ++ t).chars = s.chars ++ t.chars := fun _ _ => rfl
    have hskip : (child.skip (name.wcslen + 1)).chars = last := by
      have hdrop : (child.skip (name.wcslen + 1)).chars = child.chars.drop (name.chars.length + 1) := rfl
      rw [hdrop, hchars, drop_child]
    have hlit : (WStr.lit "\\").chars = [backslash] := by decide
    rw [happend, happend, hskip, hlit, hname, newPath_chars, newPath_chars, hchars]
    unfold WStr.wcslen
    rw [List.drop_append_of_le_length hstarts.length_le, List.append_assoc, List.append_assoc]
    rfl
  unfold joinPath
  rw [hjoined]
  exact WStr.truncate_eq_self hfits

namespace Groups

variable {st s : Groups} {p q r : Nat} {R : Set Nat}

theorem InSubtree.isParentOf (h : st.InSubtree p q) : isParentOf (st.mem p).groupName (st.mem q).groupName := by
  induction h with
  | self => exact isParentOf_iff.2 ⟨[], (List.append_nil _).symm, .inl rfl⟩
  | child _ _ hchild ih =>
    obtain ⟨rest, hchars, hrest⟩ := isParentOf_iff.1 ih
    obtain ⟨last, hlast, -⟩ := parent_eq_some_iff.1 hchild
    refine isParentOf_iff.2 ⟨rest ++ backslash :: last, ?_, .inr ?_⟩
    . rw [hlast, hchars, List.append_assoc]
    . rcases hrest with rfl | hhead
      . rfl
      . rw [List.head?_append, hhead]
        rfl

theorem InSubtree.mem (hp : p ∈ st.arByIds) (h : st.InSubtree p q) : q ∈ st.arByIds := by
  cases h with
  | self => exact hp
  | child _ hq _ => exact hq

theorem InSubtree.trans (h : st.InSubtree p q) (h' : st.InSubtree q r) : st.InSubtree p r := by
  induction h' with
  | self => exact h
  | child _ hq hchild ih => exact .child ih hq hchild

theorem InSubtree.wcslen_le (h : st.InSubtree p q) : (st.mem p).groupName.wcslen ≤ (st.mem q).groupName.wcslen :=
  h.starts.length_le

theorem inSubtree_iff : st.InSubtree q r ↔ r = q ∨ ∃ c ∈ st.arByIds, st.IsChild c q ∧ st.InSubtree c r := by
  constructor
  . intro h
    induction h with
    | self => exact .inl rfl
    | @child r' r hr hmem hchild ih =>
      rcases ih with rfl | ⟨c, hc, hchild', hin⟩
      . exact .inr ⟨_, hmem, hchild, .self⟩
      . exact .inr ⟨c, hc, hchild', .child hin hmem hchild⟩
  . rintro (rfl | ⟨c, hc, hchild, hin⟩)
    . exact .self
    . exact (InSubtree.child .self hc hchild).trans hin

theorem InSubtree.total (hindexed : Indexed st) (hp : p ∈ st.arByIds) (hq : q ∈ st.arByIds) (h : st.InSubtree p r)
    (h' : st.InSubtree q r)
    : st.InSubtree p q ∨ st.InSubtree q p := by
  induction h' with
  | self => exact .inl h
  | @child r r' hr' hr hchild ih =>
    cases h with
    | self => exact .inr (.child hr' hr hchild)
    | child hr'' _ hchild'' =>
      have hname : (st.mem r').groupName = (st.mem _).groupName := Option.some.inj (hchild.symm.trans hchild'')
      rw [← hindexed.name_inj (hr'.mem hq) (hr''.mem hp) hname] at hr''
      exact ih hr''

theorem InSubtree.disjoint (hindexed : Indexed st) (hp : p ∈ st.arByIds) (hq : q ∈ st.arByIds) {parent : Nat}
    (hchildp : st.IsChild p parent) (hchildq : st.IsChild q parent) (h : st.InSubtree p r)
    (h' : st.InSubtree q r)
    : p = q := by
  have hlt := wcslen_parent hchildp
  have hlt' := wcslen_parent hchildq
  rcases h.total hindexed hp hq h' with hin | hin
  . cases hin with
    | self => rfl
    | child hin _ hchild =>
      have hname := Option.some.inj (hchild.symm.trans hchildq)
      have hle := hin.wcslen_le
      rw [hname] at hle
      omega
  . cases hin with
    | self => rfl
    | child hin _ hchild =>
      have hname := Option.some.inj (hchild.symm.trans hchildp)
      have hle := hin.wcslen_le
      rw [hname] at hle
      omega

open Classical in
noncomputable def pathIn (st : Groups) (p : Nat) (szName : WStr) (R : Set Nat) (path : WStr) : WStr :=
  if ∃ q ∈ R, (st.mem q).groupName = path then newPath (st.mem p).groupName szName path else path

structure MovesMembers (st st' : Groups) (oldName szName : WStr) : Prop where
  names : ∀ q ∈ st.arByIds, (st'.mem q).groupName = movedPath oldName szName (st.mem q).groupName
  contacts : st'.contacts.map Contact.GetGroup =
    st.contacts.map fun c => (c.GetGroup.map (movedPath oldName szName)).filter fun path => path.wcslen != 0

structure ChangesNothing (st st' : Groups) : Prop where
  names : ∀ q ∈ st.arByIds, (st'.mem q).groupName = (st.mem q).groupName
  contacts : st'.contacts.map Contact.GetGroup = st.contacts.map Contact.GetGroup

def Refuses (st : Groups) (groupId : Int) (szName : WStr) : Prop :=
  st.GroupExists szName ≠ 0 ∧ st.GroupExists szName ≠ groupId

def ReportsConflict : Nat → Groups → Int → WStr → Prop
  | 0, _, _, _ => False
  | fuel + 1, st, groupId, szName =>
    st.Refuses groupId szName ∨
      ∃ p ∈ st.FindGroup groupId, ∃ i < st.arByIds.length,
        let before := beforeRound fuel st p groupId szName i
        ∃ q ∈ before.arByIds[i]?, i ≠ groupId ∧ isChildOf (st.mem p).groupName (before.mem q).groupName ∧
          ReportsConflict fuel before i
            (joinPath 255 szName ((before.mem q).groupName.skip ((st.mem p).groupName.wcslen + 1)))

def RenamesMembers (st : Groups) (hGroup : Int) (p : Nat) (szName : WStr) : Prop :=
  ((st.GroupRename hGroup szName).1 = false →
    st.MovesMembers (st.GroupRename hGroup szName).2 (st.mem p).groupName szName) ∧
  ((st.GroupRename hGroup szName).1 = true ∨ st.ReportsConflict (st.longestName + 1) (hGroup - 1) szName →
    st.ChangesNothing (st.GroupRename hGroup szName).2)

-- No new name is in use or looks like a subgroup that has yet to be renamed, and the cache entries know who is
-- in the subtree.
structure Clear (st : Groups) (p : Nat) (szName : WStr) : Prop where
  free : ∀ q, st.InSubtree p q → ∀ r ∈ st.arByIds,
    (st.mem r).groupName ≠ newPath (st.mem p).groupName szName (st.mem q).groupName
  apart : ∀ q r, st.InSubtree p q → st.InSubtree p r → r ≠ q →
    ¬isChildOf (st.mem q).groupName (newPath (st.mem p).groupName szName (st.mem r).groupName)
  cached : ∀ c ∈ st.contacts, ∀ q, st.InSubtree p q →
    (c.checked.tszGroup = some (st.mem q).groupName ↔ c.GetGroup = some (st.mem q).groupName)

structure Fits (st : Groups) (p : Nat) (szName : WStr) : Prop extends Clear st p szName where
  fits : ∀ q, st.InSubtree p q → (newPath (st.mem p).groupName szName (st.mem q).groupName).wcslen ≤ 255

structure Movable (st : Groups) (p : Nat) (szName : WStr) : Prop extends Fits st p szName where
  groups : ∀ q ∈ st.arByIds, isParentOf (st.mem p).groupName (st.mem q).groupName → st.InSubtree p q
  members : ∀ c ∈ st.contacts, ∀ path ∈ c.GetGroup, isParentOf (st.mem p).groupName path →
    ∃ q, st.InSubtree p q ∧ (st.mem q).groupName = path

structure ContactIn (st : Groups) (p : Nat) (szName : WStr) (R : Set Nat) (c c' : Contact) : Prop where
  cached : c'.checked.tszGroup = c.checked.tszGroup.map (st.pathIn p szName R)
  group : c'.GetGroup = (c.GetGroup.map (st.pathIn p szName R)).filter fun path => path.wcslen != 0

structure Partly (st : Groups) (p : Nat) (szName : WStr) (R : Set Nat) (s : Groups) : Prop where
  within : ∀ q ∈ R, st.InSubtree p q
  wellFormed : WellFormed s
  arByIds : s.arByIds = st.arByIds
  names : ∀ q ∈ st.arByIds, (s.mem q).groupName = st.pathIn p szName R (st.mem q).groupName
  contacts : List.Forall₂ (st.ContactIn p szName R) st.contacts s.contacts

theorem pathIn_of_mem (hq : q ∈ R) : st.pathIn p szName R (st.mem q).groupName =
    newPath (st.mem p).groupName szName (st.mem q).groupName :=
  if_pos ⟨q, hq, rfl⟩

theorem pathIn_of_notMem (hindexed : Indexed st) (hR : ∀ r ∈ R, r ∈ st.arByIds) (hq : q ∈ st.arByIds) (hnot : q ∉ R)
    : st.pathIn p szName R (st.mem q).groupName = (st.mem q).groupName := by
  apply if_neg
  rintro ⟨r, hr, hname⟩
  rw [hindexed.name_inj (hR r hr) hq hname] at hr
  exact hnot hr

theorem pathIn_insert_self (q : Nat) (R : Set Nat) : st.pathIn p szName (insert q R) (st.mem q).groupName =
    newPath (st.mem p).groupName szName (st.mem q).groupName :=
  pathIn_of_mem (Set.mem_insert q R)

theorem pathIn_insert_of_ne {path : WStr} (hne : path ≠ (st.mem q).groupName)
    : st.pathIn p szName (insert q R) path = st.pathIn p szName R path := by
  have hiff : (∃ r ∈ insert q R, (st.mem r).groupName = path) ↔ ∃ r ∈ R, (st.mem r).groupName = path := by
    constructor
    . rintro ⟨r, rfl | hr, hname⟩
      . exact absurd hname.symm hne
      . exact ⟨r, hr, hname⟩
    . rintro ⟨r, hr, hname⟩
      exact ⟨r, .inr hr, hname⟩
  unfold pathIn
  rw [propext hiff]

section

variable (hst : WellFormed st) (hp : p ∈ st.arByIds) (hfits : st.Fits p szName)

include hfits in
theorem pathIn_eq_iff (hst : WellFormed st) (hp : p ∈ st.arByIds) (hR : ∀ r ∈ R, st.InSubtree p r) (hq : q ∈ st.arByIds)
    (hnot : q ∉ R) {path : WStr}
    : st.pathIn p szName R path = (st.mem q).groupName ↔ path = (st.mem q).groupName := by
  constructor
  . intro h
    unfold pathIn at h
    split at h
    . next hex =>
      obtain ⟨r, hr, rfl⟩ := hex
      exact absurd h.symm (hfits.free r (hR r hr) q hq)
    . exact h
  . rintro rfl
    exact pathIn_of_notMem hst.indexed (fun r hr => (hR r hr).mem hp) hq hnot

include hst hp hfits in
theorem Partly.free (h : Partly st p szName R s) (hq : st.InSubtree p q) (hnot : q ∉ R)
    : ∀ r ∈ s.arByIds, (s.mem r).groupName ≠ newPath (st.mem p).groupName szName (st.mem q).groupName := by
  intro r hr hname
  rw [h.arByIds] at hr
  rw [h.names r hr] at hname
  by_cases hmem : r ∈ R
  . rw [pathIn_of_mem hmem] at hname
    have hsame := newPath_inj (h.within r hmem).starts hq.starts hname
    rw [hst.indexed.name_inj hr (hq.mem hp) hsame] at hmem
    exact hnot hmem
  . rw [pathIn_of_notMem hst.indexed (fun r hr => (h.within r hr).mem hp) hr hmem] at hname
    exact hfits.free q hq r hr hname

/-! ### A group is renamed -/

theorem getGroup_setGroup (c : Contact) (name : WStr)
    : (c.SetGroup name).GetGroup = (some name).filter fun path => path.wcslen != 0 := by
  unfold Contact.SetGroup
  by_cases hempty : name.wcslen = 0
  . rw [if_pos hempty, Option.filter_some_neg (by simpa using hempty)]
    cases hgroup : c.group with
    | none =>
      rw [if_neg (by simp)]
      unfold Contact.GetGroup
      rw [hgroup]
      rfl
    | some _ => rfl
  . rw [if_neg hempty]
    rfl

include hst hp hfits in
theorem ContactIn.renameContact {c c' : Contact} (hc : c ∈ st.contacts) (hR : ∀ r ∈ R, st.InSubtree p r)
    (hq : st.InSubtree p q) (hnot : q ∉ R) (h : st.ContactIn p szName R c c')
    : st.ContactIn p szName (insert q R) c (renameContact (st.mem q).groupName
        (newPath (st.mem p).groupName szName (st.mem q).groupName) c') := by
  have hqmem := hq.mem hp
  by_cases hin : c.GetGroup = some (st.mem q).groupName
  . have hold := (hfits.cached c hc q hq).2 hin
    have hcached : c'.checked.tszGroup = some (st.mem q).groupName := by
      rw [h.cached, hold, Option.map_some, (pathIn_eq_iff hfits hst hp hR hqmem hnot).2 rfl]
    unfold Groups.renameContact
    simp only []
    rw [if_pos hcached]
    constructor
    . rw [hold, Option.map_some, pathIn_insert_self]
      rfl
    . rw [hin, Option.map_some, pathIn_insert_self]
      exact getGroup_setGroup c'.checked _
  . have hcached : c'.checked.tszGroup ≠ some (st.mem q).groupName := by
      rw [h.cached]
      intro heq
      obtain ⟨path, hpath, hname⟩ := Option.map_eq_some_iff.1 heq
      rw [(pathIn_eq_iff hfits hst hp hR hqmem hnot).1 hname] at hpath
      exact hin ((hfits.cached c hc q hq).1 hpath)
    have hmap : ∀ group : Option WStr, group ≠ some (st.mem q).groupName →
        group.map (st.pathIn p szName (insert q R)) = group.map (st.pathIn p szName R) := by
      intro group hgroup
      cases group with
      | none => rfl
      | some path =>
        rw [Option.map_some, Option.map_some, pathIn_insert_of_ne]
        rintro rfl
        exact hgroup rfl
    unfold Groups.renameContact
    simp only []
    rw [if_neg hcached]
    have hchecked : c'.checked.checked.tszGroup = c'.checked.tszGroup := by
      unfold Contact.checked Contact.GetGroup
      cases c'.tszGroup with
      | none => cases Option.filter (fun name : WStr => name.wcslen != 0) c'.group <;> rfl
      | some _ => rfl
    constructor
    . rw [hmap _ fun hold => hin ((hfits.cached c hc q hq).1 hold), hchecked]
      exact h.cached
    . rw [hmap _ hin]
      exact h.group

include hst hp hfits in
theorem Partly.renameFirst (h : Partly st p szName R s) (hq : st.InSubtree p q) (hnot : q ∉ R)
    : Partly st p szName (insert q R)
        (s.renameFirst q (newPath (st.mem p).groupName szName (st.mem q).groupName)) := by
  have hcut := WStr.truncate_eq_self (hfits.fits q hq)
  have hqmem : q ∈ s.arByIds := h.arByIds ▸ hq.mem hp
  have hname : (s.mem q).groupName = (st.mem q).groupName := by
    rw [h.names q (hq.mem hp), pathIn_of_notMem hst.indexed (fun r hr => (h.within r hr).mem hp) (hq.mem hp) hnot]
  constructor
  . rintro r (rfl | hr)
    . exact hq
    . exact h.within r hr
  . apply h.wellFormed.renameFirst hqmem
    intro r hr _
    rw [hcut]
    exact h.free hst hp hfits hq hnot r hr
  . exact h.arByIds
  . intro r hr
    rw [groupName_renameFirst]
    by_cases hrq : r = q
    . rw [hrq, if_pos rfl, hcut, pathIn_insert_self]
    . rw [if_neg hrq, h.names r hr, pathIn_insert_of_ne fun heq => hrq (hst.indexed.name_inj hr (hq.mem hp) heq)]
  . have hcontacts : (s.renameFirst q (newPath (st.mem p).groupName szName (st.mem q).groupName)).contacts =
        s.contacts.map (Groups.renameContact (s.mem q).groupName
          (newPath (st.mem p).groupName szName (st.mem q).groupName)) := rfl
    rw [hcontacts, hname, List.forall₂_map_right_iff]
    have hcontacts' := (List.forall₂_and_left _ _).2 ⟨fun c hc => hc, h.contacts⟩
    exact hcontacts'.imp fun c c' hcontact =>
      hcontact.2.renameContact hst hp hfits hcontact.1 h.within hq hnot

/-! ### The loop -/

def visited (st : Groups) (q n : Nat) : Set Nat :=
  {r | r = q ∨ ∃ i < n, ∃ c ∈ st.arByIds[i]?, st.IsChild c q ∧ st.InSubtree c r}

theorem visited_zero (st : Groups) (q : Nat) : st.visited q 0 = {q} := by
  ext r
  constructor
  . rintro (rfl | ⟨i, hi, -⟩)
    . rfl
    . exact absurd hi (Nat.not_lt_zero i)
  . exact .inl

theorem visited_succ {n c : Nat} (hc : st.arByIds[n]? = some c)
    : st.visited q (n + 1) = st.visited q n ∪ {r | st.IsChild c q ∧ st.InSubtree c r} := by
  ext r
  constructor
  . rintro (rfl | ⟨i, hi, c', hc', hin⟩)
    . exact .inl (.inl rfl)
    . rcases Nat.lt_succ_iff_lt_or_eq.1 hi with hlt | rfl
      . exact .inl (.inr ⟨i, hlt, c', hc', hin⟩)
      . rw [Option.mem_def, hc, Option.some.injEq] at hc'
        rw [← hc'] at hin
        exact .inr hin
  . rintro ((rfl | ⟨i, hi, c', hc', hin⟩) | hin)
    . exact .inl rfl
    . exact .inr ⟨i, Nat.lt_succ_of_lt hi, c', hc', hin⟩
    . exact .inr ⟨n, Nat.lt_succ_self n, c, hc, hin⟩

theorem visited_length (st : Groups) (q : Nat) : st.visited q st.arByIds.length = {r | st.InSubtree q r} := by
  ext r
  refine Iff.trans ?_ inSubtree_iff.symm
  apply or_congr_right
  constructor
  . rintro ⟨i, -, c, hc, hin⟩
    exact ⟨c, List.mem_of_getElem? hc, hin⟩
  . rintro ⟨c, hc, hin⟩
    obtain ⟨i, hi⟩ := List.mem_iff_getElem?.1 hc
    exact ⟨i, (List.getElem?_eq_some_iff.1 hi).1, c, hi, hin⟩

theorem notMem_visited (hst : WellFormed st) (hq : q ∈ st.arByIds) {n c : Nat} (hc : st.arByIds[n]? = some c)
    (hchild : st.IsChild c q) (hr : st.InSubtree c r)
    : r ∉ st.visited q n := by
  rintro (rfl | ⟨i, hi, c', hc', hchild', hr'⟩)
  . have hlt := wcslen_parent hchild
    have hle := hr.wcslen_le
    omega
  . have heq := hr'.disjoint hst.indexed (List.mem_of_getElem? hc') (List.mem_of_getElem? hc) hchild' hchild hr
    have hid := hst.numbered i c' hc'
    have hid' := hst.numbered n c hc
    rw [heq] at hid
    omega

include hst hp in
theorem Partly.name_of_notMem (h : Partly st p szName R s) (hq : q ∈ st.arByIds) (hnot : q ∉ R)
    : (s.mem q).groupName = (st.mem q).groupName := by
  rw [h.names q hq, pathIn_of_notMem hst.indexed (fun r hr => (h.within r hr).mem hp) hq hnot]

include hst hp hfits in
theorem Partly.test_iff (h : Partly st p szName R s) {g n c : Nat} (hq : st.InSubtree p q) (hg : st.arByIds[g]? = some q)
    (hc : st.arByIds[n]? = some c) (hnot : st.IsChild c q → c ∉ R)
    : (n ≠ (g : Int) ∧ isChildOf (st.mem q).groupName (s.mem c).groupName) ↔ st.IsChild c q := by
  have hmem := List.mem_of_getElem? hc
  constructor
  . rintro ⟨hne, hchild⟩
    by_cases hin : c ∈ R
    . rw [h.names c hmem, pathIn_of_mem hin] at hchild
      refine absurd hchild (hfits.apart q c hq (h.within c hin) fun heq => hne ?_)
      rw [heq] at hc
      rw [← hst.numbered n q hc, hst.numbered g q hg]
    . rw [h.name_of_notMem hst hp hmem hin] at hchild
      exact isChildOf_iff.1 hchild
  . intro hchild
    refine ⟨fun heq => ?_, ?_⟩
    . rw [Int.ofNat_inj.1 heq, hg, Option.some.injEq] at hc
      have hlt := wcslen_parent hchild
      rw [hc] at hlt
      omega
    . rw [h.name_of_notMem hst hp hmem (hnot hchild)]
      exact isChildOf_iff.2 hchild

include hst hp hfits in
theorem Partly.joinPath_eq (h : Partly st p szName R s) {c : Nat} (hq : st.InSubtree p q) (hc : c ∈ st.arByIds)
    (hchild : st.IsChild c q) (hnot : c ∉ R)
    : joinPath 255 (newPath (st.mem p).groupName szName (st.mem q).groupName)
        ((s.mem c).groupName.skip ((st.mem q).groupName.wcslen + 1)) =
          newPath (st.mem p).groupName szName (st.mem c).groupName := by
  rw [h.name_of_notMem hst hp hc hnot]
  exact Clist.joinPath_eq hq.starts (isChildOf_iff.2 hchild) (hfits.fits c (.child hq hc hchild)) rfl

include hst hp hfits in
theorem Partly.renameSubgroups {rename : Groups → Int → WStr → Groups} {g : Nat} (h : Partly st p szName R s)
    (hq : st.InSubtree p q) (hg : st.arByIds[g]? = some q) (hdisjoint : ∀ r, st.InSubtree q r → r ∉ R)
    (hrename : ∀ s' R', ∀ i c : Nat, Partly st p szName R' s' → st.arByIds[i]? = some c → st.IsChild c q →
      (∀ r, st.InSubtree c r → r ∉ R') → Partly st p szName (R' ∪ {r | st.InSubtree c r})
        (rename s' i (newPath (st.mem p).groupName szName (st.mem c).groupName)))
    (n : Nat) (hn : n ≤ st.arByIds.length)
    : Partly st p szName (R ∪ st.visited q n) (Groups.renameSubgroups rename s q g
        (newPath (st.mem p).groupName szName (st.mem q).groupName) n) := by
  have hqname : (s.mem q).groupName = (st.mem q).groupName := h.name_of_notMem hst hp (hq.mem hp) (hdisjoint q .self)
  induction n with
  | zero =>
    rw [visited_zero, Set.union_singleton]
    exact h.renameFirst hst hp hfits hq (hdisjoint q .self)
  | succ n ih =>
    have hround := ih (Nat.le_of_succ_le hn)
    obtain ⟨c, hc⟩ : ∃ c, st.arByIds[n]? = some c := ⟨_, List.getElem?_eq_getElem hn⟩
    have hmem := List.mem_of_getElem? hc
    have hnew : ∀ r, st.IsChild c q → st.InSubtree c r → r ∉ R ∪ st.visited q n := by
      rintro r hchild hin (hr | hr)
      . exact hdisjoint r ((InSubtree.child .self hmem hchild).trans hin) hr
      . exact notMem_visited hst (hq.mem hp) hc hchild hin hr
    have htest := hround.test_iff hst hp hfits hq hg hc fun hchild => hnew c hchild .self
    rw [renameSubgroups_succ]
    unfold renameSubgroup
    rw [hround.arByIds, hc, hqname, visited_succ hc, ← Set.union_assoc]
    simp only []
    by_cases hchild : st.IsChild c q
    . have hset : {r | st.IsChild c q ∧ st.InSubtree c r} = {r | st.InSubtree c r} := by
        ext r
        exact and_iff_right hchild
      rw [if_pos (htest.2 hchild), hset, hround.joinPath_eq hst hp hfits hq hmem hchild (hnew c hchild .self)]
      exact hrename _ _ n c hround hc hchild fun r => hnew r hchild
    . have hset : {r | st.IsChild c q ∧ st.InSubtree c r} = ∅ := by
        ext r
        exact iff_of_false (fun hr => hchild hr.1) (Set.notMem_empty r)
      rw [if_neg fun hyes => hchild (htest.1 hyes), hset, Set.union_empty]
      exact hround

/-! ### The calls -/

include hst hp hfits in
theorem Partly.groupExists_eq_zero (h : Partly st p szName R s) (hq : st.InSubtree p q) (hnot : q ∉ R)
    : s.GroupExists (newPath (st.mem p).groupName szName (st.mem q).groupName) = 0 := by
  unfold GroupExists
  rw [(h.wellFormed.indexed.findGroupByName_eq_none_iff _).2 (h.free hst hp hfits hq hnot)]

theorem Partly.findGroup (h : Partly st p szName R s) {g : Nat} (hg : st.arByIds[g]? = some q)
    : s.FindGroup g = some q := by
  have hcount := h.wellFormed.indexed.count
  rw [h.arByIds] at hcount
  have hlt := (List.getElem?_eq_some_iff.1 hg).1
  rw [h.wellFormed.findGroup_eq_some_iff (by omega), h.arByIds]
  exact ⟨by omega, hg⟩

variable {bound : Nat} (hbound : ∀ q ∈ st.arByIds, (st.mem q).groupName.wcslen ≤ bound)

include hst hp hfits hbound in
theorem Partly.renameGroupWithMove (fuel : Nat)
    : ∀ s R, ∀ g q : Nat, Partly st p szName R s → st.InSubtree p q → st.arByIds[g]? = some q →
        (∀ r, st.InSubtree q r → r ∉ R) → bound < (st.mem q).groupName.wcslen + fuel →
        Partly st p szName (R ∪ {r | st.InSubtree q r})
          (RenameGroupWithMove fuel s g (newPath (st.mem p).groupName szName (st.mem q).groupName) false).2 := by
  induction fuel with
  | zero =>
    intro s R g q _ hq _ _ hfuel
    have hle := hbound q (hq.mem hp)
    omega
  | succ fuel ih =>
    intro s R g q h hq hg hdisjoint hfuel
    have hexists := h.groupExists_eq_zero hst hp hfits hq (hdisjoint q .self)
    unfold RenameGroupWithMove
    rw [if_neg fun hconflict => hconflict.1 hexists, h.findGroup hg, ← visited_length, h.arByIds]
    apply h.renameSubgroups hst hp hfits hq hg hdisjoint _ _ (Nat.le_refl _)
    intro s' R' i c hs' hc hchild hdisjoint'
    have hlt := wcslen_parent hchild
    exact ih s' R' i c hs' (.child hq (List.mem_of_getElem? hc) hchild) hc hdisjoint' (by omega)

include hst hp hfits hbound in
theorem Partly.beforeRound {fuel g : Nat} (h : Partly st p szName R s) (hq : st.InSubtree p q)
    (hg : st.arByIds[g]? = some q) (hdisjoint : ∀ r, st.InSubtree q r → r ∉ R)
    (hfuel : bound < (st.mem q).groupName.wcslen + (fuel + 1)) (n : Nat) (hn : n ≤ st.arByIds.length)
    : Partly st p szName (R ∪ st.visited q n) (Groups.beforeRound fuel s q g
        (newPath (st.mem p).groupName szName (st.mem q).groupName) n) := by
  apply h.renameSubgroups hst hp hfits hq hg hdisjoint _ _ hn
  intro s' R' i c hs' hc hchild hdisjoint'
  have hlt := wcslen_parent hchild
  exact hs'.renameGroupWithMove hst hp hfits hbound fuel _ _ _ _ (.child hq (List.mem_of_getElem? hc) hchild) hc
    hdisjoint' (by omega)

include hst hp hfits hbound in
theorem Partly.not_reportsConflict (fuel : Nat)
    : ∀ s R, ∀ g q : Nat, Partly st p szName R s → st.InSubtree p q → st.arByIds[g]? = some q →
        (∀ r, st.InSubtree q r → r ∉ R) → bound < (st.mem q).groupName.wcslen + fuel →
        ¬s.ReportsConflict fuel g (newPath (st.mem p).groupName szName (st.mem q).groupName) := by
  induction fuel with
  | zero =>
    intro s R g q _ _ _ _ _
    exact id
  | succ fuel ih =>
    intro s R g q h hq hg hdisjoint hfuel
    rintro (hrefuses | ⟨q', hfind, i, hi, c, hc, hne, hchild, hreports⟩)
    . exact hrefuses.1 (h.groupExists_eq_zero hst hp hfits hq (hdisjoint q .self))
    . rw [Option.mem_def, h.findGroup hg, Option.some.injEq] at hfind
      subst hfind
      rw [h.arByIds] at hi
      have hround := h.beforeRound hst hp hfits hbound hq hg hdisjoint hfuel i (Nat.le_of_lt hi)
      rw [Option.mem_def, hround.arByIds] at hc
      have hmem := List.mem_of_getElem? hc
      have hnew : ∀ r, st.IsChild c q → st.InSubtree c r → r ∉ R ∪ st.visited q i := by
        rintro r hchild hin (hr | hr)
        . exact hdisjoint r ((InSubtree.child .self hmem hchild).trans hin) hr
        . exact notMem_visited hst (hq.mem hp) hc hchild hin hr
      rw [h.name_of_notMem hst hp (hq.mem hp) (hdisjoint q .self)] at hchild hreports
      have hchild' := (hround.test_iff hst hp hfits hq hg hc fun hchild => hnew c hchild .self).1 ⟨hne, hchild⟩
      rw [hround.joinPath_eq hst hp hfits hq hmem hchild' (hnew c hchild' .self)] at hreports
      have hlt := wcslen_parent hchild'
      exact ih _ _ i c hround (.child hq hmem hchild') hc (fun r => hnew r hchild') (by omega) hreports

theorem pathIn_empty (st : Groups) (p : Nat) (szName : WStr) : st.pathIn p szName ∅ = id := by
  funext path
  apply if_neg
  rintro ⟨q, hq, -⟩
  exact Set.notMem_empty q hq

include hst in
theorem partly_empty : Partly st p szName ∅ st where
  within q hq := absurd hq (Set.notMem_empty q)
  wellFormed := hst
  arByIds := rfl
  names q _ := by
    rw [pathIn_empty]
    rfl
  contacts := by
    rw [List.forall₂_same]
    intro c _
    constructor
    . rw [pathIn_empty, Option.map_id]
      rfl
    . rw [pathIn_empty, Option.map_id]
      unfold Contact.GetGroup
      cases c.group with
      | none => rfl
      | some name => by_cases hname : name.wcslen = 0 <;> simp [Option.filter, hname]

theorem pathIn_subtree_group (hmovable : st.Movable p szName) (hq : q ∈ st.arByIds)
    : st.pathIn p szName {r | st.InSubtree p r} (st.mem q).groupName =
        movedPath (st.mem p).groupName szName (st.mem q).groupName := by
  unfold movedPath
  by_cases hbelow : isParentOf (st.mem p).groupName (st.mem q).groupName
  . rw [if_pos hbelow]
    exact pathIn_of_mem (R := {r | st.InSubtree p r}) (hmovable.groups q hq hbelow)
  . rw [if_neg hbelow]
    apply if_neg
    rintro ⟨r, hr, hname⟩
    exact hbelow (hname ▸ hr.isParentOf)

theorem pathIn_subtree_contact (hmovable : st.Movable p szName) {c : Contact} (hc : c ∈ st.contacts) {path : WStr}
    (hpath : path ∈ c.GetGroup)
    : st.pathIn p szName {r | st.InSubtree p r} path = movedPath (st.mem p).groupName szName path := by
  unfold movedPath
  by_cases hbelow : isParentOf (st.mem p).groupName path
  . rw [if_pos hbelow]
    exact if_pos (hmovable.members c hc path hpath hbelow)
  . rw [if_neg hbelow]
    apply if_neg
    rintro ⟨r, hr, hname⟩
    exact hbelow (hname ▸ hr.isParentOf)

end

theorem renamesMembers_of_refuses {hGroup : Int} (h : st.Refuses (hGroup - 1) szName)
    : st.RenamesMembers hGroup p szName := by
  have hresult : st.GroupRename hGroup szName = (true, st) := by
    unfold GroupRename
    rw [RenameGroupWithMove, if_pos (show _ ∧ _ from h)]
    rfl
  unfold RenamesMembers
  rw [hresult]
  exact ⟨(fun h => by cases h), fun _ => ⟨fun _ _ => rfl, rfl⟩⟩

theorem groupRename_of_free (hst : WellFormed st) {g : Nat} (hg : st.arByIds[g]? = some p) (hexists : st.GroupExists szName = 0)
    : st.GroupRename (g + 1) szName = (false,
        (beforeRound st.longestName st p g szName st.arByIds.length).moveBehindParent g szName) := by
  have hempty : Partly st p szName ∅ st := partly_empty hst
  unfold GroupRename
  rw [Int.add_sub_cancel, RenameGroupWithMove, if_neg fun hconflict => hconflict.1 hexists, hempty.findGroup hg]
  rfl

theorem groupRename_of_fits (hst : WellFormed st) {hGroup : Int} (hgroup : st.groupOf hGroup = some p)
    (hfits : st.Fits p szName)
    : (st.GroupRename hGroup szName).1 = false ∧ ¬st.ReportsConflict (st.longestName + 1) (hGroup - 1) szName ∧
        (∀ q ∈ st.arByIds, ((st.GroupRename hGroup szName).2.mem q).groupName =
          st.pathIn p szName {r | st.InSubtree p r} (st.mem q).groupName) ∧
        List.Forall₂ (st.ContactIn p szName {r | st.InSubtree p r}) st.contacts
          (st.GroupRename hGroup szName).2.contacts := by
  obtain ⟨g, rfl, hg⟩ := groupOf_eq_some_iff.1 hgroup
  have hp := List.mem_of_getElem? hg
  have hlt := (List.getElem?_eq_some_iff.1 hg).1
  have hself : newPath (st.mem p).groupName szName (st.mem p).groupName = szName := newPath_self _ _
  have hempty : Partly st p szName ∅ st := partly_empty hst
  have hbound := (longestName_spec st).2
  have hexists := hempty.groupExists_eq_zero hst hp hfits .self (Set.notMem_empty p)
  have hall : Partly st p szName (∅ ∪ st.visited p st.arByIds.length) (beforeRound st.longestName st p g
      (newPath (st.mem p).groupName szName (st.mem p).groupName) st.arByIds.length) :=
    hempty.beforeRound hst hp hfits hbound .self hg (fun r _ => Set.notMem_empty r) (by omega) _ (Nat.le_refl _)
  have hreports := hempty.not_reportsConflict hst hp hfits hbound (st.longestName + 1) _ _ g p .self hg
    (fun r _ => Set.notMem_empty r) (by omega)
  rw [hself] at hexists hall hreports
  rw [visited_length, Set.empty_union] at hall
  rw [← hall.arByIds] at hlt
  have hnum := hall.wellFormed.numbered
  have hcount := hall.wellFormed.indexed.count
  rw [groupRename_of_free hst hg hexists, Int.add_sub_cancel]
  refine ⟨rfl, hreports, fun q hq => ?_, ?_⟩
  . rw [groupName_moveBehindParent hnum hcount hlt, hall.names q hq]
  . rw [contacts_moveBehindParent hnum hcount hlt]
    exact hall.contacts

theorem renamesMembers_of_movable (hst : WellFormed st) {hGroup : Int} (hgroup : st.groupOf hGroup = some p)
    (hmovable : st.Movable p szName)
    : st.RenamesMembers hGroup p szName := by
  obtain ⟨hresult, hreports, hnames, hcontacts⟩ := groupRename_of_fits hst hgroup hmovable.toFits
  refine ⟨fun _ => ⟨fun q hq => ?_, ?_⟩, ?_⟩
  . rw [hnames q hq, pathIn_subtree_group hmovable hq]
  . apply List.ext_getElem
    . rw [List.length_map, List.length_map, hcontacts.length_eq]
    . intro i hi hi'
      rw [List.length_map] at hi hi'
      rw [List.getElem_map, List.getElem_map]
      refine (hcontacts.get hi' hi).group.trans (congrArg _ (Option.map_congr fun path hpath => ?_))
      exact pathIn_subtree_contact hmovable (List.getElem_mem hi') hpath
  . rintro (hconflict | hconflict)
    . rw [hresult] at hconflict
      cases hconflict
    . exact absurd hconflict hreports

/-! ### What it takes -/

theorem wcslen_groupRename (hst : WellFormed st) {g : Nat} (hg : st.arByIds[g]? = some p)
    (hexists : st.GroupExists szName = 0) (q : Nat)
    : ((st.GroupRename (g + 1) szName).2.mem q).groupName = (st.mem q).groupName ∨
        ((st.GroupRename (g + 1) szName).2.mem q).groupName.wcslen ≤ 255 := by
  have hp := List.mem_of_getElem? hg
  have hlt := (List.getElem?_eq_some_iff.1 hg).1
  have hfirst : ∀ (s : Groups) r name,
      (∀ q, (s.mem q).groupName = (st.mem q).groupName ∨ (s.mem q).groupName.wcslen ≤ 255) → r ∈ s.arByIds →
      ∀ q, ((s.renameFirst r name).mem q).groupName = (st.mem q).groupName ∨
        ((s.renameFirst r name).mem q).groupName.wcslen ≤ 255 := by
    intro s r name hs _ q
    rw [groupName_renameFirst]
    split
    . exact .inr (WStr.wcslen_truncate_le 255 name)
    . exact hs q
  have hloop : ∀ q, ((beforeRound st.longestName st p g szName st.arByIds.length).mem q).groupName =
      (st.mem q).groupName ∨
        ((beforeRound st.longestName st p g szName st.arByIds.length).mem q).groupName.wcslen ≤ 255 :=
    renameSubgroups_inv hfirst (renameGroupWithMove_inv hfirst st.longestName) (fun _ => .inl rfl) hp g szName _
  obtain ⟨hids, hid⟩ : (beforeRound st.longestName st p g szName st.arByIds.length).arByIds = st.arByIds ∧
      ∀ q, ((beforeRound st.longestName st p g szName st.arByIds.length).mem q).groupId = (st.mem q).groupId :=
    renameSubgroups_frame st.longestName st hp g szName _
  have hnum : Numbered (beforeRound st.longestName st p g szName st.arByIds.length) := by
    intro i r hr
    rw [hids] at hr
    exact (hid r).trans (hst.numbered i r hr)
  have hcount := hst.indexed.count
  rw [← hids] at hlt hcount
  rw [groupRename_of_free hst hg hexists]
  dsimp only
  rw [groupName_moveBehindParent hnum hcount hlt]
  exact hloop q

theorem eq_of_newPath_eq {path : WStr} (hbelow : isParentOf oldName path) (h : newPath oldName szName path = path)
    : szName = oldName := by
  obtain ⟨rest, hchars, -⟩ := isParentOf_iff.1 hbelow
  have hsame := congrArg WStr.chars h
  rw [newPath_chars, WStr.wcslen, hchars, List.drop_left] at hsame
  exact WStr.ext_chars (List.append_cancel_right hsame)

theorem movable_of_renamesMembers (hst : WellFormed st) {hGroup : Int} (hgroup : st.groupOf hGroup = some p)
    (hclear : st.Clear p szName) (h : st.RenamesMembers hGroup p szName)
    : st.Movable p szName := by
  obtain ⟨g, rfl, hg⟩ := groupOf_eq_some_iff.1 hgroup
  have hp := List.mem_of_getElem? hg
  have hself : newPath (st.mem p).groupName szName (st.mem p).groupName = szName := newPath_self _ _
  have hne : szName ≠ (st.mem p).groupName := by
    intro heq
    refine hclear.free p .self p hp ?_
    rw [hself, heq]
  have hexists : st.GroupExists szName = 0 := by
    unfold GroupExists
    rw [(hst.indexed.findGroupByName_eq_none_iff _).2 fun r hr => hself ▸ hclear.free p .self r hr]
  have hresult : (st.GroupRename (g + 1) szName).1 = false := by
    rw [groupRename_of_free hst hg hexists]
  obtain ⟨hnames, hcontacts⟩ := h.1 hresult
  have hmoved : ∀ path, isParentOf (st.mem p).groupName path →
      movedPath (st.mem p).groupName szName path = newPath (st.mem p).groupName szName path := fun path hbelow => if_pos hbelow
  have hfits : st.Fits p szName := by
    refine ⟨hclear, fun q hq => ?_⟩
    have hname := hnames q (hq.mem hp)
    rw [hmoved _ hq.isParentOf] at hname
    rcases wcslen_groupRename hst hg hexists q with hsame | hshort
    . exact absurd (hsame.symm.trans hname) (hclear.free q hq q (hq.mem hp))
    . rwa [hname] at hshort
  obtain ⟨-, -, hnames', hcontacts'⟩ := groupRename_of_fits hst hgroup hfits
  refine ⟨hfits, fun q hq hbelow => ?_, fun c hc path hpath hbelow => ?_⟩
  . by_contra hnot
    have hname := (hnames' q hq).symm.trans (hnames q hq)
    have hold : st.pathIn p szName {r | st.InSubtree p r} (st.mem q).groupName = (st.mem q).groupName :=
      pathIn_of_notMem hst.indexed (fun r hr => InSubtree.mem hp hr) hq hnot
    rw [hmoved _ hbelow, hold] at hname
    exact hne (eq_of_newPath_eq hbelow hname.symm)
  . by_contra hnot
    obtain ⟨i, hi, hget⟩ := List.getElem_of_mem hc
    have hi' : i < (st.GroupRename (g + 1) szName).2.contacts.length := hcontacts'.length_eq ▸ hi
    have hkept := (hcontacts'.get hi hi').group
    have hcontact := congrArg (·[i]?) hcontacts
    simp only [List.getElem?_map, List.getElem?_eq_getElem hi, List.getElem?_eq_getElem hi', Option.map_some,
      Option.some.injEq, hget] at hcontact
    have hsame := hcontact.symm.trans hkept
    rw [List.get_eq_getElem, hget, Option.mem_def.1 hpath, Option.map_some, Option.map_some, hmoved path hbelow] at hsame
    have hold : st.pathIn p szName {r | st.InSubtree p r} path = path := if_neg hnot
    have hfull : path.wcslen != 0 := (Option.mem_filter_iff.1 hpath).2
    have hfilter : (some path).filter (fun path => path.wcslen != 0) = some path :=
      Option.filter_eq_some_iff.2 ⟨rfl, hfull⟩
    rw [hold, hfilter, Option.filter_eq_some_iff, Option.some.injEq] at hsame
    exact hne (eq_of_newPath_eq hbelow hsame.1)

def threeGroups : Groups :=
  InitGroupServices (stored ["A", "A\\x", "B"])
    [⟨some (.lit "A"), none⟩, ⟨some (.lit "A\\x"), none⟩, ⟨some (.lit "B"), none⟩, ⟨none, none⟩]

theorem inSubtree_threeGroups : threeGroups.InSubtree 0 q ↔ q = 0 ∨ q = 1 := by
  have hids : threeGroups.arByIds = [0, 1, 2] := by decide
  constructor
  . intro h
    have hmem := h.mem (by rw [hids]; exact List.mem_cons_self)
    simp only [hids, List.mem_cons, List.not_mem_nil, or_false] at hmem
    rcases hmem with rfl | rfl | rfl
    . exact .inl rfl
    . exact .inr rfl
    . exact absurd h.starts (by decide)
  . rintro (rfl | rfl)
    . exact .self
    . exact .child .self (by decide) (by decide)

theorem movable_threeGroups : threeGroups.Movable 0 (.lit "C") where
  free q hq := by
    rcases inSubtree_threeGroups.1 hq with rfl | rfl
    . decide
    . decide
  apart q r hq hr := by
    rcases inSubtree_threeGroups.1 hq with rfl | rfl
    . rcases inSubtree_threeGroups.1 hr with rfl | rfl
      . decide
      . decide
    . rcases inSubtree_threeGroups.1 hr with rfl | rfl
      . decide
      . decide
  cached c hc q hq := by
    revert c
    rcases inSubtree_threeGroups.1 hq with rfl | rfl
    . decide
    . decide
  fits q hq := by
    rcases inSubtree_threeGroups.1 hq with rfl | rfl
    . decide
    . decide
  groups q hq hbelow := by
    rw [inSubtree_threeGroups]
    revert q
    decide
  members c hc path hpath hbelow := by
    have hpaths : ∀ c ∈ threeGroups.contacts, ∀ path ∈ c.GetGroup,
        isParentOf (threeGroups.mem 0).groupName path →
        (threeGroups.mem 0).groupName = path ∨ (threeGroups.mem 1).groupName = path := by decide
    rcases hpaths c hc path hpath hbelow with hname | hname
    . exact ⟨0, .self, hname⟩
    . exact ⟨1, inSubtree_threeGroups.2 (.inr rfl), hname⟩

end Groups
end Clist
