import MirandaNG.Clist.Tree

/-!
This module contains the removal of a contact from the contact list. It proves when the removal does what it should:
a contact that is shown goes away together with the groups it leaves empty, and a contact that is not shown is no
longer counted.
-/

namespace ClcTree

open WStr

def HCONTACT_ISGROUP : UInt32 := 0x80000000

def HCONTACT_ISINFO : UInt32 := 0xFFFF0000

def isHContactGroup (h : UInt32) : Bool := h ^^^ HCONTACT_ISGROUP < HCONTACT_ISGROUP ^^^ HCONTACT_ISINFO

def isHContactInfo (h : UInt32) : Bool := h &&& HCONTACT_ISINFO = HCONTACT_ISINFO

def isHContactContact (h : UInt32) : Bool := h &&& HCONTACT_ISGROUP = 0

def fnFindItem (dwItem : UInt32) : ClcContact → Bool
  | .CLCIT_GROUP groupId _ _ => isHContactGroup dwItem && dwItem &&& ~~~HCONTACT_ISGROUP = groupId.toUInt32
  | .CLCIT_CONTACT hContact => isHContactContact dwItem && hContact = dwItem
  | .CLCIT_INFO hContact => isHContactInfo dwItem && hContact = dwItem &&& ~~~HCONTACT_ISINFO
  | .CLCIT_DIVIDER => false

def visitFind (dwItem : UInt32) (_ : Unit) (group k : Nat) (cc : ClcContact) : Row ⊕ Unit :=
  if fnFindItem dwItem cc then .inl ⟨group, k, cc⟩ else .inr ()

def Clist_FindItem (fuel : Nat) (groups : Groups) (dwItem : UInt32) : Scan Row Unit :=
  scan true none (visitFind dwItem) fuel (groups.scanFrom 0 0) 0 ()

structure Style where
  CLS_HIDEEMPTYGROUPS : Bool
  CLS_USEGROUPS : Bool

def isHeader (groupId : Int) : ClcContact → Bool
  | .CLCIT_GROUP id _ _ => decide ((id.toNat : Int) = groupId)
  | _ => false

def takeItem (k : Nat) (updateTotalCount : Bool) (group : ClcGroup) : ClcGroup :=
  match group.cl[k]? with
  | some (.CLCIT_CONTACT _) =>
    { group with cl := group.cl.eraseIdx k, totalMembers := group.totalMembers - if updateTotalCount then 1 else 0 }
  | _ => { group with cl := group.cl.eraseIdx k }

def Clist_RemoveItemFromGroup (style : Style)
    : Nat → Groups → (group k : Nat) → (updateTotalCount : Bool) → Option Groups
  | 0, _, _, _, _ => none
  | fuel + 1, groups, group, k, updateTotalCount =>
    let groups := groups.modify group (takeItem k updateTotalCount)
    if style.CLS_HIDEEMPTYGROUPS ∧ (groups group).cl = [] then
      match (groups group).parent with
      | none => some groups
      | some parent =>
        match (groups parent).cl.findIdx? (isHeader (groups group).groupId) with
        | none => some groups
        | some k => Clist_RemoveItemFromGroup style fuel groups parent k false
    else
      some groups

-- The loop at the end of `Clist_DeleteItemFromTree`; `group` and `nameOffset` never change in it.
def decreaseCounts (wszGroup : WStr) : Nat → Groups → Nat → Scan Empty Unit
  | 0, _, _ => .running
  | fuel + 1, groups, i =>
    if (groups 0).scanIndex = (groups 0).cl.length then
      .finished () groups
    else
      match (groups 0).cl[i]? with
      | none => .crashed
      | some (.CLCIT_GROUP _ szText _) =>
        let len := szText.wcslen
        if szText.chars.isPrefixOf wszGroup.chars ∧
            (wszGroup.chars[len]? = some backslash ∨ wszGroup.chars[len]? = none) then
          let groups := groups.modify 0 fun g => { g with totalMembers := g.totalMembers - 1 }
          if wszGroup.chars[len]? = none then .finished () groups else decreaseCounts wszGroup fuel groups (i + 1)
        else
          decreaseCounts wszGroup fuel groups (i + 1)
      | some _ => decreaseCounts wszGroup fuel groups (i + 1)

def Clist_DeleteItemFromTree (style : Style) (Clist_GetGroup : UInt32 → Option WStr) (fuel : Nat) (groups : Groups)
    (hItem : UInt32) : Scan Empty Unit :=
  match Clist_FindItem fuel groups hItem with
  | .running => .running
  | .crashed => .crashed
  | .found row groups =>
    match Clist_RemoveItemFromGroup style fuel groups row.group row.index true with
    | none => .running
    | some groups => .finished () groups
  | .finished () groups =>
    if isHContactContact hItem then
      match Clist_GetGroup hItem with
      | none => .finished () groups
      | some wszGroup => decreaseCounts wszGroup fuel groups 0
    else
      .finished () groups

def findGroup (pThisField : List UInt16) (last : Bool) : List ClcContact → Option Nat
  | [] => none
  | .CLCIT_CONTACT _ :: _ => none
  | .CLCIT_GROUP groupId szText group :: cl =>
    if pThisField = szText.chars then some group
    else if last ∧ groupId = 0 then none
    else findGroup pThisField last cl
  | _ :: cl => findGroup pThisField last cl

def findPath (groups : Groups) (group : Nat) : List (List UInt16) → Option Nat
  | [] => some group
  | pThisField :: fields => do
    let group ← findGroup pThisField fields.isEmpty (groups group).cl
    findPath groups group fields

def fnAddGroup (style : Style) (groups : Groups) (szName : WStr) : Option Nat :=
  if style.CLS_USEGROUPS then findPath groups 0 (szName.chars.splitOn backslash) else some 0

def countedIn (style : Style) (groups : Groups) : Option WStr → Option Nat
  | none => some 0
  | some wszGroup => fnAddGroup style groups wszGroup

def Forest.place (groups : Groups) (hItem : UInt32) (p k : Nat) (f : Forest) : Option Row :=
  (rows groups true p k f).find? fun row => row.cc = .CLCIT_CONTACT hItem

def Forest.without (hideEmpty : Bool) (hItem : UInt32) : Forest → Option Forest
  | .nil => none
  | .item cc rest =>
    if cc = .CLCIT_CONTACT hItem then some rest else (rest.without hideEmpty hItem).map (.item cc)
  | .group groupId szText p items rest =>
    match items.without hideEmpty hItem with
    | some items' => if hideEmpty ∧ items' = .nil then some rest else some (.group groupId szText p items' rest)
    | none => (rest.without hideEmpty hItem).map (.group groupId szText p items)

structure Removed (groups groups' : Groups) (counted : Option Nat) : Prop where
  changed : ∀ q, ∃ cl i, groups' q =
    { groups q with cl := cl, scanIndex := i,
                    totalMembers := (groups q).totalMembers - if counted = some q then 1 else 0 }

/--
What a removal has done to the tree `f`: the contact is gone if it was shown, and the tree is as it was if not. Its
group counts one member less, and no other group.
-/
def DeletedFrom (style : Style) (Clist_GetGroup : UInt32 → Option WStr) (groups groups' : Groups) (f : Forest)
    (hItem : UInt32) : Prop :=
  match f.place groups hItem 0 0 with
  | some row => Removed groups groups' (some row.group) ∧
      ∃ f', f.without style.CLS_HIDEEMPTYGROUPS hItem = some f' ∧ IsTree groups' f'
  | none => Removed groups groups' (countedIn style groups (Clist_GetGroup hItem)) ∧ IsTree groups' f

def Deletes (style : Style) (Clist_GetGroup : UInt32 → Option WStr) (groups : Groups) (f : Forest) (hItem : UInt32)
    : Prop :=
  ∃ n groups', (∀ fuel, Clist_DeleteItemFromTree style Clist_GetGroup (n + fuel) groups hItem = .finished () groups') ∧
    DeletedFrom style Clist_GetGroup groups groups' f hItem

def Forest.HeadersFirst (groups : Groups) (hideEmpty : Bool) (hItem : UInt32) (p k : Nat) : Forest → Prop
  | .nil => True
  | .item cc rest => cc = .CLCIT_CONTACT hItem ∨ rest.HeadersFirst groups hideEmpty hItem p (k + 1)
  | .group _ _ sub items rest =>
    match items.without hideEmpty hItem with
    | some items' => items.HeadersFirst groups hideEmpty hItem sub 0 ∧
        (hideEmpty ∧ items' = .nil → (groups p).cl.findIdx? (isHeader (groups sub).groupId) = some k)
    | none => rest.HeadersFirst groups hideEmpty hItem p (k + 1)

theorem testBit_31 {h : UInt32} (hcontact : isHContactContact h = true) : h.toNat.testBit 31 = false := by
  have hand : h &&& HCONTACT_ISGROUP = 0 := of_decide_eq_true hcontact
  have hbit : (h.toNat &&& 0x80000000).testBit 31 = false := by
    have hnat : (h &&& HCONTACT_ISGROUP).toNat = h.toNat &&& 0x80000000 := UInt32.toNat_and ..
    rw [← hnat, hand]
    rfl
  rw [Nat.testBit_and, show (0x80000000 : Nat).testBit 31 = true from by decide, Bool.and_true] at hbit
  exact hbit

theorem not_isHContactGroup {h : UInt32} (hcontact : isHContactContact h = true) : isHContactGroup h = false := by
  have hbit : (h ^^^ HCONTACT_ISGROUP).toNat.testBit 31 = true := by
    rw [UInt32.toNat_xor, Nat.testBit_xor, testBit_31 hcontact]
    decide
  have hle : 2 ^ 31 ≤ (h ^^^ HCONTACT_ISGROUP).toNat := Nat.ge_two_pow_of_testBit hbit
  refine decide_eq_false fun hlt => ?_
  have hlt : (h ^^^ HCONTACT_ISGROUP).toNat < 0x7FFF0000 := hlt
  omega

theorem not_isHContactInfo {h : UInt32} (hcontact : isHContactContact h = true) : isHContactInfo h = false := by
  refine decide_eq_false fun hand => ?_
  have hbit : (h &&& HCONTACT_ISINFO).toNat.testBit 31 = true := by
    rw [hand]
    decide
  rw [UInt32.toNat_and, Nat.testBit_and, testBit_31 hcontact, Bool.false_and] at hbit
  exact Bool.false_ne_true hbit

theorem fnFindItem_contact {hItem : UInt32} (hcontact : isHContactContact hItem = true) (cc : ClcContact)
    : fnFindItem hItem cc = decide (cc = .CLCIT_CONTACT hItem) := by
  cases cc with
  | CLCIT_CONTACT hContact => simp [fnFindItem, hcontact]
  | CLCIT_GROUP groupId szText group => simp [fnFindItem, not_isHContactGroup hcontact]
  | CLCIT_INFO hContact => simp [fnFindItem, not_isHContactInfo hcontact]
  | CLCIT_DIVIDER => simp [fnFindItem]

theorem visitAll_find {hItem : UInt32} (hcontact : isHContactContact hItem = true) (l : List Row)
    : visitAll (visitFind hItem) () l
        =
      match l.find? fun row => row.cc = .CLCIT_CONTACT hItem with
      | some row => .inl row
      | none => .inr () := by
  induction l with
  | nil => rfl
  | cons row l ih =>
    rw [visitAll, visitFind, fnFindItem_contact hcontact, List.find?_cons]
    by_cases hcc : row.cc = .CLCIT_CONTACT hItem
    . rw [decide_eq_true hcc]
      rfl
    . rw [decide_eq_false hcc]
      exact ih

namespace Forest

theorem place_item (groups : Groups) (hItem : UInt32) (p k : Nat) (cc : ClcContact) (rest : Forest)
    : (Forest.item cc rest).place groups hItem p k
        =
      if cc = .CLCIT_CONTACT hItem then some ⟨p, k, cc⟩ else rest.place groups hItem p (k + 1) := by
  rw [place, rows, List.find?_cons]
  by_cases hcc : cc = .CLCIT_CONTACT hItem
  . simp [hcc]
  . simp [hcc, place]

theorem place_group (groups : Groups) (hItem : UInt32) (p k sub : Nat) (groupId : UInt16) (szText : WStr)
    (items rest : Forest)
    : (Forest.group groupId szText sub items rest).place groups hItem p k
        =
      (items.place groups hItem sub 0).or (rest.place groups hItem p (k + 1)) := by
  rw [place, rows, List.find?_cons]
  simp [place, List.find?_append]

theorem place_of_same {groups groups' : Groups} (h : SameTree groups groups') (hItem : UInt32) (p k : Nat) (f : Forest)
    : f.place groups' hItem p k = f.place groups hItem p k := by
  rw [place, place, h.rows]

theorem without_eq_none (groups : Groups) (hideEmpty : Bool) (hItem : UInt32) (p k : Nat) (f : Forest)
    : f.without hideEmpty hItem = none ↔ f.place groups hItem p k = none := by
  induction f generalizing p k with
  | nil => exact ⟨fun _ => rfl, fun _ => rfl⟩
  | item cc rest ih =>
    rw [place_item, without]
    split
    . simp
    . rw [Option.map_eq_none_iff]
      exact ih p (k + 1)
  | group groupId szText sub items rest ihItems ihRest =>
    rw [place_group, without, Option.or_eq_none_iff]
    cases hitems : items.without hideEmpty hItem with
    | some items' =>
      have hplace : items.place groups hItem sub 0 ≠ none := by
        rw [Ne, ← ihItems, hitems]
        exact Option.some_ne_none items'
      constructor
      . intro h
        dsimp only at h
        split at h <;> cases h
      . exact fun h => absurd h.1 hplace
    | none =>
      dsimp only
      rw [Option.map_eq_none_iff, ihRest p (k + 1)]
      exact ⟨fun h => ⟨(ihItems sub 0).mp hitems, h⟩, fun h => h.2⟩

theorem pointers_without {hideEmpty : Bool} {hItem : UInt32} {f f' : Forest} (h : f.without hideEmpty hItem = some f')
    : f'.pointers.Sublist f.pointers := by
  induction f generalizing f' with
  | nil => cases h
  | item cc rest ih =>
    rw [without] at h
    split at h
    . cases h
      exact List.Sublist.refl _
    . obtain ⟨rest', hrest, hf'⟩ := Option.map_eq_some_iff.mp h
      subst hf'
      exact @ih rest' hrest
  | group groupId szText sub items rest ihItems ihRest =>
    rw [without] at h
    cases hitems : items.without hideEmpty hItem with
    | some items' =>
      rw [hitems] at h
      dsimp only at h
      split at h
      . cases h
        exact List.Sublist.cons _ (List.sublist_append_right ..)
      . cases h
        exact ((ihItems hitems).append (List.Sublist.refl _)).cons_cons _
    | none =>
      rw [hitems] at h
      obtain ⟨rest', hrest, rfl⟩ := Option.map_eq_some_iff.mp h
      exact ((List.Sublist.refl _).append (ihRest hrest)).cons_cons _

theorem headersFirst_of_same {groups groups' : Groups} (h : SameTree groups groups') (hideEmpty : Bool)
    (hItem : UInt32) (p k : Nat) (f : Forest)
    : f.HeadersFirst groups' hideEmpty hItem p k ↔ f.HeadersFirst groups hideEmpty hItem p k := by
  induction f generalizing p k with
  | nil => rfl
  | item cc rest ih => exact or_congr Iff.rfl (ih p (k + 1))
  | group groupId szText sub items rest ihItems ihRest =>
    rw [HeadersFirst, HeadersFirst]
    cases items.without hideEmpty hItem with
    | some items' =>
      dsimp only
      rw [ihItems, h.cl, h.groupId]
    | none => exact ihRest p (k + 1)

theorem list_eq_nil {f : Forest} : f.list = [] ↔ f = .nil := by
  cases f with
  | nil => exact ⟨fun _ => rfl, fun _ => rfl⟩
  | item cc rest => simp [list]
  | group groupId szText sub items rest => simp [list]

end Forest

structure Changed (groups groups' : Groups) (counted : Nat) (pointers : List Nat) : Prop where
  fields : ∀ q, ∃ cl, groups' q =
    { groups q with cl := cl, totalMembers := (groups q).totalMembers - if q = counted then 1 else 0 }
  cl : ∀ q, q ∉ pointers → (groups' q).cl = (groups q).cl

namespace Changed

variable {groups groups' : Groups} {counted : Nat} {pointers pointers' : List Nat}

theorem parent (h : Changed groups groups' counted pointers) (q : Nat) : (groups' q).parent = (groups q).parent := by
  obtain ⟨cl, hq⟩ := h.fields q
  rw [hq]

theorem groupId (h : Changed groups groups' counted pointers) (q : Nat)
    : (groups' q).groupId = (groups q).groupId := by
  obtain ⟨cl, hq⟩ := h.fields q
  rw [hq]

theorem mono (h : Changed groups groups' counted pointers) (hsub : ∀ q ∈ pointers, q ∈ pointers')
    : Changed groups groups' counted pointers' :=
  ⟨h.fields, fun q hq => h.cl q fun hmem => hq (hsub q hmem)⟩

theorem erase (h : Changed groups groups' counted pointers) (p k : Nat)
    : Changed groups (groups'.modify p fun g => { g with cl := g.cl.eraseIdx k }) counted (p :: pointers) where
  fields q := by
    by_cases hq : q = p
    . subst hq
      obtain ⟨cl, hcl⟩ := h.fields q
      refine ⟨cl.eraseIdx k, ?_⟩
      rw [Groups.modify, Function.update_self, hcl]
    . rw [Groups.modify, Function.update_of_ne hq]
      exact h.fields q
  cl q hq := by
    rw [List.mem_cons, not_or] at hq
    rw [Groups.modify, Function.update_of_ne hq.1]
    exact h.cl q hq.2

theorem represents (h : Changed groups groups' counted pointers) {f : Forest} {p : Nat}
    (hdisjoint : ∀ q ∈ f.pointers, q ∉ pointers) (hf : Represents groups p f) : Represents groups' p f := by
  induction f generalizing p with
  | nil => trivial
  | item cc rest ih => exact ⟨hf.1, ih hdisjoint hf.2⟩
  | group groupId szText sub items rest ihItems ihRest =>
    obtain ⟨⟨hcl, hparent⟩, hitems, hrest⟩ := hf
    refine ⟨⟨?_, (h.parent sub).trans hparent⟩, ihItems (fun q hq => ?_) hitems, ihRest (fun q hq => ?_) hrest⟩
    . rw [h.cl sub (hdisjoint sub List.mem_cons_self), hcl]
    . exact hdisjoint q (List.mem_cons_of_mem _ (List.mem_append_left _ hq))
    . exact hdisjoint q (List.mem_cons_of_mem _ (List.mem_append_right _ hq))

end Changed

section Remove

variable {style : Style} {hItem : UInt32}

def removeIfEmpty (style : Style) (fuel : Nat) (groups : Groups) (p : Nat) : Option Groups :=
  if style.CLS_HIDEEMPTYGROUPS ∧ (groups p).cl = [] then
    match (groups p).parent with
    | none => some groups
    | some parent =>
      match (groups parent).cl.findIdx? (isHeader (groups p).groupId) with
      | none => some groups
      | some k => Clist_RemoveItemFromGroup style fuel groups parent k false
  else
    some groups

theorem removeIfEmpty_of_not {groups : Groups} {p : Nat} (fuel : Nat)
    (h : ¬(style.CLS_HIDEEMPTYGROUPS ∧ (groups p).cl = [])) : removeIfEmpty style fuel groups p = some groups :=
  if_neg h

theorem remove_contact {groups : Groups} {p k : Nat} (fuel : Nat)
    (hitem : (groups p).cl[k]? = some (.CLCIT_CONTACT hItem))
    : Clist_RemoveItemFromGroup style (fuel + 1) groups p k true
        =
      removeIfEmpty style fuel (groups.modify p fun g =>
        { g with cl := g.cl.eraseIdx k, totalMembers := g.totalMembers - 1 }) p := by
  have htake : groups.modify p (takeItem k true)
      = groups.modify p fun g => { g with cl := g.cl.eraseIdx k, totalMembers := g.totalMembers - 1 } := by
    unfold Groups.modify takeItem
    rw [hitem]
    rfl
  rw [← htake]
  rfl

theorem remove_header {groups : Groups} {p k : Nat} {groupId : Int} {cc : ClcContact} (fuel : Nat)
    (hitem : (groups p).cl[k]? = some cc) (hheader : isHeader groupId cc = true)
    : Clist_RemoveItemFromGroup style (fuel + 1) groups p k false
        =
      removeIfEmpty style fuel (groups.modify p fun g => { g with cl := g.cl.eraseIdx k }) p := by
  cases cc with
  | CLCIT_GROUP id szText group =>
    have htake : groups.modify p (takeItem k false)
        = groups.modify p fun g => { g with cl := g.cl.eraseIdx k } := by
      unfold Groups.modify takeItem
      rw [hitem]
    rw [← htake]
    rfl
  | CLCIT_CONTACT hContact => cases hheader
  | CLCIT_INFO hContact => cases hheader
  | CLCIT_DIVIDER => cases hheader

def Leftover (groups : Groups) (p : Nat) (f f' : Forest) : Prop :=
  ∃ r ∈ p :: f'.pointers, ∃ groupId szText q, .CLCIT_GROUP groupId szText q ∈ (groups r).cl ∧ q ∈ f.pointers ∧
    q ∉ f'.pointers

/--
What the removal at `row` comes to, seen from the group `p` whose items are `before` and those of `f`: if the headers
are found, it still has to look whether `p` is empty, and if they are not it has stopped with one too many.
-/
def RemovedFrom (style : Style) (hItem : UInt32) (groups : Groups) (p : Nat) (before : List ClcContact) (f : Forest)
    (row : Row) : Prop :=
  ∃ f' n groups', f.without style.CLS_HIDEEMPTYGROUPS hItem = some f' ∧
    Changed groups groups' row.group (p :: f.pointers) ∧
    ((f.HeadersFirst groups style.CLS_HIDEEMPTYGROUPS hItem p before.length ∧ Represents groups' p f' ∧
        (groups' p).cl = before ++ f'.list ∧
        ∀ fuel, Clist_RemoveItemFromGroup style (n + fuel) groups row.group row.index true
          = removeIfEmpty style fuel groups' p) ∨
      (¬f.HeadersFirst groups style.CLS_HIDEEMPTYGROUPS hItem p before.length ∧ Leftover groups' p f f' ∧
        ∀ fuel, Clist_RemoveItemFromGroup style (n + fuel) groups row.group row.index true = some groups'))

theorem eraseIdx_length_append (before l : List ClcContact) (cc : ClcContact)
    : (before ++ cc :: l).eraseIdx before.length = before ++ l := by
  rw [List.eraseIdx_append_of_length_le le_rfl, Nat.sub_self]
  rfl

theorem removedFrom_contact {groups : Groups} {p : Nat} {before : List ClcContact} {rest : Forest}
    (hcl : (groups p).cl = before ++ .CLCIT_CONTACT hItem :: rest.list) (hf : Represents groups p rest)
    (hnodup : (p :: rest.pointers).Nodup)
    : RemovedFrom style hItem groups p before (.item (.CLCIT_CONTACT hItem) rest)
        ⟨p, before.length, .CLCIT_CONTACT hItem⟩ := by
  have hitem : (groups p).cl[before.length]? = some (.CLCIT_CONTACT hItem) := by
    rw [hcl, List.getElem?_append_right le_rfl, Nat.sub_self]
    rfl
  have hchanged : Changed groups (groups.modify p fun g =>
      { g with cl := g.cl.eraseIdx before.length, totalMembers := g.totalMembers - 1 }) p [p] := by
    refine ⟨fun q => ?_, fun q hq => ?_⟩
    . by_cases hq : q = p
      . subst hq
        exact ⟨(groups q).cl.eraseIdx before.length, by rw [Groups.modify, Function.update_self, if_pos rfl]⟩
      . exact ⟨(groups q).cl, by rw [Groups.modify, Function.update_of_ne hq, if_neg hq, Int.sub_zero]⟩
    . rw [Groups.modify, Function.update_of_ne (List.ne_of_not_mem_cons hq)]
  refine ⟨rest, 1, _, if_pos rfl, hchanged.mono fun q hq => ?_, .inl ⟨.inl rfl, ?_, ?_, fun fuel => ?_⟩⟩
  . rw [List.mem_singleton.mp hq]
    exact List.mem_cons_self
  . refine hchanged.represents (fun q hq hmem => ?_) hf
    exact (List.nodup_cons.mp hnodup).1 (List.mem_singleton.mp hmem ▸ hq)
  . rw [Groups.modify, Function.update_self]
    dsimp only
    rw [hcl, eraseIdx_length_append]
  . rw [Nat.add_comm]
    exact remove_contact fuel hitem

theorem removedFrom_item {groups : Groups} {p : Nat} {before : List ClcContact} {cc : ClcContact} {rest : Forest}
    {row : Row} (hgroup : cc.group = none) (hcc : cc ≠ .CLCIT_CONTACT hItem)
    (h : RemovedFrom style hItem groups p (before ++ [cc]) rest row)
    : RemovedFrom style hItem groups p before (.item cc rest) row := by
  obtain ⟨rest', n, groups', hwithout, hchanged, h⟩ := h
  have hlength : (before ++ [cc]).length = before.length + 1 := List.length_append
  refine ⟨.item cc rest', n, groups', by rw [Forest.without, if_neg hcc, hwithout]; rfl, hchanged, ?_⟩
  rw [hlength] at h
  rcases h with ⟨hfirst, hrep, hcl, hrun⟩ | ⟨hnot, hleft, hrun⟩
  . refine .inl ⟨.inr hfirst, ⟨hgroup, hrep⟩, ?_, hrun⟩
    rw [hcl, Forest.list, List.append_assoc, List.singleton_append]
  . exact .inr ⟨fun h => hnot (h.resolve_left hcc), hleft, hrun⟩

theorem removedFrom_rest {groups : Groups} {p sub : Nat} {before : List ClcContact} {groupId : UInt16} {szText : WStr}
    {items rest : Forest} {row : Row}
    (hf : Represents groups p (.group groupId szText sub items rest))
    (hnodup : (p :: (Forest.group groupId szText sub items rest).pointers).Nodup)
    (hitems : items.without style.CLS_HIDEEMPTYGROUPS hItem = none)
    (h : RemovedFrom style hItem groups p (before ++ [.CLCIT_GROUP groupId szText sub]) rest row)
    : RemovedFrom style hItem groups p before (.group groupId szText sub items rest) row := by
  obtain ⟨rest', n, groups', hwithout, hchanged, h⟩ := h
  obtain ⟨_, _, hp, hdisjoint⟩ := Forest.nodup_group hnodup
  have hlength : (before ++ [ClcContact.CLCIT_GROUP groupId szText sub]).length = before.length + 1 := List.length_append
  have houtside : ∀ q ∈ sub :: items.pointers, q ∉ p :: rest.pointers := by
    intro q hq hmem
    rcases List.mem_cons.mp hmem with rfl | hmem
    . exact hp hq
    . exact hdisjoint q hq hmem
  refine ⟨.group groupId szText sub items rest', n, groups', ?_, hchanged.mono fun q hq => ?_, ?_⟩
  . rw [Forest.without, hitems, hwithout]
    rfl
  . rcases List.mem_cons.mp hq with rfl | hq
    . exact List.mem_cons_self
    . exact List.mem_cons_of_mem _ (List.mem_cons_of_mem _ (List.mem_append_right _ hq))
  . rw [hlength] at h
    rw [Forest.HeadersFirst, hitems]
    rcases h with ⟨hfirst, hrep, hcl, hrun⟩ | ⟨hnot, ⟨r, hr, id, name, q, hmem, hq, hq'⟩, hrun⟩
    . refine .inl ⟨hfirst, ⟨⟨?_, (hchanged.parent sub).trans hf.1.2⟩, ?_, hrep⟩, ?_, hrun⟩
      . rw [hchanged.cl sub (houtside sub List.mem_cons_self), hf.1.1]
      . exact hchanged.represents (fun q hq => houtside q (List.mem_cons_of_mem _ hq)) hf.2.1
      . rw [hcl, Forest.list, List.append_assoc, List.singleton_append]
    . refine .inr ⟨hnot, ⟨r, ?_, id, name, q, hmem, ?_, fun hpointer => ?_⟩, hrun⟩
      . rcases List.mem_cons.mp hr with rfl | hr
        . exact List.mem_cons_self
        . exact List.mem_cons_of_mem _ (List.mem_cons_of_mem _ (List.mem_append_right _ hr))
      . exact List.mem_cons_of_mem _ (List.mem_append_right _ hq)
      . rw [Forest.pointers, ← List.cons_append, List.mem_append] at hpointer
        rcases hpointer with hpointer | hpointer
        . exact hdisjoint q hpointer hq
        . exact hq' hpointer

theorem removedFrom_items {groups : Groups} {p sub : Nat} {before : List ClcContact} {groupId : UInt16} {szText : WStr}
    {items items' rest : Forest} {row : Row}
    (hcl : (groups p).cl = before ++ .CLCIT_GROUP groupId szText sub :: rest.list)
    (hf : Represents groups p (.group groupId szText sub items rest))
    (hnodup : (p :: (Forest.group groupId szText sub items rest).pointers).Nodup)
    (hitems : items.without style.CLS_HIDEEMPTYGROUPS hItem = some items')
    (hkeep : ¬(style.CLS_HIDEEMPTYGROUPS ∧ items' = .nil))
    (h : RemovedFrom style hItem groups sub [] items row)
    : RemovedFrom style hItem groups p before (.group groupId szText sub items rest) row := by
  obtain ⟨items'', n, groups', hwithout, hchanged, h⟩ := h
  obtain rfl : items' = items'' := Option.some.inj (hitems.symm.trans hwithout)
  obtain ⟨hnodupItems, _, hp, hdisjoint⟩ := Forest.nodup_group hnodup
  have hclp : (groups' p).cl = before ++ .CLCIT_GROUP groupId szText sub :: rest.list := (hchanged.cl p hp).trans hcl
  refine ⟨.group groupId szText sub items' rest, n, groups', ?_, hchanged.mono fun q hq => ?_, ?_⟩
  . rw [Forest.without, hitems]
    exact if_neg hkeep
  . exact List.mem_cons_of_mem _ (List.mem_append_left _ hq)
  . rw [Forest.HeadersFirst, hitems]
    rcases h with ⟨hfirst, hrep, hclSub, hrun⟩ | ⟨hnot, ⟨r, hr, id, name, q, hmem, hq, hq'⟩, hrun⟩
    . refine .inl ⟨⟨hfirst, fun h => absurd h hkeep⟩, ⟨⟨hclSub, (hchanged.parent sub).trans hf.1.2⟩, hrep, ?_⟩, hclp, ?_⟩
      . exact hchanged.represents (fun q hq hmem => hdisjoint q hmem hq) hf.2.2
      . intro fuel
        rw [hrun, removeIfEmpty_of_not fuel, removeIfEmpty_of_not fuel]
        . rw [hclp]
          simp
        . rw [hclSub, List.nil_append, Forest.list_eq_nil]
          exact hkeep
    . refine .inr ⟨fun h => hnot h.1, ⟨r, ?_, id, name, q, hmem, ?_, fun hpointer => ?_⟩, hrun⟩
      . rw [Forest.pointers, ← List.cons_append]
        exact List.mem_cons_of_mem _ (List.mem_append_left _ hr)
      . exact List.mem_cons_of_mem _ (List.mem_append_left _ hq)
      . rw [Forest.pointers, ← List.cons_append, List.mem_append, List.mem_cons] at hpointer
        rcases hpointer with (rfl | hpointer) | hpointer
        . exact (List.nodup_cons.mp hnodupItems).1 hq
        . exact hq' hpointer
        . exact hdisjoint q (List.mem_cons_of_mem _ hq) hpointer

theorem removedFrom_emptied {groups : Groups} {p sub : Nat} {before : List ClcContact} {groupId : UInt16}
    {szText : WStr} {items rest : Forest} {row : Row}
    (hcl : (groups p).cl = before ++ .CLCIT_GROUP groupId szText sub :: rest.list)
    (hf : Represents groups p (.group groupId szText sub items rest))
    (hnodup : (p :: (Forest.group groupId szText sub items rest).pointers).Nodup)
    (hitems : items.without style.CLS_HIDEEMPTYGROUPS hItem = some .nil) (hhide : style.CLS_HIDEEMPTYGROUPS = true)
    (h : RemovedFrom style hItem groups sub [] items row)
    : RemovedFrom style hItem groups p before (.group groupId szText sub items rest) row := by
  obtain ⟨items', n, groups', hwithout, hchanged, h⟩ := h
  obtain rfl : Forest.nil = items' := Option.some.inj (hitems.symm.trans hwithout)
  obtain ⟨_, hnodupRest, hp, hdisjoint⟩ := Forest.nodup_group hnodup
  have hclp : (groups' p).cl = before ++ .CLCIT_GROUP groupId szText sub :: rest.list := (hchanged.cl p hp).trans hcl
  have hwithout' : (Forest.group groupId szText sub items rest).without style.CLS_HIDEEMPTYGROUPS hItem
      = some rest := by
    rw [Forest.without, hitems]
    exact if_pos ⟨hhide, rfl⟩
  have hsub : sub ∉ rest.pointers := hdisjoint sub List.mem_cons_self
  have hleft : ∀ groups'' : Groups, .CLCIT_GROUP groupId szText sub ∈ (groups'' p).cl →
      Leftover groups'' p (.group groupId szText sub items rest) rest :=
    fun groups'' hmem => ⟨p, List.mem_cons_self, groupId, szText, sub, hmem, List.mem_cons_self, hsub⟩
  have hmem : ClcContact.CLCIT_GROUP groupId szText sub ∈ (groups' p).cl := by
    rw [hclp]
    exact List.mem_append_right _ List.mem_cons_self
  have hpointers : ∀ q ∈ sub :: items.pointers, q ∈ (Forest.group groupId szText sub items rest).pointers :=
    fun q hq => List.mem_append_left rest.pointers hq
  rcases h with ⟨hfirst, -, hclSub, hrun⟩ | ⟨hnot, -, hrun⟩
  . have hstep : ∀ fuel, Clist_RemoveItemFromGroup style (n + fuel) groups row.group row.index true
        =
      match (groups p).cl.findIdx? (isHeader (groups sub).groupId) with
      | none => some groups'
      | some k => Clist_RemoveItemFromGroup style fuel groups' p k false := by
      intro fuel
      rw [hrun, removeIfEmpty, if_pos ⟨hhide, hclSub⟩, hchanged.parent, hf.1.2, hchanged.groupId]
      dsimp only
      rw [hchanged.cl p hp]
    cases hidx : (groups p).cl.findIdx? (isHeader (groups sub).groupId) with
    | none =>
      refine ⟨rest, n, groups', hwithout', hchanged.mono fun q hq => List.mem_cons_of_mem _ (hpointers q hq),
        .inr ⟨?_, hleft groups' hmem, fun fuel => ?_⟩⟩
      . rw [Forest.HeadersFirst, hitems, hidx]
        exact fun h => Option.some_ne_none _ (h.2 ⟨hhide, rfl⟩).symm
      . rw [hstep, hidx]
    | some k =>
      obtain ⟨hlt, hheader, _⟩ := List.findIdx?_eq_some_iff_getElem.mp hidx
      have hitem : (groups' p).cl[k]? = some (groups p).cl[k] := by
        rw [hchanged.cl p hp]
        exact List.getElem?_eq_getElem hlt
      have hrun' : ∀ fuel, Clist_RemoveItemFromGroup style (n + 1 + fuel) groups row.group row.index true
          = removeIfEmpty style fuel (groups'.modify p fun g => { g with cl := g.cl.eraseIdx k }) p := by
        intro fuel
        rw [Nat.add_assoc, Nat.add_comm 1, hstep, hidx]
        exact remove_header fuel hitem hheader
      refine ⟨rest, n + 1, _, hwithout', (hchanged.erase p k).mono fun q hq => ?_, ?_⟩
      . rcases List.mem_cons.mp hq with rfl | hq
        . exact List.mem_cons_self
        . exact List.mem_cons_of_mem _ (hpointers q hq)
      . by_cases hk : k = before.length
        . subst hk
          refine .inl ⟨?_, ?_, ?_, hrun'⟩
          . rw [Forest.HeadersFirst, hitems]
            exact ⟨hfirst, fun _ => hidx⟩
          . refine (hchanged.erase p _).represents (fun q hq hmem => ?_) hf.2.2
            rcases List.mem_cons.mp hmem with rfl | hmem
            . exact (List.nodup_cons.mp hnodupRest).1 hq
            . exact hdisjoint q hmem hq
          . rw [Groups.modify, Function.update_self]
            dsimp only
            rw [hclp, eraseIdx_length_append]
        . have hmem' : ClcContact.CLCIT_GROUP groupId szText sub
              ∈ (groups'.modify p (fun g => { g with cl := g.cl.eraseIdx k }) p).cl := by
            rw [Groups.modify, Function.update_self]
            refine List.mem_eraseIdx_iff_getElem?.mpr ⟨before.length, Ne.symm hk, ?_⟩
            rw [hclp, List.getElem?_append_right le_rfl, Nat.sub_self]
            rfl
          refine .inr ⟨?_, hleft _ hmem', fun fuel => ?_⟩
          . rw [Forest.HeadersFirst, hitems, hidx]
            exact fun h => hk (Option.some.inj (h.2 ⟨hhide, rfl⟩))
          . rw [hrun']
            exact removeIfEmpty_of_not fuel fun h => List.ne_nil_of_mem hmem' h.2
  . refine ⟨rest, n, groups', hwithout', hchanged.mono fun q hq => List.mem_cons_of_mem _ (hpointers q hq),
      .inr ⟨?_, hleft groups' hmem, hrun⟩⟩
    rw [Forest.HeadersFirst, hitems]
    exact fun h => hnot h.1

theorem removedFrom_forest {groups : Groups} {p : Nat} {before : List ClcContact} {f : Forest} {row : Row}
    (hcl : (groups p).cl = before ++ f.list) (hf : Represents groups p f) (hnodup : (p :: f.pointers).Nodup)
    (hplace : f.place groups hItem p before.length = some row)
    : RemovedFrom style hItem groups p before f row := by
  induction f generalizing p before with
  | nil => cases hplace
  | item cc rest ih =>
    rw [Forest.place_item] at hplace
    split at hplace
    next hcc =>
      subst hcc
      cases hplace
      exact removedFrom_contact hcl hf.2 hnodup
    next hcc =>
      refine removedFrom_item hf.1 hcc (ih ?_ hf.2 hnodup ?_)
      . rw [hcl, Forest.list, List.append_assoc, List.singleton_append]
      . rw [List.length_append]
        exact hplace
  | group groupId szText sub items rest ihItems ihRest =>
    rw [Forest.place_group] at hplace
    obtain ⟨hnodupItems, hnodupRest, _, _⟩ := Forest.nodup_group hnodup
    cases hitems : items.place groups hItem sub 0 with
    | none =>
      rw [hitems, Option.none_or] at hplace
      refine removedFrom_rest hf hnodup ((Forest.without_eq_none groups _ hItem sub 0 items).mpr hitems)
        (ihRest ?_ hf.2.2 hnodupRest ?_)
      . rw [hcl, Forest.list, List.append_assoc, List.singleton_append]
      . rw [List.length_append]
        exact hplace
    | some row' =>
      rw [hitems, Option.some_or] at hplace
      cases hplace
      have hinner := @ihItems sub [] hf.1.1 hf.2.1 hnodupItems hitems
      obtain ⟨items', _, _, hwithout, _⟩ := hinner
      by_cases hempty : style.CLS_HIDEEMPTYGROUPS ∧ items' = .nil
      . obtain ⟨hhide, rfl⟩ := hempty
        exact removedFrom_emptied hcl hf hnodup hwithout hhide (ihItems hf.1.1 hf.2.1 hnodupItems hitems)
      . exact removedFrom_items hcl hf hnodup hwithout hempty (ihItems hf.1.1 hf.2.1 hnodupItems hitems)

end Remove

theorem pointer_of_list {groups : Groups} {p q : Nat} {f : Forest} {groupId : UInt16} {szText : WStr}
    (hf : Represents groups p f) (h : .CLCIT_GROUP groupId szText q ∈ f.list) : q ∈ f.pointers := by
  induction f with
  | nil => cases h
  | item cc rest ih =>
    rcases List.mem_cons.mp h with rfl | h
    . cases hf.1
    . exact ih hf.2 h
  | group _ _ sub items rest _ ihRest =>
    rcases List.mem_cons.mp h with h | h
    . cases h
      exact List.mem_cons_self
    . exact List.mem_cons_of_mem _ (List.mem_append_right _ (ihRest hf.2.2 h))

theorem pointer_of_header {groups : Groups} {p q r : Nat} {f : Forest} {groupId : UInt16} {szText : WStr}
    (hf : Represents groups p f) (hr : r ∈ f.pointers) (h : .CLCIT_GROUP groupId szText q ∈ (groups r).cl)
    : q ∈ f.pointers := by
  induction f generalizing p with
  | nil => cases hr
  | item cc rest ih => exact ih hf.2 hr
  | group _ _ sub items rest ihItems ihRest =>
    rcases List.mem_cons.mp hr with rfl | hr
    . rw [hf.1.1] at h
      exact List.mem_cons_of_mem _ (List.mem_append_left _ (pointer_of_list hf.2.1 h))
    . rcases List.mem_append.mp hr with hr | hr
      . exact List.mem_cons_of_mem _ (List.mem_append_left _ (ihItems hf.2.1 hr))
      . exact List.mem_cons_of_mem _ (List.mem_append_right _ (ihRest hf.2.2 hr))

theorem IsTree.no_leftover {groups : Groups} {f f' : Forest} (htree : IsTree groups f') : ¬Leftover groups 0 f f' := by
  rintro ⟨r, hr, groupId, szText, q, hmem, -, hq⟩
  rcases List.mem_cons.mp hr with rfl | hr
  . rw [htree.cl] at hmem
    exact hq (pointer_of_list htree.represents hmem)
  . exact hq (pointer_of_header htree.represents hr hmem)

theorem SameTree.removed {groups groups' : Groups} (h : SameTree groups groups') : Removed groups groups' none := by
  refine ⟨fun q => ?_⟩
  obtain ⟨i, hi⟩ := h q
  exact ⟨(groups q).cl, i, by rw [hi]; simp⟩

section Delete

variable {style : Style} {Clist_GetGroup : UInt32 → Option WStr} {groups groups' : Groups} {f : Forest}
  {hItem : UInt32}

theorem deletes_iff_of_run {n : Nat}
    (hrun : ∀ fuel, Clist_DeleteItemFromTree style Clist_GetGroup (n + fuel) groups hItem = .finished () groups')
    : Deletes style Clist_GetGroup groups f hItem ↔ DeletedFrom style Clist_GetGroup groups groups' f hItem := by
  constructor
  . rintro ⟨m, groups'', hrun', hdeleted⟩
    have hsame := (hrun m).symm.trans ((congrArg (fun fuel =>
      Clist_DeleteItemFromTree style Clist_GetGroup fuel groups hItem) (Nat.add_comm n m)).trans (hrun' n))
    cases hsame
    exact hdeleted
  . exact fun h => ⟨n, groups', hrun, h⟩

theorem delete_hidden (htree : IsTree groups f) (hcontact : isHContactContact hItem = true)
    (hplace : f.place groups hItem 0 0 = none)
    : ∃ n groups', SameTree groups groups' ∧
        ∀ fuel, Clist_DeleteItemFromTree style Clist_GetGroup (n + fuel) groups hItem = .finished () groups' := by
  have hscan := scan_tree true none (visitFind hItem) () htree (.inl rfl)
  unfold Forest.place at hplace
  rw [visitAll_find hcontact, hplace] at hscan
  obtain ⟨n, groups', hsame, hend, hscan⟩ := hscan
  refine ⟨n + 1, groups', hsame, fun fuel => ?_⟩
  unfold Clist_DeleteItemFromTree Clist_FindItem
  rw [Nat.add_assoc, hscan]
  dsimp only
  rw [if_pos hcontact]
  cases Clist_GetGroup hItem with
  | none => rfl
  | some wszGroup =>
    dsimp only
    rw [show n + (1 + fuel) = n + fuel + 1 by omega]
    unfold decreaseCounts
    rw [if_pos (by rw [hend, hsame.cl])]

theorem not_deletes_hidden (htree : IsTree groups f) (hcontact : isHContactContact hItem = true)
    (hplace : f.place groups hItem 0 0 = none) {counted : Nat}
    (hcounted : countedIn style groups (Clist_GetGroup hItem) = some counted)
    : ¬Deletes style Clist_GetGroup groups f hItem := by
  obtain ⟨n, groups', hsame, hrun⟩ := delete_hidden htree hcontact hplace
  rw [deletes_iff_of_run hrun, DeletedFrom, hplace]
  rintro ⟨hremoved, -⟩
  obtain ⟨cl, i, hchanged⟩ := hremoved.changed counted
  obtain ⟨j, hj⟩ := hsame counted
  rw [hcounted, if_pos rfl, hj] at hchanged
  have hmembers : (groups counted).totalMembers = (groups counted).totalMembers - 1 :=
    congrArg ClcGroup.totalMembers hchanged
  omega

theorem deletes_shown_iff (htree : IsTree groups f) (hcontact : isHContactContact hItem = true) {row : Row}
    (hplace : f.place groups hItem 0 0 = some row)
    : Deletes style Clist_GetGroup groups f hItem
        ↔
      f.HeadersFirst groups style.CLS_HIDEEMPTYGROUPS hItem 0 0 := by
  have hscan := scan_tree true none (visitFind hItem) () htree (.inl rfl)
  have hfind := hplace
  unfold Forest.place at hfind
  rw [visitAll_find hcontact, hfind] at hscan
  obtain ⟨n, groups₁, hsame, hscan⟩ := hscan
  have htree₁ := hsame.isTree htree
  have hplace₁ : f.place groups₁ hItem 0 0 = some row := (Forest.place_of_same hsame hItem 0 0 f).trans hplace
  obtain ⟨f', m, groups', hwithout, hchanged, h⟩ := @removedFrom_forest style hItem groups₁ 0 [] f row
    htree₁.cl htree₁.represents htree₁.nodup hplace₁
  rw [List.length_nil, Forest.headersFirst_of_same hsame] at h
  have hremoved : Removed groups groups' (some row.group) := by
    refine ⟨fun q => ?_⟩
    obtain ⟨cl, hq⟩ := hchanged.fields q
    obtain ⟨i, hi⟩ := hsame q
    refine ⟨cl, i, ?_⟩
    rw [hq, hi]
    simp only [Option.some.injEq, eq_comm]
  have hdelete : ∀ k, (∀ fuel, Clist_RemoveItemFromGroup style (k + fuel) groups₁ row.group row.index true
        = some groups') → ∀ fuel,
      Clist_DeleteItemFromTree style Clist_GetGroup (n + k + fuel) groups hItem = .finished () groups' := by
    intro k hrun fuel
    unfold Clist_DeleteItemFromTree Clist_FindItem
    rw [Nat.add_assoc, hscan]
    dsimp only
    rw [show n + (k + fuel) = k + (n + fuel) by omega, hrun]
  have hroot : (groups' 0).parent = none := (hchanged.parent 0).trans htree₁.parent
  rcases h with ⟨hfirst, hrep, hcl, hrun⟩ | ⟨hnot, hleft, hrun⟩
  . refine iff_of_true ?_ hfirst
    have hdone : ∀ fuel, Clist_RemoveItemFromGroup style (m + fuel) groups₁ row.group row.index true
        = some groups' := by
      intro fuel
      rw [hrun, removeIfEmpty, hroot]
      exact ite_self _
    rw [deletes_iff_of_run (hdelete m hdone), DeletedFrom, hplace]
    exact ⟨hremoved, f', hwithout, hcl, hroot, hrep,
      ((Forest.pointers_without hwithout).cons_cons 0).nodup htree.nodup⟩
  . refine iff_of_false ?_ hnot
    rw [deletes_iff_of_run (hdelete m hrun), DeletedFrom, hplace]
    rintro ⟨-, f'', hwithout', htree'⟩
    obtain rfl : f' = f'' := Option.some.inj (hwithout.symm.trans hwithout')
    exact htree'.no_leftover hleft

/--
The removal is right for a shown contact if each group it leaves empty has the first header with its id. For one that
is not shown it is right only if no group counts it.
-/
theorem deletes_iff (htree : IsTree groups f) (hcontact : isHContactContact hItem = true)
    : Deletes style Clist_GetGroup groups f hItem
        ↔
      match f.place groups hItem 0 0 with
      | some _ => f.HeadersFirst groups style.CLS_HIDEEMPTYGROUPS hItem 0 0
      | none => countedIn style groups (Clist_GetGroup hItem) = none := by
  cases hplace : f.place groups hItem 0 0 with
  | some row => exact deletes_shown_iff htree hcontact hplace
  | none =>
    dsimp only
    constructor
    . intro hdeletes
      by_contra hcounted
      obtain ⟨counted, hcounted⟩ := Option.ne_none_iff_exists'.mp hcounted
      exact not_deletes_hidden htree hcontact hplace hcounted hdeletes
    . intro hcounted
      obtain ⟨n, groups', hsame, hrun⟩ := delete_hidden htree hcontact hplace
      rw [deletes_iff_of_run hrun, DeletedFrom, hplace]
      exact ⟨hcounted ▸ hsame.removed, hsame.isTree htree⟩

end Delete

def oneMember (cl : List ClcContact) : Groups :=
  Function.update (Function.update (fun _ => {}) 0 { cl := [.CLCIT_GROUP 1 (lit "Friends") 1], bExpanded := true }) 1
    { cl := cl, groupId := 1, parent := some 0, totalMembers := 1 }

theorem deletes_iff_oneMember
    : Deletes ⟨true, true⟩ (fun _ => some (lit "Friends")) (oneMember [.CLCIT_CONTACT 5])
        (.group 1 (lit "Friends") 1 (.item (.CLCIT_CONTACT 5) .nil) .nil) 5 := by
  have htree : IsTree (oneMember [.CLCIT_CONTACT 5])
      (.group 1 (lit "Friends") 1 (.item (.CLCIT_CONTACT 5) .nil) .nil) :=
    ⟨rfl, rfl, ⟨⟨rfl, rfl⟩, ⟨rfl, trivial⟩, trivial⟩, by decide⟩
  exact (deletes_iff htree (by decide)).mpr ⟨.inl rfl, fun _ => by decide⟩

-- The contact is offline and not shown, and stays counted when it is deleted.
theorem not_deletes_oneMember
    : ¬∀ (style : Style) (Clist_GetGroup : UInt32 → Option WStr) (groups : Groups) (f : Forest) (hItem : UInt32),
        IsTree groups f → isHContactContact hItem = true → Deletes style Clist_GetGroup groups f hItem := by
  intro h
  have htree : IsTree (oneMember []) (.group 1 (lit "Friends") 1 .nil .nil) :=
    ⟨rfl, rfl, ⟨⟨rfl, rfl⟩, trivial, trivial⟩, by decide⟩
  have hcounted : countedIn ⟨false, true⟩ (oneMember []) (some (lit "Friends")) = some 1 := by decide
  exact not_deletes_hidden htree (by decide) (by decide) hcounted
    (h ⟨false, true⟩ (fun _ => some (lit "Friends")) _ _ 5 htree (by decide))

end ClcTree
