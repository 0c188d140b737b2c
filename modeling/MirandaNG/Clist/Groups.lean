import MirandaNG.Core.ListItems
import MirandaNG.Core.SortedList
import MirandaNG.Data.WStr

/-!
This module contains the groups of the contact list. A group is known by its number and by its full
path name, and there is a sorted list for each.
-/

namespace Clist

open WStr (backslash)

def GROUPF_EXPANDED : UInt32 := 0x04

def MAX_GROUPNAME_LEN : Nat := 256

structure CGroupInternal where
  groupId : Int
  oldId : Int := -1
  flags : UInt32
  ignore : UInt32 := 0
  bSaveExpanded : Bool
  groupName : WStr

def CGroupInternal.new (id : Int) (name : WStr) (flags : UInt32) : CGroupInternal where
  groupId := id
  flags := flags
  bSaveExpanded := flags &&& GROUPF_EXPANDED != 0
  groupName := name

structure Setting where
  name : WStr
  flags : UInt32
  ignore : UInt32

structure Contact where
  group : Option WStr
  tszGroup : Option WStr

namespace Contact

def GetGroup (c : Contact) : Option WStr := c.group.filter fun name => name.wcslen != 0

def SetGroup (c : Contact) (name : WStr) : Contact :=
  if name.wcslen = 0 then
    if c.group.isSome then { group := none, tszGroup := none } else c
  else
    { group := some name, tszGroup := some name }

def checked (c : Contact) : Contact := { c with tszGroup := c.tszGroup <|> c.GetGroup }

end Contact

-- The groups are named by their addresses; `next` is where the next one is allocated.
structure Groups where
  mem : Nat → CGroupInternal
  next : Nat
  arByIds : List Nat
  arByName : List Nat
  settings : Int → Option Setting
  contacts : List Contact

def numericKey (i : Int) : Nat := (i % 2 ^ 32).toNat

def isParentOf (pParent p : WStr) : Bool :=
  p.chars.take pParent.wcslen = pParent.chars &&
    (p.chars[pParent.wcslen]? = none || p.chars[pParent.wcslen]? = some backslash)

-- The test of the loop that renames the subgroups: it leaves out what is two levels below.
def isChildOf (oldName p : WStr) : Bool :=
  p.chars.take oldName.wcslen = oldName.chars && p.chars[oldName.wcslen]? = some backslash &&
    !(p.chars.drop (oldName.wcslen + 1)).contains backslash

def joinPath (n : Nat) (path name : WStr) : WStr := (path ++ .lit "\\" ++ name).truncate n

namespace Groups

def NumericKeySort (st : Groups) (p1 p2 : Nat) : Int :=
  KeySort numericKey (st.mem p1).groupId (st.mem p2).groupId

def CompareGrpByName (st : Groups) (p1 p2 : Nat) : Int :=
  WStr.wcscmp (st.mem p1).groupName (st.mem p2).groupName

def FindGroup (st : Groups) (key : Int) : Option Nat :=
  ListItems.find (fun p => KeySort numericKey (st.mem p).groupId key) st.arByIds

def FindGroupByName (st : Groups) (name : WStr) : Option Nat :=
  ListItems.find (fun p => WStr.wcscmp (st.mem p).groupName name) st.arByName

def GroupExists (st : Groups) (name : WStr) : Int :=
  match st.FindGroupByName name with
  | some p => (st.mem p).groupId + 1
  | none => 0

def modify (st : Groups) (p : Nat) (f : CGroupInternal → CGroupInternal) : Groups :=
  { st with mem := Function.update st.mem p (f (st.mem p)) }

def save (st : Groups) (p : Nat) : Groups :=
  { st with
    settings := Function.update st.settings (st.mem p).groupId
      (some ⟨(st.mem p).groupName, (st.mem p).flags, (st.mem p).ignore⟩) }

def insertById (st : Groups) (p : Nat) : Groups :=
  { st with arByIds := ListItems.insert st.NumericKeySort st.arByIds p }

def removeById (st : Groups) (p : Nat) : Groups :=
  { st with arByIds := ListItems.remove st.NumericKeySort st.arByIds p }

def insertByName (st : Groups) (p : Nat) : Groups :=
  { st with arByName := ListItems.insert st.CompareGrpByName st.arByName p }

def removeByName (st : Groups) (p : Nat) : Groups :=
  { st with arByName := ListItems.remove st.CompareGrpByName st.arByName p }

def new (st : Groups) (group : CGroupInternal) : Groups :=
  { st with mem := Function.update st.mem st.next group, next := st.next + 1 }

def addGroup (st : Groups) (newName : WStr) : Int × Groups :=
  let newId : Int := st.arByIds.length
  let pNew := st.next
  let st := st.new (.new newId newName GROUPF_EXPANDED)
  (newId + 1, ((st.insertById pNew).insertByName pNew).save pNew)

-- The loop that looks for a name that is not in use; `fuel` is how often `idCopy` can be counted up.
def freeName (st : Groups) (newBaseName : WStr) : Nat → Nat → WStr → Option WStr
  | 0, _, _ => none
  | fuel + 1, idCopy, newName =>
    if st.GroupExists newName = 0 then
      some newName
    else
      freeName st newBaseName fuel (idCopy + 1)
        ((newBaseName ++ .lit " (" ++ .decimal idCopy ++ .lit ")").truncate (MAX_GROUPNAME_LEN - 1))

def newBaseName (st : Groups) (hParent : Int) (grpName : WStr) : Option WStr :=
  if hParent ≠ 0 then
    (st.FindGroup (hParent - 1)).map fun p =>
      joinPath (MAX_GROUPNAME_LEN - 2) (st.mem p).groupName grpName
  else
    some (grpName.truncate (MAX_GROUPNAME_LEN - 2))

def CreateGroupInternal (newGroup : WStr) (st : Groups) (hParent : Int) (ptszName : Option WStr)
    : Int × Groups :=
  match st.newBaseName hParent (ptszName.getD newGroup), ptszName with
  | none, _ => (0, st)
  | some newBaseName, some _ =>
    if st.GroupExists newBaseName ≠ 0 then
      (st.GroupExists newBaseName, st)
    else
      st.addGroup (newBaseName.truncate (MAX_GROUPNAME_LEN - 2))
  | some newBaseName, none =>
    match st.freeName newBaseName (2 ^ 31) 1 (newBaseName.truncate (MAX_GROUPNAME_LEN - 2)) with
    | some newName => st.addGroup newName
    | none => (0, st) -- the loop is not left, and nothing has changed

def GroupCreate (newGroup : WStr) (st : Groups) (hParent : Int) (ptszGroupName : Option WStr)
    : Int × Groups :=
  match ptszGroupName with
  | none => st.CreateGroupInternal newGroup hParent none
  | some name =>
    if name.chars.head? = none ∨ name.chars.head? = some backslash then
      (0, st)
    else
      let st := name.parents.foldl
        (fun st path => (st.CreateGroupInternal newGroup hParent (some path)).2) st
      st.CreateGroupInternal newGroup hParent (some name)

def demote (wszOldName wszNewParent : WStr) (c : Contact) : Contact :=
  match c.GetGroup with
  | some name => if isParentOf wszOldName name then c.SetGroup wszNewParent else c
  | none => c

def keepIds (st : Groups) : List Nat → Groups
  | [] => st
  | p :: ps => keepIds (st.modify p fun group => { group with oldId := group.groupId }) ps

def removeAt (st : Groups) (i p : Nat) : Groups :=
  let st := st.removeByName p
  { st with arByIds := st.arByIds.eraseIdx i }

def removeGroups (wszOldName : WStr) : Nat → Nat × Groups → Nat × Groups
  | 0, r => r
  | i + 1, (iGap, st) =>
    match st.arByIds[i]? with
    | none => removeGroups wszOldName i (iGap, st)
    | some p =>
      if isParentOf wszOldName (st.mem p).groupName then
        removeGroups wszOldName i (iGap + 1, st.removeAt i p)
      else
        removeGroups wszOldName i (iGap, st)

def saveMoved (st : Groups) (p : Nat) : Groups :=
  if (st.mem p).groupId ≠ (st.mem p).oldId then st.save p else st

def renumber : List Nat → Nat → Groups → Groups
  | [], _, st => st
  | p :: ps, i, st =>
    renumber ps (i + 1) ((st.modify p fun group => { group with groupId := i }).saveMoved p)

def unsetSettings (st : Groups) (iGap : Nat) : Groups :=
  { st with
    settings := fun i =>
      if st.arByIds.length ≤ i ∧ i < st.arByIds.length + iGap then none else st.settings i }

def GroupDelete (st : Groups) (hGroup : Int) (bSilent bConfirmDelete isYes : Bool) : Int × Groups :=
  match st.FindGroup (hGroup - 1) with
  | none => (1, st)
  | some p =>
    if !bSilent && bConfirmDelete && !isYes then
      (1, st)
    else
      let wszOldName := (st.mem p).groupName
      let wszNewParent := wszOldName.parent.getD (.lit "")
      let st := { st with contacts := st.contacts.map (demote wszOldName wszNewParent) }
      let st := st.keepIds st.arByIds
      let (iGap, st) := removeGroups wszOldName st.arByIds.length (0, st)
      let st := renumber st.arByIds 0 st
      (0, st.unsetSettings iGap)

def shuffle (shuffleStep : Int) : List Nat → Groups → Groups
  | [], st => st
  | p :: ps, st =>
    shuffle shuffleStep ps
      ((st.modify p fun group => { group with groupId := group.groupId - shuffleStep }).save p)

def moveGroup (st : Groups) (p : Nat) (shuffleFrom shuffleTo shuffleStep hGroupBefore : Int)
    : Int × Groups :=
  let st := st.removeById p
  let shuffled := (st.arByIds.take shuffleTo.toNat).drop shuffleFrom.toNat
  let st := shuffle shuffleStep shuffled st
  let st := st.modify p fun group => { group with groupId := hGroupBefore }
  (hGroupBefore + 1, (st.save p).insertById p)

def GroupMoveBefore (st : Groups) (hGroup hGroupBefore : Int) : Int × Groups :=
  if hGroup = 0 ∨ hGroup = hGroupBefore then
    (0, st)
  else
    match st.FindGroup (hGroup - 1) with
    | none => (0, st)
    | some p =>
      if hGroupBefore = 0 then
        st.moveGroup p (hGroup - 1) (st.arByIds.length - 1) 1 (st.arByIds.length - 1)
      else if (st.FindGroup (hGroupBefore - 1)).isNone then
        (0, st)
      else if hGroup - 1 < hGroupBefore - 1 then
        st.moveGroup p (hGroup - 1) (hGroupBefore - 2) 1 (hGroupBefore - 2)
      else
        st.moveGroup p (hGroupBefore - 1) (hGroup - 1) (-1) (hGroupBefore - 1)

def renameGroup (st : Groups) (p : Nat) (szName : WStr) : Groups :=
  let st := st.removeByName p
  let st := st.modify p fun group => { group with groupName := szName.truncate 255 }
  (st.save p).insertByName p

def renameContact (oldName szName : WStr) (c : Contact) : Contact :=
  let c := c.checked
  if c.tszGroup = some oldName then { c.SetGroup szName with tszGroup := some szName } else c

def moveBehindParent (st : Groups) (groupId : Int) (szName : WStr) : Groups :=
  match (szName.truncate 255).parent with
  | none => st
  | some path =>
    match st.arByIds.findIdx? fun p => (st.mem p).groupName = path with
    | none => st
    | some i => if groupId ≤ i then (st.GroupMoveBefore (groupId + 1) (i + 2)).2 else st

def renameSubgroup (rename : Groups → Int → WStr → Groups) (groupId : Int) (oldName szName : WStr)
    (st : Groups) (i : Nat)
    : Groups :=
  match st.arByIds[i]? with
  | none => st
  | some p =>
    if i ≠ groupId ∧ isChildOf oldName (st.mem p).groupName then
      rename st i (joinPath 255 szName ((st.mem p).groupName.skip (oldName.wcslen + 1)))
    else
      st

def renameFirst (st : Groups) (p : Nat) (szName : WStr) : Groups :=
  let renamed := st.renameGroup p szName
  { renamed with
    contacts := renamed.contacts.map (renameContact (st.mem p).groupName szName) }

def renameSubgroups (rename : Groups → Int → WStr → Groups) (st : Groups) (p : Nat) (groupId : Int)
    (szName : WStr) (n : Nat)
    : Groups :=
  (List.range n).foldl (renameSubgroup rename groupId (st.mem p).groupName szName)
    (st.renameFirst p szName)

-- The names of the groups get longer from call to call, so `fuel` levels of calls are enough when no
-- name is longer.
def RenameGroupWithMove : Nat → Groups → Int → WStr → Bool → Int × Groups
  | 0, st, _, _, _ => (0, st)
  | fuel + 1, st, groupId, szName, move =>
    if st.GroupExists szName ≠ 0 ∧ st.GroupExists szName ≠ groupId then
      (1, st)
    else
      match st.FindGroup groupId with
      | none => (0, st)
      | some p =>
        let st := renameSubgroups
          (fun st i name => (RenameGroupWithMove fuel st i name false).2) st p groupId szName
          st.arByIds.length
        (0, if move then st.moveBehindParent groupId szName else st)

def longestName (st : Groups) : Nat :=
  (st.arByIds.map fun p => (st.mem p).groupName.wcslen).foldr max 255

def GroupRename (st : Groups) (hGroup : Int) (ptszNewName : WStr) : Bool × Groups :=
  let (result, st) :=
    RenameGroupWithMove (st.longestName + 1) st (hGroup - 1) ptszNewName true
  (result ≠ 0, st)

def enumGroups (st : Groups) (id : Int) (setting : Setting) : Groups :=
  let p := st.next
  let st := st.new { CGroupInternal.new id setting.name setting.flags with ignore := setting.ignore }
  (st.insertById p).insertByName p

def InitGroupServices (stored : List (Int × Setting)) (contacts : List Contact) : Groups :=
  stored.foldl (fun st e => st.enumGroups e.1 e.2)
    { mem := fun _ => .new 0 (.lit "") 0
      next := 0
      arByIds := []
      arByName := []
      settings := fun i => (stored.find? fun e => e.1 = i).map Prod.snd
      contacts := contacts }

end Groups
end Clist
