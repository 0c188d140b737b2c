import MirandaNG.Rel.Links

/-!
This module contains the metacontacts: the cached contacts with their list of subcontacts or their
parent, the settings in which both are kept, and the operations on them. Metacontacts are enabled.

It also contains what the operations on metacontacts do to the parents, the lists of subcontacts and
the settings.
-/

namespace MetaContacts

def META_PROTO : String := "MetaContacts"

def MAX_CONTACTS : Int := 20

-- `nSubs` is -1 where the contact is not a metacontact, `parentID` is 0 where it is not a subcontact.
structure DBCachedContact where
  nSubs : Int := -1
  pSubs : List Nat := []
  parentID : Nat := 0
  nDefault : Int := 0

namespace DBCachedContact

def IsMeta (cc : DBCachedContact) : Bool := cc.nSubs ≠ -1

def IsSub (cc : DBCachedContact) : Bool := cc.parentID ≠ 0

def subs (cc : DBCachedContact) : List Nat := cc.pSubs.take cc.nSubs.toNat

end DBCachedContact

-- The module META_PROTO of a contact. `Handle n` is the setting "Handle%d".
structure Settings where
  NumContacts : Option Int := none
  Handle : Int → Option Nat := fun _ => none
  ParentMeta : Option Nat := none
  IsSubcontact : Option Nat := none
  Default : Option Int := none
  OfflineSend : Option Int := none

-- `protocol` is the setting "Protocol/p" of the contacts.
structure Db where
  cache : Nat → Option DBCachedContact := fun _ => none
  settings : Nat → Settings := fun _ => {}
  protocol : Nat → Option String := fun _ => none
  nextContact : Nat := 1

structure Protocols where
  IsEnabled : String → Bool
  GetUniqueId : String → Option String
  metaWithoutId : GetUniqueId META_PROTO = none

structure Answers where
  hasId : Bool := true
  OnList : Bool := true
  written : Bool := true

namespace Db

variable (P : Protocols) (db : Db)

def GetCachedContact (hContact : Nat) : Option DBCachedContact := db.cache hContact

def CheckMeta (hMeta : Nat) : Option DBCachedContact :=
  match db.GetCachedContact hMeta with
  | none => none
  | some cc => if cc.nSubs = -1 then none else some cc

def modify (hContact : Nat) (f : DBCachedContact → DBCachedContact) : Db :=
  { db with cache := Function.update db.cache hContact ((db.cache hContact).map f) }

def write (hContact : Nat) (f : Settings → Settings) : Db :=
  { db with settings := Function.update db.settings hContact (f (db.settings hContact)) }

def Proto_GetBaseAccountName (hContact : Nat) : Option String :=
  (db.protocol hContact).filter P.IsEnabled

def Meta_GetContactNumber (cc : DBCachedContact) (hContact : Nat) : Int :=
  let i := cc.subs.idxOf hContact
  if i < cc.subs.length then i else -1

def Meta_GetContactHandle (cc : DBCachedContact) (contact_number : Int) : Nat :=
  if contact_number ≥ cc.nSubs ∨ contact_number < 0 then 0 else cc.pSubs.getD contact_number.toNat 0

def MetaSetDefault (hMeta : Nat) (nDefault : Int) : Db :=
  db.write hMeta fun s => { s with Default := some nDefault }

def db_mc_setDefaultNum (hMetaContact : Nat) (iNum : Int) : Db :=
  match db.CheckMeta hMetaContact with
  | none => db
  | some cc =>
    if iNum ≥ cc.nSubs ∨ iNum < 0 then db
    else if cc.nDefault ≠ iNum then
      (db.modify hMetaContact fun cc => { cc with nDefault := iNum }).MetaSetDefault hMetaContact iNum
    else db

def assign (hSub hMeta : Nat) (nSubs : Int) (set_as_default : Bool) : Db :=
  let db := db.write hMeta fun s => { s with Handle := Function.update s.Handle nSubs (some hSub) }
  let db := db.write hSub fun s => { s with ParentMeta := some hMeta, IsSubcontact := some 1 }
  let db := db.write hMeta fun s => { s with NumContacts := some (nSubs + 1) }
  let db := db.modify hMeta fun cc =>
    { cc with nSubs := nSubs + 1, pSubs := cc.pSubs.take nSubs.toNat ++ [hSub] }
  let db := db.modify hSub fun cc => { cc with parentID := hMeta }
  if set_as_default then db.db_mc_setDefaultNum hMeta nSubs else db

def Meta_Assign (a : Answers) (hSub hMeta : Nat) (set_as_default : Bool) : Db × Bool :=
  match db.CheckMeta hMeta, db.GetCachedContact hSub with
  | some ccDest, some _ =>
    match db.Proto_GetBaseAccountName P hSub with
    | none => (db, false)
    | some szProto =>
      if P.GetUniqueId szProto = none ∨ a.hasId = false then (db, false)
      else if a.OnList = false then (db, false)
      else if ccDest.nSubs ≥ MAX_CONTACTS then (db, false)
      else if a.written = false then (db, false)
      else (db.assign hSub hMeta ccDest.nSubs set_as_default, true)
  | _, _ => (db, false)

def SwapValues (s : Settings) (n1 n2 : Int) : Settings :=
  let set := fun (n : Int) (v : Option Nat) (H : Int → Option Nat) =>
    match v with
    | some v => Function.update H n (some v)
    | none => H
  { s with Handle := set n1 (s.Handle n2) (set n2 (s.Handle n1) s.Handle) }

def Meta_SwapContacts (hMeta n1 n2 : Nat) : Db :=
  let db := db.write hMeta fun s => SwapValues s n1 n2
  db.modify hMeta fun cc =>
    { cc with pSubs := (cc.pSubs.set n1 (cc.pSubs.getD n2 0)).set n2 (cc.pSubs.getD n1 0) }

def swapDown (hMeta : Nat) : Nat → Nat → Db → Db
  | 0, _, db => db
  | k + 1, i, db => swapDown hMeta k (i + 1) (db.Meta_SwapContacts hMeta i (i - 1))

def DeleteModule (hContact : Nat) : Db := db.write hContact fun _ => {}

def MetaDetouchSub (cc : DBCachedContact) (nSub : Int) : Db :=
  db.DeleteModule (cc.pSubs.getD nSub.toNat 0)

def removeLast (hMeta hSub : Nat) (number : Int) (bDeleteSub : Bool) : Db :=
  match db.GetCachedContact hMeta with
  | none => db
  | some ccMeta =>
    let id := ccMeta.nSubs - 1
    let db := db.write hMeta fun s => { s with Handle := Function.update s.Handle id none }
    let db :=
      if (db.GetCachedContact hSub).isSome then
        let db := db.MetaDetouchSub ccMeta id
        if bDeleteSub then db else db.modify hSub fun cc => { cc with parentID := 0 }
      else db
    let db :=
      if ccMeta.nDefault ≥ number then db.db_mc_setDefaultNum hMeta (max 0 (ccMeta.nDefault - 1))
      else db
    let db := db.modify hMeta fun cc => { cc with nSubs := id }
    db.write hMeta fun s => { s with NumContacts := some id }

-- There is no result where the first swap would be with the element before `pSubs[0]`.
def Meta_RemoveContactNumber (hMeta : Nat) (number : Int) (bDeleteSub : Bool) : Option Db :=
  match db.GetCachedContact hMeta with
  | none => some db
  | some ccMeta =>
    if number < 0 ∧ number + 1 < ccMeta.nSubs then none
    else
      let hSub := Meta_GetContactHandle ccMeta number
      let rounds := (ccMeta.nSubs - (number + 1)).toNat
      some ((swapDown hMeta rounds (number + 1).toNat db).removeLast hMeta hSub number bDeleteSub)

def DeleteContact (hContact : Nat) : Db :=
  match db.GetCachedContact hContact with
  | none => db
  | some _ =>
    { db with
      cache := Function.update db.cache hContact none
      settings := Function.update db.settings hContact {}
      protocol := Function.update db.protocol hContact none }

def Meta_ContactDeleted (delete : Db → Nat → Option Db) (hContact : Nat) : Option Db :=
  match db.GetCachedContact hContact with
  | none => some db
  | some cc =>
    if cc.IsSub then
      match db.CheckMeta cc.parentID with
      | none => some db
      | some ccMeta =>
        (db.Meta_RemoveContactNumber cc.parentID (Meta_GetContactNumber ccMeta hContact) true).bind
          fun db =>
            match db.GetCachedContact cc.parentID with
            | none => some db
            | some ccMeta => if ccMeta.nSubs = 0 then delete db cc.parentID else some db
    else if cc.IsMeta then
      some ((List.range cc.nSubs.toNat).foldl (fun db i => db.MetaDetouchSub cc i) db)
    else some db

-- A deletion calls the hook, which may delete the metacontact in turn: `depth` bounds the nesting, and
-- there is no result where that is not enough. `refuses` tells the contacts whose protocol does not let
-- them be deleted.
def db_delete_contact (refuses : Nat → Bool) : Nat → Db → Nat → Option Db
  | 0, _, _ => none
  | depth + 1, db, hContact =>
    if hContact = 0 ∨ refuses hContact = true then some db
    else
      (db.Meta_ContactDeleted (db_delete_contact refuses depth) hContact).bind
        fun db => some (db.DeleteContact hContact)

def removeAll (hMeta : Nat) : Nat → Db → Option Db
  | 0, db => some db
  | k + 1, db => (db.Meta_RemoveContactNumber hMeta k false).bind (removeAll hMeta k)

variable (refuses : Nat → Bool) (depth : Nat)

def deleteMeta (hMeta : Nat) (cc : DBCachedContact) : Option Db :=
  (removeAll hMeta cc.nSubs.toNat db).bind
    fun db => db_delete_contact refuses depth db hMeta

def Meta_Delete (yes : Bool) (hContact : Nat) (bSkipQuestion : Bool) : Option Db :=
  match db.GetCachedContact hContact with
  | none => some db
  | some cc =>
    if cc.IsMeta then
      if bSkipQuestion || yes then db.deleteMeta refuses depth hContact cc else some db
    else if cc.IsSub then
      match db.GetCachedContact cc.parentID with
      | none => some db
      | some ccMeta =>
        if ccMeta.nSubs = 1 then
          if yes then db.deleteMeta refuses depth cc.parentID ccMeta else some db
        else
          db.Meta_RemoveContactNumber cc.parentID (Meta_GetContactNumber ccMeta hContact) false
    else some db

def db_add_contact : Db :=
  { db with
    cache := Function.update db.cache db.nextContact (some {})
    settings := Function.update db.settings db.nextContact {}
    protocol := Function.update db.protocol db.nextContact (some META_PROTO)
    nextContact := db.nextContact + 1 }

def Meta_Convert (a : Answers) (hContact : Nat) : Option Db :=
  let hMetaContact := db.nextContact
  let db := db.db_add_contact
  let db := db.write hMetaContact fun s => { s with NumContacts := some 0 }
  let db := db.modify hMetaContact fun cc => { cc with nSubs := 0 }
  let db := db.MetaSetDefault hMetaContact 0
  match db.Meta_Assign P a hContact hMetaContact true with
  | (db, true) => some db
  | (db, false) => db_delete_contact refuses depth db hMetaContact

end Db

inductive Call where
  | db_mc_convertToMeta (a : Answers) (refuses : Nat → Bool) (hContact : Nat)
  | db_mc_addToMeta (a : Answers) (hSub hMetaContact : Nat)
  | db_mc_removeFromMeta (refuses : Nat → Bool) (yes : Bool) (hSub : Nat)
  | Meta_Delete (refuses : Nat → Bool) (yes : Bool) (hContact : Nat)
  | db_delete_contact (refuses : Nat → Bool) (hContact : Nat)

def Call.run (P : Protocols) (depth : Nat) (db : Db) : Call → Option Db
  | db_mc_convertToMeta a refuses hContact => db.Meta_Convert P refuses depth a hContact
  | db_mc_addToMeta a hSub hMetaContact => some (db.Meta_Assign P a hSub hMetaContact false).1
  | db_mc_removeFromMeta refuses yes hSub => db.Meta_Delete refuses depth yes hSub true
  | Meta_Delete refuses yes hContact => db.Meta_Delete refuses depth yes hContact false
  | db_delete_contact refuses hContact => Db.db_delete_contact refuses depth db hContact

end MetaContacts

open Function

namespace MetaContacts

def shiftDown : Nat → Nat → List Nat → List Nat
  | 0, _, l => l
  | k + 1, i, l => shiftDown k (i + 1) ((l.set i (l.getD (i - 1) 0)).set (i - 1) (l.getD i 0))

theorem swap_next (A C : List Nat) (x b : Nat)
    : (((A ++ x :: b :: C).set (A.length + 1) ((A ++ x :: b :: C).getD A.length 0)).set A.length
          ((A ++ x :: b :: C).getD (A.length + 1) 0))
        =
      A ++ b :: x :: C := by
  simp

theorem shiftDown_eq (B : List Nat) (A C : List Nat) (x : Nat)
    : shiftDown B.length (A.length + 1) (A ++ x :: (B ++ C)) = A ++ (B ++ x :: C) := by
  induction B generalizing A with
  | nil => rfl
  | cons b B ih =>
    have hnext := ih (A ++ [b])
    rw [List.length_append, List.append_assoc, List.append_assoc] at hnext
    rw [List.length_cons, shiftDown, Nat.add_sub_cancel, List.cons_append, swap_next]
    exact hnext

namespace Db

variable {P : Protocols} {db : Db} {f : DBCachedContact → DBCachedContact} {hContact m c : Nat}

def field {β : Type} (db : Db) (d : β) (g : DBCachedContact → β) (h : Nat) : β := (db.cache h).elim d g

def parentOf (db : Db) : Nat → Nat := db.field 0 DBCachedContact.parentID

def nSubsOf (db : Db) : Nat → Int := db.field (-1) DBCachedContact.nSubs

def pSubsOf (db : Db) : Nat → List Nat := db.field [] DBCachedContact.pSubs

def isCached (db : Db) : Nat → Bool := db.field false fun _ => true

def subsOf (db : Db) (m : Nat) : List Nat := (db.pSubsOf m).take (db.nSubsOf m).toNat

section
variable {β : Type} {d : β} {g : DBCachedContact → β} {cc : DBCachedContact}

theorem field_of_cache (h : db.cache c = some cc) : db.field d g c = g cc := by
  unfold field
  rw [h]
  rfl

theorem field_of_none (h : db.cache c = none) : db.field d g c = d := by
  unfold field
  rw [h]
  rfl

theorem cache_modify_self : (db.modify c f).cache c = (db.cache c).map f := update_self ..

theorem cache_modify_of_ne (h : c ≠ hContact) : (db.modify hContact f).cache c = db.cache c :=
  update_of_ne h ..

theorem field_modify_same (hg : ∀ cc, g (f cc) = g cc) : (db.modify hContact f).field d g = db.field d g := by
  funext c
  unfold field
  by_cases hc : c = hContact
  . subst hc
    rw [cache_modify_self]
    cases db.cache c with
    | none => rfl
    | some cc => exact hg cc
  . rw [cache_modify_of_ne hc]

theorem field_modify (hcache : db.cache hContact = some cc)
    : (db.modify hContact f).field d g = update (db.field d g) hContact (g (f cc)) := by
  funext c
  by_cases hc : c = hContact
  . subst hc
    rw [update_self]
    unfold field
    rw [cache_modify_self, hcache]
    rfl
  . rw [update_of_ne hc]
    unfold field
    rw [cache_modify_of_ne hc]

theorem field_modify_const {v : β} (hc : db.isCached hContact = true) (hg : ∀ cc, g (f cc) = v)
    : (db.modify hContact f).field d g = update (db.field d g) hContact v := by
  cases hcache : db.cache hContact with
  | none =>
    unfold isCached field at hc
    rw [hcache] at hc
    cases hc
  | some cc => rw [field_modify hcache, hg]

theorem field_write (h : Nat) (f : Settings → Settings) : (db.write h f).field d g = db.field d g := rfl

end

/-! ### What the operations write -/

section
variable {n : Int} {p : Nat} {l : List Nat → List Nat}

@[simp]
theorem isCached_modify : (db.modify hContact f).isCached = db.isCached := field_modify_same fun _ => rfl

@[simp]
theorem nSubsOf_setParent
    : (db.modify hContact fun cc => { cc with parentID := p }).nSubsOf = db.nSubsOf :=
  field_modify_same fun _ => rfl

@[simp]
theorem pSubsOf_setParent
    : (db.modify hContact fun cc => { cc with parentID := p }).pSubsOf = db.pSubsOf :=
  field_modify_same fun _ => rfl

theorem parentOf_setParent (hc : db.isCached hContact = true)
    : (db.modify hContact fun cc => { cc with parentID := p }).parentOf
        =
      update db.parentOf hContact p :=
  field_modify_const hc fun _ => rfl

@[simp]
theorem parentOf_setSubs
    : (db.modify hContact fun cc => { cc with nSubs := n, pSubs := l cc.pSubs }).parentOf = db.parentOf :=
  field_modify_same fun _ => rfl

theorem nSubsOf_setSubs (hc : db.isCached hContact = true)
    : (db.modify hContact fun cc => { cc with nSubs := n, pSubs := l cc.pSubs }).nSubsOf
        =
      update db.nSubsOf hContact n :=
  field_modify_const hc fun _ => rfl

theorem pSubsOf_setSubs (hc : db.isCached hContact = true)
    : (db.modify hContact fun cc => { cc with nSubs := n, pSubs := l cc.pSubs }).pSubsOf
        =
      update db.pSubsOf hContact (l (db.pSubsOf hContact)) := by
  cases hcache : db.cache hContact with
  | none =>
    unfold isCached field at hc
    rw [hcache] at hc
    cases hc
  | some cc =>
    have hold : db.pSubsOf hContact = cc.pSubs := field_of_cache hcache
    rw [hold]
    exact field_modify hcache

@[simp]
theorem nSubsOf_write (h : Nat) (f : Settings → Settings) : (db.write h f).nSubsOf = db.nSubsOf := rfl

@[simp]
theorem pSubsOf_write (h : Nat) (f : Settings → Settings) : (db.write h f).pSubsOf = db.pSubsOf := rfl

@[simp]
theorem parentOf_write (h : Nat) (f : Settings → Settings) : (db.write h f).parentOf = db.parentOf := rfl

@[simp]
theorem isCached_write (h : Nat) (f : Settings → Settings) : (db.write h f).isCached = db.isCached := rfl

end

theorem isCached_iff : db.isCached c = true ↔ ∃ cc, db.cache c = some cc := by
  unfold isCached field
  cases db.cache c <;> simp

theorem isCached_of_parent (h : db.parentOf c ≠ 0) : db.isCached c = true := by
  rw [isCached_iff]
  cases hcache : db.cache c with
  | none => exact absurd (field_of_none hcache) h
  | some cc => exact ⟨cc, rfl⟩

theorem cache_of_meta (h : db.nSubsOf m ≠ -1) : ∃ cc, db.cache m = some cc ∧ cc.nSubs = db.nSubsOf m := by
  cases hcache : db.cache m with
  | none => exact absurd (field_of_none hcache) h
  | some cc => exact ⟨cc, rfl, (field_of_cache hcache).symm⟩

theorem CheckMeta_eq_some (h : db.nSubsOf m ≠ -1)
    : ∃ cc, db.CheckMeta m = some cc ∧ db.cache m = some cc := by
  obtain ⟨cc, hcache, hsubs⟩ := cache_of_meta h
  use cc
  unfold CheckMeta GetCachedContact
  rw [hcache]
  simp only [ite_eq_right_iff]
  rw [hsubs]
  simp [h]

theorem cache_of_CheckMeta {cc : DBCachedContact} (h : db.CheckMeta m = some cc)
    : db.cache m = some cc ∧ db.nSubsOf m ≠ -1 := by
  unfold CheckMeta GetCachedContact at h
  split at h
  . cases h
  . next cc' hcache =>
    split at h
    . cases h
    . next hne =>
      cases h
      unfold nSubsOf
      rw [field_of_cache hcache]
      exact ⟨hcache, hne⟩

theorem subs_of_cache {cc : DBCachedContact} (h : db.cache m = some cc) : cc.subs = db.subsOf m := by
  unfold subsOf pSubsOf nSubsOf
  rw [field_of_cache h, field_of_cache h]
  rfl

@[simp]
theorem settings_modify (h : Nat) (f : DBCachedContact → DBCachedContact)
    : (db.modify h f).settings = db.settings := rfl

theorem settings_write_self (f : Settings → Settings) : (db.write m f).settings m = f (db.settings m) :=
  update_self ..

theorem settings_write_of_ne (f : Settings → Settings) (h : c ≠ m)
    : (db.write m f).settings c = db.settings c :=
  update_of_ne h ..

theorem setting_write_same {β : Type} {g : Settings → β} {f : Settings → Settings} (hg : ∀ s, g (f s) = g s)
    : g ((db.write m f).settings c) = g (db.settings c) := by
  by_cases hc : c = m
  . subst hc
    rw [settings_write_self, hg]
  . rw [settings_write_of_ne f hc]

section
variable {β : Type} {d : β} {i : Int}

theorem field_setDefaultNum {g : DBCachedContact → β} (hg : ∀ cc n, g { cc with nDefault := n } = g cc)
    : (db.db_mc_setDefaultNum m i).field d g = db.field d g := by
  unfold db_mc_setDefaultNum
  split
  . rfl
  . split
    . rfl
    . split
      . unfold MetaSetDefault
        rw [field_write]
        exact field_modify_same fun cc => hg cc i
      . rfl

theorem setting_setDefaultNum {g : Settings → β} (hg : ∀ s n, g { s with Default := n } = g s)
    : g ((db.db_mc_setDefaultNum m i).settings c) = g (db.settings c) := by
  unfold db_mc_setDefaultNum
  split
  . rfl
  . split
    . rfl
    . split
      . exact setting_write_same fun s => hg s (some i)
      . rfl

theorem protocol_setDefaultNum : (db.db_mc_setDefaultNum m i).protocol = db.protocol := by
  unfold db_mc_setDefaultNum
  repeat' split
  all_goals rfl

theorem nextContact_setDefaultNum : (db.db_mc_setDefaultNum m i).nextContact = db.nextContact := by
  unfold db_mc_setDefaultNum
  repeat' split
  all_goals rfl

end

section
variable {k i : Nat}

theorem swapDown_field {β : Type} {d : β} {g : DBCachedContact → β}
    (hg : ∀ cc l, g { cc with pSubs := l } = g cc) (k i : Nat) (db : Db)
    : (swapDown m k i db).field d g = db.field d g := by
  induction k generalizing i db with
  | zero => rfl
  | succ k ih =>
    rw [swapDown, ih]
    exact field_modify_same fun cc => hg cc _

theorem swapDown_pSubs (hc : db.isCached m = true) (k i : Nat)
    : (swapDown m k i db).pSubsOf = update db.pSubsOf m (shiftDown k i (db.pSubsOf m)) := by
  induction k generalizing i db with
  | zero => rw [swapDown, shiftDown, update_eq_self]
  | succ k ih =>
    obtain ⟨cc, hcache⟩ := isCached_iff.mp hc
    have hswap : (db.Meta_SwapContacts m i (i - 1)).pSubsOf
        = update db.pSubsOf m (((db.pSubsOf m).set i ((db.pSubsOf m).getD (i - 1) 0)).set (i - 1)
            ((db.pSubsOf m).getD i 0)) := by
      have hold : db.pSubsOf m = cc.pSubs := field_of_cache hcache
      rw [hold]
      exact field_modify hcache
    have hcached : (db.Meta_SwapContacts m i (i - 1)).isCached = db.isCached := isCached_modify
    rw [swapDown, shiftDown, ih (by rw [hcached]; exact hc), hswap, update_idem, update_self]

theorem swapDown_protocol (k i : Nat) (db : Db) : (swapDown m k i db).protocol = db.protocol := by
  induction k generalizing i db with
  | zero => rfl
  | succ k ih =>
    rw [swapDown, ih]
    rfl

theorem swapDown_nextContact (k i : Nat) (db : Db)
    : (swapDown m k i db).nextContact = db.nextContact := by
  induction k generalizing i db with
  | zero => rfl
  | succ k ih =>
    rw [swapDown, ih]
    rfl

theorem swapDown_settings_of_ne (h : c ≠ m) (k i : Nat) (db : Db)
    : (swapDown m k i db).settings c = db.settings c := by
  induction k generalizing i db with
  | zero => rfl
  | succ k ih =>
    rw [swapDown, ih]
    exact settings_write_of_ne (fun s => SwapValues s i (i - 1 : Nat)) h

theorem swapDown_NumContacts (k i : Nat) (db : Db)
    : ((swapDown m k i db).settings c).NumContacts = (db.settings c).NumContacts := by
  induction k generalizing i db with
  | zero => rfl
  | succ k ih =>
    rw [swapDown, ih]
    exact @setting_write_same db m c _ Settings.NumContacts (fun s => SwapValues s i (i - 1 : Nat))
      fun s => rfl

def Written (H : Int → Option Nat) (n : Nat) (l : List Nat) : Prop :=
  n ≤ l.length ∧ ∀ i : Nat, i < n → H i = l[i]?

theorem Written.swap {s : Settings} {n n1 n2 : Nat} {l : List Nat} (h : Written s.Handle n l)
    (h1 : n1 < n) (h2 : n2 < n)
    : Written (SwapValues s n1 n2).Handle n ((l.set n1 (l.getD n2 0)).set n2 (l.getD n1 0)) := by
  obtain ⟨hlen, hget⟩ := h
  constructor
  . rw [List.length_set, List.length_set]
    exact hlen
  . intro i hi
    have hv1 : s.Handle n1 = some (l.getD n1 0) := by
      rw [hget n1 h1, List.getD_eq_getElem?_getD, List.getElem?_eq_getElem (by omega)]
      rfl
    have hv2 : s.Handle n2 = some (l.getD n2 0) := by
      rw [hget n2 h2, List.getD_eq_getElem?_getD, List.getElem?_eq_getElem (by omega)]
      rfl
    unfold SwapValues
    simp only [hv1, hv2]
    rw [List.getElem?_set, List.getElem?_set, List.length_set]
    have hold := hget i hi
    by_cases hi1 : i = n1
    . subst hi1
      rw [update_self]
      grind
    . rw [update_of_ne (by omega)]
      by_cases hi2 : i = n2
      . subst hi2
        rw [update_self]
        grind
      . rw [update_of_ne (by omega)]
        grind

theorem swapDown_Written {n : Nat} (hc : db.isCached m = true) (hi : 0 < i) (hk : i + k ≤ n)
    (h : Written (db.settings m).Handle n (db.pSubsOf m))
    : Written ((swapDown m k i db).settings m).Handle n ((swapDown m k i db).pSubsOf m) := by
  induction k generalizing i db with
  | zero => exact h
  | succ k ih =>
    obtain ⟨cc, hcache⟩ := isCached_iff.mp hc
    have hcached : (db.Meta_SwapContacts m i (i - 1)).isCached = db.isCached := isCached_modify
    apply ih (by rw [hcached]; exact hc) (by omega) (by omega)
    have hold : db.pSubsOf m = cc.pSubs := field_of_cache hcache
    have hnew : (db.Meta_SwapContacts m i (i - 1)).pSubsOf m
        = ((db.pSubsOf m).set i ((db.pSubsOf m).getD (i - 1) 0)).set (i - 1)
            ((db.pSubsOf m).getD i 0) := by
      have hswap : (db.Meta_SwapContacts m i (i - 1)).pSubsOf = _ := field_modify hcache
      rw [hswap, update_self, hold]
    have hset : (db.Meta_SwapContacts m i (i - 1)).settings m = SwapValues (db.settings m) i (i - 1 : Nat) :=
      settings_write_self fun s => SwapValues s i (i - 1 : Nat)
    rw [hnew, hset]
    exact h.swap (by omega) (by omega)

end

end Db
end MetaContacts
