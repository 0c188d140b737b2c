import MirandaNG.Dbx.Events
import MirandaNG.Transition.Run

/-!
This module contains the contact operations of the store, the histories of meta contacts and what
`Load` rebuilds from the tables.

It also contains the store as a system driven by calls, whose reachable states the results about
whole runs are about.
-/

namespace Dbx

open Kv

structure EventItem where
  ts : Nat
  eventId : MEVENT
deriving DecidableEq

/--
The constructor takes the timestamp as an `int`, so it comes back cut to 32 bits and sign extended.
-/
def EventItem.make (_ts : Nat) (_id : MEVENT) : EventItem where
  ts := if _ts % 2 ^ 32 < 2 ^ 31 then _ts % 2 ^ 32 else _ts % 2 ^ 32 + (2 ^ 64 - 2 ^ 32)
  eventId := _id

def EventItem.key (EI : EventItem) (hContact : MCONTACT) : DBEventSortingKey where
  hContact := hContact
  hEvent := EI.eventId
  ts := EI.ts

namespace Store

def historyKeys (s : Store) (hContact : MCONTACT) : List DBEventSortingKey :=
  let records := s.m_dbEventsSort.seek { hContact, hEvent := 0, ts := 0 }
  (records.takeWhile (fun a => a.1.hContact = hContact)).map Prod.fst

def GatherContactHistory (s : Store) (hContact : MCONTACT) : List EventItem :=
  (s.historyKeys hContact).map (fun k => .make k.ts k.hEvent)

/--
`AddContactToCache`, which leaves a contact that is there already as it is.
-/
def AddContactToCache (s : Store) (contactID : MCONTACT) : Store :=
  if contactID ∈ s.m_cache then
    s
  else
    { s with m_cache := s.m_cache.put contactID {} }

def AddContact (s : Store) : Store × MCONTACT :=
  let dwContactId := (s.m_maxContactId + 1) % 2 ^ 32
  let s := { s with m_maxContactId := dwContactId }
  let s := s.AddContactToCache dwContactId
  (s.saveCached dwContactId, dwContactId)

/--
The events `DeleteContact` removes together with the sorting keys it visits. It reads the handle out
of the key after the record is gone.
-/
def DeleteContact.events (env : Env) (cc : DBCachedContact) (keys : List DBEventSortingKey)
    : List MEVENT :=
  if !cc.IsMeta && !cc.IsSub then keys.map env.deletedKey else []

/--
Remove the history of a contact. The events themselves go only with a contact that is neither a meta
contact nor a sub.
-/
def wipeHistory (s : Store) (env : Env) (contactID : MCONTACT) (cc : DBCachedContact) : Store :=
  let keys := s.historyKeys contactID
  let s := keys.foldl delKey s
  (DeleteContact.events env cc keys).foldl delEvent s

def removeContact (s : Store) (contactID : MCONTACT) : Store :=
  { s with
      m_dbContacts := s.m_dbContacts.del contactID
      m_cache := s.m_cache.del contactID }

/--
`DeleteContact`; it answers `true` on success. The settings it wipes are not part of this store.
-/
def DeleteContact (s : Store) (env : Env) (contactID : MCONTACT) : Store × Bool :=
  match s.m_cache.get? contactID with
  | none => (s, false)
  | some cc =>
    let s := s.wipeHistory env contactID cc
    if contactID ∉ s.m_dbContacts then
      (s, false)
    else
      (s.removeContact contactID, true)

def mergeHistory (s : Store) (ccMeta : MCONTACT) : List EventItem → Store
  | [] => s
  | EI :: list =>
    let s := s.putKey (EI.key ccMeta)
    let s := s.updateCached ccMeta fun dbc =>
      { dbc with dwEventCount := (dbc.dwEventCount + 1) % 2 ^ 32 }
    s.mergeHistory ccMeta list

/--
`MetaMergeHistory` on two contacts of the cache; it answers `true` on success.
-/
def MetaMergeHistory (s : Store) (ccMeta ccSub : MCONTACT) : Store × Bool :=
  if ccMeta ∉ s.m_cache ∨ ccSub ∉ s.m_cache then
    (s, false)
  else
    let list := s.GatherContactHistory ccSub
    ((s.mergeHistory ccMeta list).saveCached ccMeta, true)

def splitHistory (s : Store) (ccMeta : MCONTACT) : List EventItem → Store × Bool
  | [] => (s, true)
  | EI :: list =>
    if EI.key ccMeta ∉ s.m_dbEventsSort then
      (s, false)
    else
      let s := s.delKey (EI.key ccMeta)
      let s := s.updateCached ccMeta fun dbc =>
        { dbc with dwEventCount := (dbc.dwEventCount + (2 ^ 32 - 1)) % 2 ^ 32 }
      s.splitHistory ccMeta list

/--
`MetaSplitHistory` on two contacts of the cache; it answers `true` on success.
-/
def MetaSplitHistory (s : Store) (ccMeta ccSub : MCONTACT) : Store × Bool :=
  if ccMeta ∉ s.m_cache ∨ ccSub ∉ s.m_cache then
    (s, false)
  else
    let list := s.GatherContactHistory ccSub
    let (s, ok) := s.splitHistory ccMeta list
    if ok then (s.saveCached ccMeta, true) else (s, false)

/--
Give an event to another contact. The record is written anew from a local header, at its old length:
behind the header it gets what stands on the stack.
-/
def rewriteOwner (s : Store) (env : Env) (parentID : MCONTACT) (eventId : MEVENT) : Store :=
  match s.m_dbEvents.get? eventId with
  | none => s
  | some data =>
    let tmp := { data.dbe with dwContactID := parentID }
    let tail := (List.range data.tail.length).map env.behindTmp
    s.putEvent eventId { dbe := tmp, tail }

def removeSubHistory (s : Store) (env : Env) (ccSub parentID : MCONTACT)
    : List EventItem → Store × Bool
  | [] => (s, true)
  | EI :: list =>
    let s := s.rewriteOwner env parentID EI.eventId
    if EI.key ccSub ∉ s.m_dbEventsSort then
      (s, false)
    else
      let s := s.delKey (EI.key ccSub)
      s.removeSubHistory env ccSub parentID list

/--
`MetaRemoveSubHistory` on a contact of the cache; it answers `true` on success.
-/
def MetaRemoveSubHistory (s : Store) (env : Env) (ccSub : MCONTACT) : Store × Bool :=
  match s.m_cache.get? ccSub with
  | none => (s, false)
  | some cc => s.removeSubHistory env ccSub cc.parentID (s.GatherContactHistory ccSub)

/--
The links of a contact into a meta contact, which the settings layer keeps.
-/
structure MetaLinks where
  nSubs : Int := -1
  parentID : MCONTACT := 0

/--
What the settings layer does to a cached contact when it becomes, or stops being, a meta contact or
a sub.
-/
def SetLinks (s : Store) (contactID : MCONTACT) (links : MetaLinks) : Store :=
  { s with m_cache := s.m_cache.modify contactID fun cc =>
      { cc with nSubs := links.nSubs, parentID := links.parentID } }

/--
Close the profile and load it again. `links` are the meta contact links in the settings.
-/
def Load (s : Store) (links : MCONTACT → MetaLinks) : Store :=
  let s' := create s.m_crypto s.m_bEncrypted
  let s' := { s' with
    m_dbEvents := s.m_dbEvents
    m_dbEventsSort := s.m_dbEventsSort
    m_dbEventIds := s.m_dbEventIds
    m_dbContacts := s.m_dbContacts
    m_dbGlobal := s.m_dbGlobal
    m_dbModules := s.m_dbModules
    m_ccDummy := { dbc := (s.m_dbGlobal.get? 2).getD {} }
    m_dwMaxEventId := (s.m_dbEvents.last?.map Prod.fst).getD 0
    m_maxContactId := (s.m_dbContacts.last?.map Prod.fst).getD 0 }
  let s' := s'.InitModules
  { s' with m_cache := s.m_dbContacts.mapValues fun contactID dbc =>
      { nSubs := (links contactID).nSubs, parentID := (links contactID).parentID, dbc } }

end Store
end Dbx

namespace Dbx

inductive Call where
  | AddContact
  | DeleteContact (env : Env) (contactID : MCONTACT)
  | AddEvent (env : Env) (contactID : MCONTACT) (dbei : DBEVENTINFO)
  | EditEvent (env : Env) (hDbEvent : MEVENT) (dbei : DBEVENTINFO)
  | DeleteEvent (env : Env) (hDbEvent : MEVENT)
  | MarkEventRead (env : Env) (contactID : MCONTACT) (hDbEvent : MEVENT)
  | MetaMergeHistory (ccMeta ccSub : MCONTACT)
  | MetaSplitHistory (ccMeta ccSub : MCONTACT)
  | MetaRemoveSubHistory (env : Env) (ccSub : MCONTACT)
  | SetLinks (contactID : MCONTACT) (links : Store.MetaLinks)
  | SetCacheSafetyMode (bIsSet : Bool)
  | Load (links : MCONTACT → Store.MetaLinks)

namespace Store

def run (s : Store) : Call → Store × Bool
  | .AddContact => (s.AddContact.1, true)
  | .DeleteContact env contactID => s.DeleteContact env contactID
  | .AddEvent env contactID dbei =>
    let (s, hDbEvent) := s.AddEvent env contactID dbei
    (s, hDbEvent ≠ 0)
  | .EditEvent env hDbEvent dbei => s.EditEvent env hDbEvent dbei
  | .DeleteEvent env hDbEvent => s.DeleteEvent env hDbEvent
  | .MarkEventRead env contactID hDbEvent =>
    let (s, wRetVal) := s.MarkEventRead env contactID hDbEvent
    (s, wRetVal ≠ -1 ∧ wRetVal ≠ -2)
  | .MetaMergeHistory ccMeta ccSub => s.MetaMergeHistory ccMeta ccSub
  | .MetaSplitHistory ccMeta ccSub => s.MetaSplitHistory ccMeta ccSub
  | .MetaRemoveSubHistory env ccSub => s.MetaRemoveSubHistory env ccSub
  | .SetLinks contactID links => (s.SetLinks contactID links, true)
  | .SetCacheSafetyMode bIsSet => ({ s with m_safetyMode := bIsSet }, true)
  | .Load links => (s.Load links, true)

def step (s : Store) (c : Call) : Store := (s.run c).1

def Succeeds (s : Store) (c : Call) : Prop := (s.run c).2 = true

instance (s : Store) (c : Call) : Decidable (s.Succeeds c) :=
  inferInstanceAs (Decidable ((s.run c).2 = true))

end Store
end Dbx
