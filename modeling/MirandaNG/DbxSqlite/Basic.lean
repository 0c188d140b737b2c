import Mathlib.Logic.Function.Basic
import MirandaNG.Data.CInt
import MirandaNG.Rel.Table

/-!
This module contains the events and contacts of the SQLite database: the tables `events` and `events_srt`
and the contacts in the cache. An event has one row in the history of its contact, and one in that of the
metacontact the contact belongs to.
-/

open CInt Rel

namespace DbxSqlite

structure Event where
  id : Nat
  contact_id : Nat
  timestamp : Nat
deriving DecidableEq

structure EventSrt where
  id : Nat
  contact_id : Nat
  timestamp : Int
deriving DecidableEq

def EventSrt.key (r : EventSrt) : Nat × Int := (r.contact_id, r.timestamp)

structure DBCachedContact where
  IsMeta : Bool
  parentID : Nat
deriving DecidableEq

def DBCachedContact.IsSub (cc : DBCachedContact) : Bool := cc.parentID ≠ 0

structure Db where
  cache : Nat → Option DBCachedContact := fun _ => none
  m_count : Nat → Int := fun _ => 0
  events : List Event := []
  events_srt : List EventSrt := []
  nextContact : Nat := 1
  nextEvent : Nat := 1

namespace Db

variable (db : Db)

def GetCachedContact (hContact : Nat) : Option DBCachedContact := db.cache hContact

def m_system : DBCachedContact := ⟨true, 0⟩

def contactOrSystem (hContact : Nat) : Option DBCachedContact :=
  if hContact ≠ 0 then db.GetCachedContact hContact else some m_system

def GetEventCount (hContact : Nat) : Int :=
  match db.contactOrSystem hContact with
  | none => 0
  | some _ => db.m_count hContact

def GetContactEventCount (hContact : Nat) : Int :=
  int32 (count (fun r => r.contact_id = hContact) db.events_srt)

def addCount (hContact : Nat) (n : Int) : Db :=
  { db with m_count := Function.update db.m_count hContact (int32 (db.m_count hContact + n)) }

def AddEventSrt (hDbEvent hContact : Nat) (ts : Int) : Db :=
  let row := fun ts => ⟨hDbEvent, hContact, ts⟩
  { db with events_srt :=
      insertFree EventSrt.key row (db.events_srt.length + 1) ts db.events_srt }

def eventOwners (hContact : Nat) : Option (Nat × Option Nat) :=
  if hContact ≠ 0 then
    match db.GetCachedContact hContact with
    | none => none
    | some cc =>
      if cc.IsSub then
        match db.GetCachedContact cc.parentID with
        | none => none
        | some _ => some (cc.parentID, some hContact)
      else
        some (hContact, none)
  else
    some (0, none)

def insertEvent (hContact iTimestamp : Nat) : Nat × Db :=
  (db.nextEvent, { db with
    events := db.events ++ [⟨db.nextEvent, hContact, iTimestamp⟩]
    nextEvent := db.nextEvent + 1 })

def AddEvent (hContact iTimestamp : Nat) (bMsec filtered : Bool) : Nat × Db :=
  if iTimestamp = 0 then
    (0, db)
  else
    match db.eventOwners hContact with
    | none => (0, db)
    | some (cc, ccSub) =>
      if filtered then
        (0, db)
      else
        let (hDbEvent, db) := db.insertEvent hContact iTimestamp
        let tsSort : Int := if bMsec then iTimestamp else iTimestamp * 1000
        let db := (db.AddEventSrt hDbEvent cc tsSort).addCount cc 1
        match ccSub with
        | none => (hDbEvent, db)
        | some ccSub => (hDbEvent, (db.AddEventSrt hDbEvent ccSub tsSort).addCount ccSub 1)

def EditEvent (hDbEvent iTimestamp : Nat) : Nat × Db :=
  if iTimestamp = 0 then
    (1, db)
  else
    (0, { db with events := db.events.map fun e =>
      if e.id = hDbEvent then { e with timestamp := iTimestamp } else e })

def DeleteEventMain (hDbEvent : Nat) : Db :=
  { db with events := deleteWhere (fun e => e.id = hDbEvent) db.events }

def DeleteEventSrt2 (hDbEvent : Nat) : Db :=
  { db with events_srt := deleteWhere (fun r => r.id = hDbEvent) db.events_srt }

def DeleteEvent (hDbEvent : Nat) : Nat × Db :=
  if hDbEvent = 0 then
    (1, db)
  else
    match db.events.find? fun e => e.id = hDbEvent with
    | none => (2, db)
    | some event =>
      match db.contactOrSystem event.contact_id with
      | none => (1, db)
      | some cc =>
        let db := ((db.DeleteEventMain hDbEvent).DeleteEventSrt2 hDbEvent).addCount event.contact_id (-1)
        if cc.IsSub then
          match db.GetCachedContact cc.parentID with
          | none => (0, db)
          | some _ => (0, db.addCount cc.parentID (-1))
        else
          (0, db)

def AddContact (bMeta : Bool) : Nat × Db :=
  (db.nextContact, { db with
    cache := Function.update db.cache db.nextContact (some ⟨bMeta, 0⟩)
    m_count := Function.update db.m_count db.nextContact 0
    nextContact := db.nextContact + 1 })

def DeleteContact (hContact : Nat) : Nat × Db :=
  match db.GetCachedContact hContact with
  | none => (1, db)
  | some _ =>
    (0, { db with
      events := deleteWhere (fun e => e.contact_id = hContact) db.events
      events_srt := deleteWhere (fun r => r.contact_id = hContact) db.events_srt
      cache := Function.update db.cache hContact none })

def MetaMergeHistory (ccMeta ccSub : Nat) : Bool × Db :=
  let rows := (db.events_srt.filter fun r => r.contact_id = ccSub).map fun r =>
    { r with contact_id := ccMeta }
  match insertAll EventSrt.key db.events_srt rows with
  | none => (false, db)
  | some events_srt =>
    let db := { db with events_srt := events_srt }
    (true, { db with
      m_count := Function.update db.m_count ccMeta (db.GetContactEventCount ccMeta) })

def MetaSplitHistory (ccMeta ccSub : Nat) : Bool × Db :=
  let ids := (db.events_srt.filter fun r => r.contact_id = ccSub).map EventSrt.id
  (true, { db with
    events_srt := deleteWhere (fun r => r.contact_id = ccMeta ∧ r.id ∈ ids) db.events_srt })

def setParent (hContact parentID : Nat) : Db :=
  let cc := (db.cache hContact).map fun cc => { cc with parentID := parentID }
  { db with cache := Function.update db.cache hContact cc }

def isMeta (hContact : Nat) : Bool :=
  match db.GetCachedContact hContact with
  | none => false
  | some cc => cc.IsMeta

def isCached (hContact : Nat) : Bool := (db.GetCachedContact hContact).isSome

inductive Call where
  | AddContact (bMeta : Bool)
  | AddEvent (hContact iTimestamp : Nat) (bMsec filtered : Bool)
  | EditEvent (hDbEvent iTimestamp : Nat)
  | DeleteEvent (hDbEvent : Nat)
  | DeleteContact (hContact : Nat)
  | MetaMergeHistory (ccMeta ccSub : Nat)
  | MetaSplitHistory (ccMeta ccSub : Nat)

-- `Meta_Assign` makes the contact a sub of the metacontact and then merges the histories, and
-- `Meta_RemoveContactNumber` splits them and then makes the contact free.
def step : Call → Db
  | .AddContact bMeta => (db.AddContact bMeta).2
  | .AddEvent hContact iTimestamp bMsec filtered => (db.AddEvent hContact iTimestamp bMsec filtered).2
  | .EditEvent hDbEvent iTimestamp => (db.EditEvent hDbEvent iTimestamp).2
  | .DeleteEvent hDbEvent => (db.DeleteEvent hDbEvent).2
  | .DeleteContact hContact => (db.DeleteContact hContact).2
  | .MetaMergeHistory ccMeta ccSub =>
    if db.isMeta ccMeta ∧ db.isCached ccSub then
      ((db.setParent ccSub ccMeta).MetaMergeHistory ccMeta ccSub).2
    else db
  | .MetaSplitHistory ccMeta ccSub =>
    if db.isMeta ccMeta ∧ db.isCached ccSub then
      ((db.MetaSplitHistory ccMeta ccSub).2).setParent ccSub 0
    else db

def Succeeds (db : Db) : Call → Prop
  | .MetaMergeHistory ccMeta ccSub => (db.MetaMergeHistory ccMeta ccSub).1 = true
  | _ => True

def rows (hContact : Nat) : Nat := count (fun r => r.contact_id = hContact) db.events_srt

def links (hDbEvent hContact : Nat) : Nat :=
  count (fun r => r.id = hDbEvent ∧ r.contact_id = hContact) db.events_srt

def parent? (hContact : Nat) : Option Nat :=
  match db.GetCachedContact hContact with
  | none => none
  | some cc => if cc.IsSub ∧ db.isCached cc.parentID then some cc.parentID else none

end Db
end DbxSqlite
