import MirandaNG.Dbx.Basic

/-!
This module contains the data model of the `Db3x_mmap` profile: a file in which contacts and events
are linked by offsets. An event is the record at its offset, a contact the record its cache entry
points to. Offsets, timestamps and counters are numbers, with the wrap-around of their C type written
out where they are computed.

It also contains the calls on events: `AddEvent`, `DeleteEvent`, `MarkEventRead` and the searches. A loop that
follows offsets gets as many rounds as there are events; it has no result when they are not enough
or when an offset is not that of an event.
-/

namespace Db3x

open Kv Crypt
open Dbx (MCONTACT DBEVENTINFO DBEF_ENCRYPTED MARKED_READ)

structure DBContact where
  eventCount : Nat := 0
  ofsFirstEvent : Nat := 0
  ofsLastEvent : Nat := 0
  ofsFirstUnread : Nat := 0
  tsFirstUnread : Nat := 0
deriving DecidableEq

structure DBEvent where
  contactID : MCONTACT
  ofsPrev : Nat
  ofsNext : Nat
  ofsModuleName : Nat
  timestamp : Nat
  flags : UInt32
  wEventType : Nat
  blob : List UInt8
deriving DecidableEq

namespace DBEvent

def markedRead (dbe : DBEvent) : Bool := dbe.flags &&& MARKED_READ ≠ 0

def size (dbe : DBEvent) : Nat := 34 + dbe.blob.length

end DBEvent

structure DBCachedContact where
  parentID : MCONTACT := 0
  dbc : DBContact := {}
deriving DecidableEq

def DBCachedContact.IsSub (cc : DBCachedContact) : Bool := cc.parentID ≠ 0

-- The buffer the crypto provider pads a blob in, and the answer of `ME_DB_EVENT_FILTER_ADD`
structure Env where
  tmpBuf : Nat → UInt8 := fun _ => 0
  filtered : Bool := false

structure Store where
  ofsFileEnd : Nat
  events : Table Nat DBEvent
  m_cache : Table MCONTACT DBCachedContact
  user : DBContact
  m_lMods : List (Option CStr × Nat)
  m_bEncrypted : Bool
  m_crypto : MICryptoEngine

namespace Store

def CreateNewSpace (s : Store) (bytes : Nat) : Store × Nat :=
  ({ s with ofsFileEnd := (s.ofsFileEnd + bytes) % 2 ^ 32 }, s.ofsFileEnd)

def DeleteSpace (s : Store) (ofs : Nat) (dbe : DBEvent) : Store :=
  { s with
    ofsFileEnd := if (ofs + dbe.size) % 2 ^ 32 = s.ofsFileEnd then ofs else s.ofsFileEnd
    events := s.events.del ofs }

def GetModuleNameOfs (s : Store) (szName : Option CStr) : Store × Nat :=
  match s.m_lMods.find? fun mn => mn.1 = szName with
  | some mn => (s, mn.2)
  | none =>
    let (s, ofsNew) := s.CreateNewSpace ((szName.map CStr.strlen).getD 0 + 9)
    ({ s with m_lMods := (szName, ofsNew) :: s.m_lMods }, ofsNew)

def dbc? (s : Store) (contactID : MCONTACT) : Option DBContact :=
  if contactID = 0 then some s.user else (s.m_cache.get? contactID).map (·.dbc)

def updateDbc (s : Store) (contactID : MCONTACT) (f : DBContact → DBContact) : Store :=
  if contactID = 0 then
    { s with user := f s.user }
  else
    { s with m_cache := s.m_cache.modify contactID fun cc => { cc with dbc := f cc.dbc } }

def writeDbc (s : Store) (contactID : MCONTACT) (dbc : DBContact) : Store :=
  s.updateDbc contactID fun _ => dbc

def setParent (s : Store) (contactID parentID : MCONTACT) : Store :=
  { s with m_cache := s.m_cache.modify contactID fun cc => { cc with parentID } }

def owner? (s : Store) (contactID : MCONTACT) : Option (MCONTACT × Option MCONTACT) :=
  if contactID = 0 then
    some (0, none)
  else
    match s.m_cache.get? contactID with
    | none => none
    | some cc => if cc.IsSub then some (cc.parentID, some contactID) else some (contactID, none)

def updateEvent (s : Store) (ofs : Nat) (f : DBEvent → DBEvent) : Store :=
  { s with events := s.events.modify ofs f }

def writeEvent (s : Store) (ofs : Nat) (dbe : DBEvent) : Store :=
  { s with events := s.events.put ofs dbe }

def create (contacts : List MCONTACT) (ofsFileEnd : Nat) (m_crypto : MICryptoEngine) (m_bEncrypted : Bool)
    : Store where
  ofsFileEnd := ofsFileEnd
  events := .empty
  m_cache := contacts.foldl (fun m_cache contactID => m_cache.put contactID {}) .empty
  user := {}
  m_lMods := []
  m_bEncrypted := m_bEncrypted
  m_crypto := m_crypto

end Store
end Db3x

namespace Db3x

open Kv
open Dbx (MCONTACT DBEVENTINFO DBEF_ENCRYPTED DBEF_READ)

namespace Store

def rounds (s : Store) : Nat := s.events.entries.length + 1

def encodeBlob (s : Store) (env : Env) (dbei : DBEVENTINFO) : List UInt8 × Bool :=
  match if s.m_bEncrypted then s.m_crypto.encodeBuffer env.tmpBuf dbei.pBlob else none with
  | some pResult => (pResult, true)
  | none => (dbei.pBlob.getD [], false)

def insertAfter (s : Store) (timestamp : Nat) : Nat → Nat → Option (Nat × DBEvent)
  | 0, _ => none
  | n + 1, ofsThis =>
    match s.events.get? ofsThis with
    | none => none
    | some dbeTest =>
      if timestamp ≥ dbeTest.timestamp then
        some (ofsThis, dbeTest)
      else
        insertAfter s timestamp n dbeTest.ofsPrev

def linkEvent (s : Store) (dbc : DBContact) (timestamp ofsNew : Nat)
    : Option (Store × DBContact × Nat × Nat) :=
  if dbc.eventCount = 0 then
    some (s, { dbc with ofsFirstEvent := ofsNew, ofsLastEvent := ofsNew }, 0, 0)
  else
    match s.events.get? dbc.ofsFirstEvent with
    | none => none
    | some dbeTest =>
      if timestamp < dbeTest.timestamp then
        let s := s.updateEvent dbc.ofsFirstEvent fun dbe => { dbe with ofsPrev := ofsNew }
        some (s, { dbc with ofsFirstEvent := ofsNew }, 0, dbc.ofsFirstEvent)
      else
        match s.insertAfter timestamp s.rounds dbc.ofsLastEvent with
        | none => none
        | some (ofsThis, dbeTest) =>
          let s := s.updateEvent ofsThis fun dbe => { dbe with ofsNext := ofsNew }
          if dbeTest.ofsNext = 0 then
            some (s, { dbc with ofsLastEvent := ofsNew }, ofsThis, 0)
          else
            let s := s.updateEvent dbeTest.ofsNext fun dbe => { dbe with ofsPrev := ofsNew }
            some (s, dbc, ofsThis, dbeTest.ofsNext)

def countEvent (dbc : DBContact) (dbe : DBEvent) (ofsNew : Nat) : DBContact :=
  let dbc := { dbc with eventCount := dbc.eventCount + 1 }
  if !dbe.markedRead then
    if dbe.timestamp < dbc.tsFirstUnread ∨ dbc.tsFirstUnread = 0 then
      { dbc with tsFirstUnread := dbe.timestamp, ofsFirstUnread := ofsNew }
    else
      dbc
  else
    dbc

def storeEvent (s : Store) (owner : MCONTACT) (ccSub : Option MCONTACT) (dbc : DBContact) (ofsNew : Nat)
    (dbe : DBEvent) : Store :=
  let s := match ccSub with
    | none => s
    | some sub => s.updateDbc sub fun dbc => { dbc with eventCount := dbc.eventCount + 1 }
  (s.writeDbc owner (countEvent dbc dbe ofsNew)).writeEvent ofsNew dbe

def AddEvent (s : Store) (env : Env) (contactID : MCONTACT) (dbei : DBEVENTINFO) : Store × Nat :=
  if dbei.getUnixtime = 0 then
    (s, 0)
  else
    match s.owner? contactID with
    | none => (s, 0)
    | some (owner, ccSub) =>
      if env.filtered then
        (s, 0)
      else
        match s.dbc? owner with
        | none => (s, 0)
        | some dbc =>
          let (blob, encrypted) := s.encodeBlob env dbei
          let (s₁, ofsNew) := s.CreateNewSpace (34 + blob.length)
          let (s₁, ofsModuleName) := s₁.GetModuleNameOfs dbei.szModule
          match s₁.linkEvent dbc dbei.getUnixtime ofsNew with
          | none => (s, 0)
          | some (s₁, dbc, ofsPrev, ofsNext) =>
            let dbe : DBEvent := {
              contactID
              ofsPrev
              ofsNext
              ofsModuleName
              timestamp := dbei.getUnixtime
              flags := if encrypted then dbei.flags ||| DBEF_ENCRYPTED else dbei.flags
              wEventType := dbei.eventType % 2 ^ 16
              blob
            }
            (s₁.storeEvent owner ccSub dbc ofsNew dbe, ofsNew)

def nextUnread (s : Store) : Nat → Nat → Option (Nat × Nat)
  | 0, _ => none
  | n + 1, ofsNext =>
    if ofsNext = 0 then
      some (0, 0)
    else
      match s.events.get? ofsNext with
      | none => none
      | some dbeNext =>
        if !dbeNext.markedRead then
          some (ofsNext, dbeNext.timestamp)
        else
          nextUnread s n dbeNext.ofsNext

def recalcUnread (s : Store) (dbc : DBContact) (hDbEvent : Nat) (dbe : DBEvent) : Option DBContact :=
  if dbc.ofsFirstUnread = hDbEvent then
    match s.nextUnread s.rounds dbe.ofsNext with
    | none => none
    | some (ofsFirstUnread, tsFirstUnread) => some { dbc with ofsFirstUnread, tsFirstUnread }
  else
    some dbc

def unlinkEvent (s : Store) (dbc : DBContact) (dbe : DBEvent) : Store × DBContact :=
  if dbe.ofsPrev = 0 then
    if dbe.ofsNext = 0 then
      (s, { dbc with ofsFirstEvent := 0, ofsLastEvent := 0 })
    else
      (s.updateEvent dbe.ofsNext fun dbeNext => { dbeNext with ofsPrev := 0 },
        { dbc with ofsFirstEvent := dbe.ofsNext })
  else
    if dbe.ofsNext = 0 then
      (s.updateEvent dbe.ofsPrev fun dbePrev => { dbePrev with ofsNext := 0 },
        { dbc with ofsLastEvent := dbe.ofsPrev })
    else
      let s := s.updateEvent dbe.ofsPrev fun dbePrev => { dbePrev with ofsNext := dbe.ofsNext }
      (s.updateEvent dbe.ofsNext fun dbeNext => { dbeNext with ofsPrev := dbe.ofsPrev }, dbc)

def DeleteEvent (s : Store) (hDbEvent : Nat) : Store × Bool :=
  match s.events.get? hDbEvent with
  | none => (s, false)
  | some dbe =>
    match s.owner? dbe.contactID with
    | none => (s, false)
    | some (owner, ccSub) =>
      match s.dbc? owner with
      | none => (s, false)
      | some dbc =>
        match s.recalcUnread dbc hDbEvent dbe with
        | none => (s, false)
        | some dbc =>
          let (s, dbc) := s.unlinkEvent dbc dbe
          let s := s.writeDbc owner { dbc with eventCount := dbc.eventCount - 1 }
          let s := s.DeleteSpace hDbEvent dbe
          match ccSub with
          | none => (s, true)
          | some sub => (s.updateDbc sub fun dbc => { dbc with eventCount := dbc.eventCount - 1 }, true)

def MarkEventRead (s : Store) (contactID : MCONTACT) (hDbEvent : Nat) : Store × Option UInt32 :=
  match s.owner? contactID with
  | none => (s, none)
  | some (owner, _) =>
    match s.dbc? owner, s.events.get? hDbEvent with
    | some dbc, some dbe =>
      if dbe.markedRead then
        (s, some dbe.flags)
      else
        let s₁ := s.updateEvent hDbEvent fun dbe => { dbe with flags := dbe.flags ||| DBEF_READ }
        match s₁.recalcUnread dbc hDbEvent dbe with
        | none => (s, none)
        | some dbc => (s₁.writeDbc owner dbc, some (dbe.flags ||| DBEF_READ))
    | _, _ => (s, none)

def GetEventCount (s : Store) (contactID : MCONTACT) : Int :=
  match s.dbc? contactID with
  | none => -1
  | some dbc => dbc.eventCount

def findAlong (s : Store) (next : DBEvent → Nat) (found : DBEvent → Bool) : Nat → Nat → Option Nat
  | 0, _ => none
  | n + 1, dwOffset =>
    if dwOffset = 0 then
      some 0
    else
      match s.events.get? dwOffset with
      | none => some 0
      | some dbe => if found dbe then some dwOffset else findAlong s next found n (next dbe)

def findFrom (s : Store) (contactID : MCONTACT) (start : DBContact → Nat) (next : DBEvent → Nat)
    (found : DBEvent → Bool) : Option Nat :=
  match s.owner? contactID with
  | none => some 0
  | some (owner, ccSub) =>
    match s.dbc? owner with
    | none => some 0
    | some dbc => if ccSub.isSome then s.findAlong next found s.rounds (start dbc) else some (start dbc)

def FindFirstEvent (s : Store) (contactID : MCONTACT) : Option Nat :=
  s.findFrom contactID (·.ofsFirstEvent) (·.ofsNext) (·.contactID = contactID)

def FindFirstUnreadEvent (s : Store) (contactID : MCONTACT) : Option Nat :=
  s.findFrom contactID (·.ofsFirstUnread) (·.ofsNext) fun dbe => dbe.contactID = contactID && !dbe.markedRead

def FindLastEvent (s : Store) (contactID : MCONTACT) : Option Nat :=
  s.findFrom contactID (·.ofsLastEvent) (·.ofsPrev) (·.contactID = contactID)

def findBeyond (s : Store) (contactID : MCONTACT) (next : DBEvent → Nat) (hDbEvent : Nat) : Option Nat :=
  match s.events.get? hDbEvent with
  | none => some 0
  | some dbe =>
    match s.owner? contactID with
    | some (_, some _) => s.findAlong next (·.contactID = contactID) s.rounds (next dbe)
    | _ => some (next dbe)

def FindNextEvent (s : Store) (contactID : MCONTACT) (hDbEvent : Nat) : Option Nat :=
  s.findBeyond contactID (·.ofsNext) hDbEvent

def FindPrevEvent (s : Store) (contactID : MCONTACT) (hDbEvent : Nat) : Option Nat :=
  s.findBeyond contactID (·.ofsPrev) hDbEvent

end Store
end Db3x
