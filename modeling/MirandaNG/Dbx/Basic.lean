import MirandaNG.Kv.Table
import MirandaNG.Crypt.StdCrypt
import MirandaNG.Data.CStr
import Mathlib.Data.Prod.Lex

/-!
This module contains the data model of the `Dbx_mdbx` event store: the records and keys of its
tables, the cached contacts and the store itself. Handles, timestamps and counters are numbers, with
the wrap-around of their C type written out where they are computed.
-/

namespace Dbx

open Kv Crypt

abbrev MCONTACT := Nat
abbrev MEVENT := Nat

def DBEF_SENT : UInt32 := 0x0002
def DBEF_READ : UInt32 := 0x0004
def DBEF_ENCRYPTED : UInt32 := 0x0020
def DBEF_HAS_ID : UInt32 := 0x0040
/-- The `bMsec` bit of `DBEVENTINFO`. -/
def DBEF_MSEC : UInt32 := 0x0800
def MARKED_READ : UInt32 := DBEF_READ ||| DBEF_SENT

structure DBContact where
  dwEventCount : Nat := 0
  evFirstUnread : MEVENT := 0
  tsFirstUnread : Nat := 0
deriving DecidableEq

structure DBEvent where
  dwContactID : MCONTACT
  iModuleId : Nat
  timestamp : Nat
  flags : UInt32
  wEventType : Nat
  cbBlob : Nat
deriving DecidableEq

def DBEvent.markedRead (dbe : DBEvent) : Bool :=
  dbe.flags &&& MARKED_READ ≠ 0

structure EventRecord where
  dbe : DBEvent
  tail : List UInt8
deriving DecidableEq

structure DBEventSortingKey where
  hContact : MCONTACT
  hEvent : MEVENT
  ts : Nat
deriving DecidableEq

/--
`DBEventSortingKey::Compare`: by contact, then by timestamp, then by event.
-/
instance : LinearOrder DBEventSortingKey :=
  LinearOrder.lift' (fun k => toLex (k.hContact, toLex (k.ts, k.hEvent))) <| by
    rintro ⟨c, e, t⟩ ⟨c', e', t'⟩ h
    simp only [toLex_inj, Prod.mk.injEq] at h
    simp [h]

structure DBEventIdKey where
  iModuleId : Nat
  szEventId : CStr
deriving DecidableEq

/--
`DBEventIdKey::Compare`: by module, then by `strcmp`.
-/
instance : LinearOrder DBEventIdKey :=
  LinearOrder.lift' (fun k => toLex (k.iModuleId, k.szEventId)) <| by
    rintro ⟨m, i⟩ ⟨m', i'⟩ h
    simp only [toLex_inj, Prod.mk.injEq] at h
    simp [h]

/--
The key an id is filed under: `strncpy_s` cuts the id to the 255 characters `szEventId` holds.
-/
def DBEventIdKey.make (iModuleId : Nat) (szId : CStr) : DBEventIdKey :=
  ⟨iModuleId, szId.truncate 255⟩

/--
A contact of the cache. Its `contactID` is the key it is filed under.
-/
structure DBCachedContact where
  nSubs : Int := -1
  pSubs : List MCONTACT := []
  parentID : MCONTACT := 0
  nDefault : Int := -1
  dbc : DBContact := {}
deriving DecidableEq

namespace DBCachedContact

def IsMeta (cc : DBCachedContact) : Bool := cc.nSubs ≠ -1

def IsSub (cc : DBCachedContact) : Bool := cc.parentID ≠ 0

end DBCachedContact

/--
The event a caller hands in. `pBlob` is the memory its `cbBlob` bytes are in.
-/
structure DBEVENTINFO where
  szModule : Option CStr := none
  iTimestamp : Nat := 0
  flags : UInt32 := 0
  eventType : Nat := 0
  pBlob : Option (List UInt8) := none
  szId : Option CStr := none

namespace DBEVENTINFO

def cbBlob (dbei : DBEVENTINFO) : Nat := (dbei.pBlob.getD []).length

def markedRead (dbei : DBEVENTINFO) : Bool :=
  dbei.flags &&& MARKED_READ ≠ 0

def getUnixtime (dbei : DBEVENTINFO) : Nat :=
  (if dbei.flags &&& DBEF_MSEC ≠ 0 then dbei.iTimestamp / 1000 else dbei.iTimestamp) % 2 ^ 32

end DBEVENTINFO

/--
What a call finds in memory that it has not written itself, and what the hooks it runs answer.
-/
structure Env where
  /-- The stack buffer `EditEvent` builds a record in. -/
  recBuf : Nat → UInt8 := fun _ => 0
  /-- The stack buffer the crypto provider pads a blob in. -/
  tmpBuf : Nat → UInt8 := fun _ => 0
  /-- The memory around the buffer the crypto provider decodes into. -/
  heap : Int → UInt8 := fun _ => 0
  /-- The bytes behind a record of `m_dbEvents`. -/
  behindEvent : MEVENT → List UInt8 := fun _ => []
  /-- The bytes behind a record of `m_dbEventsSort`. -/
  behindSort : DBEventSortingKey → List UInt8 := fun _ => []
  /-- The stack behind the local header of `MetaRemoveSubHistory`. -/
  behindTmp : Nat → UInt8 := fun _ => 0
  /-- The event handle a key of `m_dbEventsSort` reads as once its record is deleted. -/
  deletedKey : DBEventSortingKey → MEVENT := fun k => k.hEvent
  /-- The answer of `ME_DB_EVENT_FILTER_ADD`. -/
  filtered : Bool := false

structure Store where
  m_dbEvents : Table MEVENT EventRecord
  m_dbEventsSort : Table DBEventSortingKey (List UInt8)
  m_dbEventIds : Table DBEventIdKey MEVENT
  m_dbContacts : Table MCONTACT DBContact
  m_dbGlobal : Table Nat DBContact
  m_dbModules : Table Nat CStr
  m_Modules : Table Nat CStr
  m_cache : Table MCONTACT DBCachedContact
  m_ccDummy : DBCachedContact
  m_maxContactId : MCONTACT
  m_dwMaxEventId : MEVENT
  m_safetyMode : Bool
  m_bEncrypted : Bool
  m_crypto : MICryptoEngine

namespace Store

def create (m_crypto : MICryptoEngine) (m_bEncrypted : Bool) : Store where
  m_dbEvents := .empty
  m_dbEventsSort := .empty
  m_dbEventIds := .empty
  m_dbContacts := .empty
  m_dbGlobal := .empty
  m_dbModules := .empty
  m_Modules := .empty
  m_cache := .empty
  m_ccDummy := {}
  m_maxContactId := 0
  m_dwMaxEventId := 0
  m_safetyMode := true
  m_bEncrypted := m_bEncrypted
  m_crypto := m_crypto

/-! The writes to single tables. -/

def putEvent (s : Store) (hDbEvent : MEVENT) (data : EventRecord) : Store :=
  { s with m_dbEvents := s.m_dbEvents.put hDbEvent data }

def delEvent (s : Store) (hDbEvent : MEVENT) : Store :=
  { s with m_dbEvents := s.m_dbEvents.del hDbEvent }

/--
A sorting key has one byte of data, the terminator of an empty string.
-/
def putKey (s : Store) (key2 : DBEventSortingKey) : Store :=
  { s with m_dbEventsSort := s.m_dbEventsSort.put key2 [0] }

def delKey (s : Store) (key2 : DBEventSortingKey) : Store :=
  { s with m_dbEventsSort := s.m_dbEventsSort.del key2 }

def putId (s : Store) (keyId : DBEventIdKey) (hDbEvent : MEVENT) : Store :=
  { s with m_dbEventIds := s.m_dbEventIds.put keyId hDbEvent }

def delId (s : Store) (keyId : DBEventIdKey) : Store :=
  { s with m_dbEventIds := s.m_dbEventIds.del keyId }

/--
The cached contact behind a handle; handle 0 stands for `m_ccDummy`.
-/
def contact? (s : Store) (contactID : MCONTACT) : Option DBCachedContact :=
  if contactID = 0 then
    some s.m_ccDummy
  else
    s.m_cache.get? contactID

def updateCached (s : Store) (contactID : MCONTACT) (f : DBContact → DBContact) : Store :=
  { s with m_cache := s.m_cache.modify contactID (fun cc => { cc with dbc := f cc.dbc }) }

def saveCached (s : Store) (contactID : MCONTACT) : Store :=
  match s.m_cache.get? contactID with
  | none => s
  | some cc => { s with m_dbContacts := s.m_dbContacts.put contactID cc.dbc }

def updateDbc (s : Store) (contactID : MCONTACT) (f : DBContact → DBContact) : Store :=
  if contactID = 0 then
    { s with m_ccDummy := { s.m_ccDummy with dbc := f s.m_ccDummy.dbc } }
  else
    s.updateCached contactID f

/--
`saveCached`; the counters of `m_ccDummy` are record 2 of `m_dbGlobal`.
-/
def saveDbc (s : Store) (contactID : MCONTACT) : Store :=
  if contactID = 0 then
    { s with m_dbGlobal := s.m_dbGlobal.put 2 s.m_ccDummy.dbc }
  else
    s.saveCached contactID

end Store
end Dbx
