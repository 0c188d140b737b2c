import MirandaNG.Dbx.Modules

/-!
This module contains the event operations of the store: building a record, the sort index behind it,
the counters of the contacts it is filed under and the index of server ids.
-/

namespace Dbx

open Kv Crypt

/--
The header a `DBEvent *` to this memory reads. Memory behind the list reads as 0.
-/
def DBEvent.ofMem (mem : List UInt8) : DBEvent where
  dwContactID := leNat 0 4
  iModuleId := leNat 4 4
  timestamp := leNat 8 8
  flags := UInt32.ofNat (leNat 16 4)
  wEventType := leNat 20 2
  cbBlob := leNat 22 2
where
  /-- A little endian number of `n` bytes at offset `off`. -/
  leNat (off : Nat) : Nat → Nat
    | 0 => 0
    | n + 1 => (mem.getD off 0).toNat + 256 * leNat (off + 1) n

def DBContact.Advance (dbc : DBContact) (id : MEVENT) (dbe : DBEvent) : DBContact :=
  let dbc := { dbc with dwEventCount := (dbc.dwEventCount + 1) % 2 ^ 32 }
  if dbe.markedRead then
    dbc
  else if dbe.timestamp < dbc.tsFirstUnread ∨ dbc.tsFirstUnread = 0 then
    { dbc with tsFirstUnread := dbe.timestamp, evFirstUnread := id }
  else
    dbc

/--
The blob fields of the `DBEVENTINFO` a caller of `GetEvent` hands in: -1 for memory the store
allocates, or memory of the caller.
-/
inductive BlobBuffer where
  | alloc
  | caller (pBlob : Option (List UInt8)) (cbBlob : Nat)

namespace BlobBuffer

def missing : BlobBuffer → Bool
  | .alloc => false
  | .caller pBlob cbBlob => cbBlob > 0 && pBlob.isNone

def memory (cbBlob : Nat) : BlobBuffer → Option (List UInt8)
  | .alloc => some (List.replicate (cbBlob + 2) 0)
  | .caller pBlob _ => pBlob

def bytesToCopy (cbBlob : Nat) : BlobBuffer → Nat
  | .alloc => cbBlob
  | .caller _ capacity => if capacity < cbBlob then capacity else cbBlob

end BlobBuffer

structure EventInfo where
  szModule : Option CStr
  iTimestamp : Nat
  flags : UInt32
  eventType : Nat
  cbBlob : Nat
  pBlob : Option (List UInt8)
  szId : Option CStr

namespace Store

/--
The blob as it is stored, and whether it is encrypted: `cbBlob` is 16 bits wide, and a provider that
refuses the blob leaves it as it is.
-/
def encodeBlob (s : Store) (env : Env) (dbei : DBEVENTINFO) : List UInt8 × Bool :=
  let cbBlob := dbei.cbBlob % 2 ^ 16
  let pBlob := dbei.pBlob.map (·.take cbBlob)
  match if s.m_bEncrypted then s.m_crypto.encodeBuffer env.tmpBuf pBlob else none with
  | some pResult => (pResult.take (pResult.length % 2 ^ 16), true)
  | none => (pBlob.getD [], false)

/--
The record `EditEvent` writes for an event of `hContact`. The terminator between the blob and the id
is written only where the buffer does not hold a zero already, and only a written byte advances the
end of the record.
-/
def makeRecord (s : Store) (env : Env) (hContact : MCONTACT) (iModuleId : Nat)
    (dbei : DBEVENTINFO) : EventRecord :=
  let (pBlob, encrypted) := s.encodeBlob env dbei
  let hasId := dbei.szId.any (·.strlen > 0)
  let flags := dbei.flags ||| (if encrypted then DBEF_ENCRYPTED else 0)
  let dbe := {
    dwContactID := hContact
    iModuleId
    timestamp := dbei.getUnixtime
    flags := flags ||| (if hasId then DBEF_HAS_ID else 0)
    wEventType := dbei.eventType % 2 ^ 16
    cbBlob := pBlob.length
  }
  let terminator := if env.recBuf (24 + pBlob.length) ≠ 0 then [0] else []
  let id := if hasId then (dbei.szId.map CStr.toMem).getD [] else []
  { dbe, tail := pBlob ++ terminator ++ id }

def historyOf (s : Store) (hContact : MCONTACT) : Option (MCONTACT × Option MCONTACT) :=
  if hContact = 0 then
    some (0, none)
  else
    match s.m_cache.get? hContact with
    | none => none
    | some cc =>
      if cc.IsSub then
        match s.m_cache.get? cc.parentID with
        | none => none
        | some _ => some (cc.parentID, some hContact)
      else
        some (hContact, none)

def fileEvent (s : Store) (hContact : MCONTACT) (hDbEvent : MEVENT) (dbe : DBEvent) : Store :=
  let key2 := { hContact, hEvent := hDbEvent, ts := dbe.timestamp }
  let s := s.putKey key2
  let s := s.updateDbc hContact (·.Advance hDbEvent dbe)
  s.saveDbc hContact

def fileSub (s : Store) (ccSub : Option MCONTACT) (hDbEvent : MEVENT) (dbe : DBEvent) : Store :=
  match ccSub with
  | none => s
  | some ccSub => s.fileEvent ccSub hDbEvent dbe

def fileId (s : Store) (iModuleId : Nat) (szId : Option CStr) (hDbEvent : MEVENT) : Store :=
  match szId with
  | none => s
  | some szId => s.putId (.make iModuleId szId) hDbEvent

def writeEvent (s : Store) (cc : MCONTACT) (ccSub : Option MCONTACT) (hDbEvent : MEVENT)
    (data : EventRecord) (szId : Option CStr) : Store :=
  let s := s.putEvent hDbEvent data
  let s := s.fileEvent cc hDbEvent data.dbe
  let s := s.fileSub ccSub hDbEvent data.dbe
  s.fileId data.dbe.iModuleId szId hDbEvent

def EditEvent' (s : Store) (env : Env) (hContact : MCONTACT) (hDbEvent : MEVENT)
    (dbei : DBEVENTINFO) (bNew : Bool) : Store × Bool :=
  let (s, iModuleId) := s.GetModuleID dbei.szModule
  match s.historyOf hContact with
  | none => (s, false)
  | some (cc, ccSub) =>
    if bNew && s.m_safetyMode && env.filtered then
      (s, false)
    else
      let data := s.makeRecord env hContact iModuleId dbei
      (s.writeEvent cc ccSub hDbEvent data dbei.szId, true)

def AddEvent (s : Store) (env : Env) (contactID : MCONTACT) (dbei : DBEVENTINFO)
    : Store × MEVENT :=
  if dbei.iTimestamp = 0 then
    (s, 0)
  else
    let dwEventId := (s.m_dwMaxEventId + 1) % 2 ^ 32
    let s := { s with m_dwMaxEventId := dwEventId }
    let (s, ok) := s.EditEvent' env contactID dwEventId dbei true
    (s, if ok then dwEventId else 0)

/--
The public `EditEvent`; it answers `true` on success. The contact and the timestamp stay those of the
stored event.
-/
def EditEvent (s : Store) (env : Env) (hDbEvent : MEVENT) (dbei : DBEVENTINFO) : Store × Bool :=
  if dbei.iTimestamp = 0 then
    (s, false)
  else
    match s.m_dbEvents.get? hDbEvent with
    | none => (s, false)
    | some data =>
      let tmp := { dbei with iTimestamp := data.dbe.timestamp }
      s.EditEvent' env data.dbe.dwContactID hDbEvent tmp false

def scanUnread (env : Env) (contactID : MCONTACT) : List (DBEventSortingKey × List UInt8) → Bool
  | [] => false
  | (key, data) :: l =>
    let dbe := DBEvent.ofMem (data ++ env.behindSort key)
    if dbe.dwContactID ≠ contactID then
      false
    else if !dbe.markedRead then
      true
    else
      scanUnread env contactID l

/--
The new counters of contact `contactID`. The pair is taken from `key2`, the key the search began at.
-/
def FindNextUnread (s : Store) (env : Env) (contactID : MCONTACT) (key2 : DBEventSortingKey)
    (dbc : DBContact) : DBContact :=
  if key2 ∈ s.m_dbEventsSort ∧ scanUnread env contactID (s.m_dbEventsSort.seek key2) then
    { dbc with evFirstUnread := key2.hEvent, tsFirstUnread := key2.ts }
  else
    { dbc with evFirstUnread := 0, tsFirstUnread := 0 }

/--
Whether contact `cc` may work on the event; the answer is the other contact the event is filed under.
-/
def CheckEvent (s : Store) (contactID : MCONTACT) (cc : DBCachedContact) (cdbe : DBEvent)
    : Option (Option MCONTACT) :=
  if cc.IsSub then
    if contactID ≠ cdbe.dwContactID then
      none
    else
      some ((s.m_cache.get? cc.parentID).map (fun _ => cc.parentID))
  else if cc.IsMeta then
    match s.m_cache.get? cdbe.dwContactID with
    | none => none
    | some cc2 =>
      if cc2.parentID = contactID then some (some cdbe.dwContactID) else none
  else
    if contactID = cdbe.dwContactID then some none else none

def dropEvent (s : Store) (env : Env) (key2 : DBEventSortingKey) (dbc : DBContact) : DBContact :=
  let dbc := { dbc with dwEventCount := (dbc.dwEventCount + (2 ^ 32 - 1)) % 2 ^ 32 }
  if dbc.evFirstUnread = key2.hEvent then
    s.FindNextUnread env key2.hContact key2 dbc
  else
    dbc

def unfileEvent (s : Store) (env : Env) (key2 : DBEventSortingKey) : Store :=
  let s := s.delKey key2
  let s := s.updateDbc key2.hContact (s.dropEvent env key2)
  s.saveDbc key2.hContact

def unfileCached (s : Store) (env : Env) (key2 : DBEventSortingKey) : Store :=
  let s := s.delKey key2
  let s := s.updateCached key2.hContact (s.dropEvent env key2)
  s.saveCached key2.hContact

/--
The id `DeleteEvent` finds in a record: a C string one byte behind the blob.
-/
def readId (env : Env) (hDbEvent : MEVENT) (data : EventRecord) : Option CStr :=
  if data.dbe.flags &&& DBEF_HAS_ID ≠ 0 then
    some (.ofMem ((data.tail ++ env.behindEvent hDbEvent).drop (data.dbe.cbBlob + 1)))
  else
    none

def eraseRecord (s : Store) (env : Env) (hDbEvent : MEVENT) (data : EventRecord) : Store :=
  let s := match readId env hDbEvent data with
    | none => s
    | some szId => s.delId (.make data.dbe.iModuleId szId)
  s.delEvent hDbEvent

def DeleteEvent (s : Store) (env : Env) (hDbEvent : MEVENT) : Store × Bool :=
  match s.m_dbEvents.get? hDbEvent with
  | none => (s, false)
  | some data =>
    let dbe := data.dbe
    match s.contact? dbe.dwContactID with
    | none => (s, false)
    | some cc =>
      if cc.dbc.dwEventCount = 0 then
        (s, false)
      else
        match s.CheckEvent dbe.dwContactID cc dbe with
        | none => (s, false)
        | some cc2 =>
          let key2 := { hContact := dbe.dwContactID, hEvent := hDbEvent, ts := dbe.timestamp }
          if key2 ∉ s.m_dbEventsSort then
            (s, false)
          else
            let s := s.unfileEvent env key2
            match cc2 with
            | none => (s.eraseRecord env hDbEvent data, true)
            | some cc2 =>
              let key2 := { key2 with hContact := cc2 }
              if key2 ∉ s.m_dbEventsSort then
                (s, false)
              else
                let s := s.unfileCached env key2
                (s.eraseRecord env hDbEvent data, true)

/--
Search the first unread event of a cached contact anew and store the counters.
-/
def refreshUnread (s : Store) (env : Env) (key2 : DBEventSortingKey) : Store :=
  let s := s.updateCached key2.hContact (s.FindNextUnread env key2.hContact key2)
  s.saveCached key2.hContact

/--
`MarkEventRead` answers the flags of the event, or -1 or -2.
-/
def MarkEventRead (s : Store) (env : Env) (contactID : MCONTACT) (hDbEvent : MEVENT)
    : Store × Int :=
  if hDbEvent = 0 then
    (s, -1)
  else
    match s.m_cache.get? contactID with
    | none => (s, -1)
    | some cc =>
      match s.m_dbEvents.get? hDbEvent with
      | none => (s, -1)
      | some data =>
        let cdbe := data.dbe
        if cdbe.markedRead then
          (s, cdbe.flags.toInt32.toInt)
        else
          match s.CheckEvent contactID cc cdbe with
          | none => (s, -2)
          | some cc2 =>
            let wRetVal := cdbe.flags ||| DBEF_READ
            let pNewEvent := { data with dbe := { cdbe with flags := wRetVal } }
            let s := s.putEvent hDbEvent pNewEvent
            let keyVal := { hContact := contactID, hEvent := hDbEvent, ts := cdbe.timestamp }
            let s := s.refreshUnread env keyVal
            let s := match cc2 with
              | none => s
              | some cc2 => s.refreshUnread env { keyVal with hContact := cc2 }
            (s, wRetVal.toInt32.toInt)

def GetEventCount (s : Store) (contactID : MCONTACT) : Nat :=
  if contactID = 0 then
    s.m_ccDummy.dbc.dwEventCount
  else
    match s.m_cache.get? contactID with
    | none => 0
    | some cc => cc.dbc.dwEventCount

def GetBlobSize (s : Store) (hDbEvent : MEVENT) : Int :=
  match s.m_dbEvents.get? hDbEvent with
  | none => -1
  | some data => data.dbe.cbBlob

/--
The first `bytesToCopy` bytes of a blob. A decoded blob is filled up with zeros to the length of the
encoded one.
-/
def readBlob (s : Store) (env : Env) (dbe : DBEvent) (pSrc : List UInt8) (bytesToCopy : Nat)
    : Option (List UInt8) :=
  if dbe.flags &&& DBEF_ENCRYPTED ≠ 0 then
    match s.m_crypto.decodeBuffer env.heap (some (pSrc.take dbe.cbBlob)) with
    | none => none
    | some pBlob =>
      some (pBlob.take bytesToCopy ++ List.replicate (bytesToCopy - pBlob.length) 0)
  else
    some (pSrc.take bytesToCopy)

/--
`GetEvent`; it answers `none` where the code returns 1.
-/
def GetEvent (s : Store) (env : Env) (hDbEvent : MEVENT) (buf : BlobBuffer) : Option EventInfo :=
  if buf.missing then
    none
  else
    match s.m_dbEvents.get? hDbEvent with
    | none => none
    | some data =>
      let dbe := data.dbe
      let dbei : EventInfo := {
        szModule := s.GetModuleName dbe.iModuleId
        iTimestamp := dbe.timestamp
        flags := dbe.flags
        eventType := dbe.wEventType
        cbBlob := dbe.cbBlob
        pBlob := buf.memory dbe.cbBlob
        szId := none
      }
      let bytesToCopy := buf.bytesToCopy dbe.cbBlob
      match dbei.pBlob with
      | none => some dbei
      | some mem =>
        if bytesToCopy = 0 then
          some dbei
        else
          let pSrc := data.tail ++ env.behindEvent hDbEvent
          match s.readBlob env dbe pSrc bytesToCopy with
          | none => none
          | some pBlob =>
            some { dbei with
              flags := dbe.flags &&& ~~~DBEF_ENCRYPTED
              pBlob := some (pBlob ++ mem.drop pBlob.length)
              szId :=
                if dbe.flags &&& DBEF_HAS_ID ≠ 0 then
                  some (.ofMem (pSrc.drop (dbe.cbBlob + 1)))
                else
                  none }

def GetEventById (s : Store) (szModule szId : Option CStr) : Store × MEVENT :=
  match szModule, szId with
  | some szModule, some szId =>
    let (s, iModuleId) := s.GetModuleID szModule
    match s.m_dbEventIds.get? (.make iModuleId szId) with
    | none => (s, 0)
    | some hDbEvent =>
      if hDbEvent ∈ s.m_dbEvents then (s, hDbEvent) else (s, 0)
  | _, _ => (s, 0)

end Store
end Dbx
