import MirandaNG.Data.CInt
import MirandaNG.Dbx.Basic
import MirandaNG.Memory.Flat

/-!
This module contains the settings of the `Db3x_mmap` profile as the bytes of the mapped file: contacts point to chains of
groups, one for each module, and a group holds its settings one behind the other, up to a zero byte. The profile is open for
writing, and the settings are not resident ones.
-/

namespace Mmap

open Flat
open Dbx (MCONTACT)

def uint32 (n : Nat) : Nat := n % 2 ^ 32

structure DBHeader where
  signature : Vector UInt8 16
  version : Nat
  ofsFileEnd : Nat
  slackSpace : Nat
  contactCount : Nat
  ofsFirstContact : Nat
  ofsUser : Nat
  ofsModuleNames : Nat

def DBHeader.bytes (header : DBHeader) : List UInt8 :=
  header.signature.toList ++ leBytes 4 header.version ++ leBytes 4 header.ofsFileEnd ++ leBytes 4 header.slackSpace
    ++ leBytes 4 header.contactCount ++ leBytes 4 header.ofsFirstContact ++ leBytes 4 header.ofsUser
    ++ leBytes 4 header.ofsModuleNames

structure DBContact where
  signature : Nat
  ofsNext : Nat
  ofsFirstSettings : Nat
  eventCount : Nat
  ofsFirstEvent : Nat
  ofsLastEvent : Nat
  ofsFirstUnread : Nat
  tsFirstUnread : Nat
  dwContactID : Nat

namespace DBContact

def DBCONTACT_SIGNATURE : Nat := 0x43DECADE

def bytes (dbc : DBContact) : List UInt8 :=
  leBytes 4 dbc.signature ++ leBytes 4 dbc.ofsNext ++ leBytes 4 dbc.ofsFirstSettings ++ leBytes 4 dbc.eventCount
    ++ leBytes 4 dbc.ofsFirstEvent ++ leBytes 4 dbc.ofsLastEvent ++ leBytes 4 dbc.ofsFirstUnread
    ++ leBytes 4 dbc.tsFirstUnread ++ leBytes 4 dbc.dwContactID

def read (m : Nat → UInt8) (ofs : Nat) : DBContact where
  signature := readLE m 4 ofs
  ofsNext := readLE m 4 (ofs + 4)
  ofsFirstSettings := readLE m 4 (ofs + 8)
  eventCount := readLE m 4 (ofs + 12)
  ofsFirstEvent := readLE m 4 (ofs + 16)
  ofsLastEvent := readLE m 4 (ofs + 20)
  ofsFirstUnread := readLE m 4 (ofs + 24)
  tsFirstUnread := readLE m 4 (ofs + 28)
  dwContactID := readLE m 4 (ofs + 32)

end DBContact

structure DBModuleName where
  signature : Nat
  ofsNext : Nat
  cbName : UInt8

namespace DBModuleName

def DBMODULENAME_SIGNATURE : Nat := 0x4DDECADE

def nameOfs : Nat := 9

def bytes (dbmn : DBModuleName) : List UInt8 := leBytes 4 dbmn.signature ++ leBytes 4 dbmn.ofsNext ++ [dbmn.cbName]

def read (m : Nat → UInt8) (ofs : Nat) : DBModuleName where
  signature := readLE m 4 ofs
  ofsNext := readLE m 4 (ofs + 4)
  cbName := m (ofs + 8)

end DBModuleName

structure DBContactSettings where
  signature : Nat
  ofsNext : Nat
  ofsModuleName : Nat
  cbBlob : Nat

namespace DBContactSettings

def DBCONTACTSETTINGS_SIGNATURE : Nat := 0x53DECADE

def DB_SETTINGS_RESIZE_GRANULARITY : Nat := 128

def blobOfs : Nat := 16

def bytes (dbcs : DBContactSettings) : List UInt8 :=
  leBytes 4 dbcs.signature ++ leBytes 4 dbcs.ofsNext ++ leBytes 4 dbcs.ofsModuleName ++ leBytes 4 dbcs.cbBlob

def read (m : Nat → UInt8) (ofs : Nat) : DBContactSettings where
  signature := readLE m 4 ofs
  ofsNext := readLE m 4 (ofs + 4)
  ofsModuleName := readLE m 4 (ofs + 8)
  cbBlob := readLE m 4 (ofs + 12)

end DBContactSettings

def DBVT_BYTE : UInt8 := 1
def DBVT_WORD : UInt8 := 2
def DBVT_DWORD : UInt8 := 4
def DBVT_ENCRYPTED : UInt8 := 250
def DBVT_UTF8 : UInt8 := 253
def DBVT_BLOB : UInt8 := 254
def DBVT_ASCIIZ : UInt8 := 255
def DBVTF_VARIABLELENGTH : UInt8 := 0x80

abbrev Blob := { pbVal : List UInt8 // pbVal.length < 2 ^ 16 }

inductive DBVARIANT where
  | byte (bVal : UInt8)
  | word (wVal : UInt16)
  | dword (dVal : UInt32)
  | asciiz (pszVal : List UInt8)
  | utf8 (pszVal : List UInt8)
  | blob (pbVal : Blob)
  | encrypted (pbVal : Blob)
deriving DecidableEq

namespace DBVARIANT

def type : DBVARIANT → UInt8
  | byte _ => DBVT_BYTE
  | word _ => DBVT_WORD
  | dword _ => DBVT_DWORD
  | asciiz _ => DBVT_ASCIIZ
  | utf8 _ => DBVT_UTF8
  | blob _ => DBVT_BLOB
  | encrypted _ => DBVT_ENCRYPTED

def counted (pszVal : List UInt8) : List UInt8 := pszVal.take (pszVal.length % 2 ^ 16)

def contents : DBVARIANT → List UInt8
  | byte bVal => [bVal]
  | word wVal => leBytes 2 wVal.toNat
  | dword dVal => leBytes 4 dVal.toNat
  | asciiz pszVal => counted pszVal
  | utf8 pszVal => counted pszVal
  | blob pbVal => pbVal.1
  | encrypted pbVal => pbVal.1

def hasLength : DBVARIANT → Bool
  | byte _ => false
  | word _ => false
  | dword _ => false
  | asciiz _ => true
  | utf8 _ => true
  | blob _ => true
  | encrypted _ => true

def parts (value : DBVARIANT) : List (List UInt8) :=
  if value.hasLength then [leBytes 2 value.contents.length, value.contents] else [value.contents]

def bytesRequired (value : DBVARIANT) : Nat :=
  if value.hasLength then value.contents.length + 2 else value.type.toNat

end DBVARIANT

def GetSettingValueLength (m : Nat → UInt8) (ofs : Nat) : Nat :=
  if m ofs &&& DBVTF_VARIABLELENGTH ≠ 0 then 2 + readLE m 2 (ofs + 1) else (m ofs).toNat

structure CDb3Mmap where
  m_pDbCache : Nat → UInt8
  m_dwFileSize : Nat
  m_ChunkSize : Nat
  m_dbHeader : DBHeader
  dwOfsContact : MCONTACT → Option Nat
  m_lMods : List (List UInt8 × Nat)

namespace CDb3Mmap

-- `none` stands for `DatabaseCorruption`, which ends the program.
def ReMap (db : CDb3Mmap) (needed : Nat) : Option CDb3Mmap :=
  if needed = 0 then some db
  else if db.m_ChunkSize < needed then
    if uint32 (db.m_dbHeader.ofsFileEnd + db.m_ChunkSize) < uint32 (needed + db.m_dwFileSize) then none
    else some { db with m_dwFileSize := uint32 ((db.m_dbHeader.ofsFileEnd / db.m_ChunkSize + 1) * db.m_ChunkSize) }
  else some { db with m_dwFileSize := uint32 (db.m_dwFileSize + db.m_ChunkSize) }

def reach (db : CDb3Mmap) (ofs : Nat) : Option CDb3Mmap :=
  if db.m_dwFileSize < uint32 ofs then db.ReMap (uint32 ofs - db.m_dwFileSize) else some db

def DBRead (db : CDb3Mmap) (ofs : Nat) : UInt8 :=
  if ofs < db.m_dwFileSize then db.m_pDbCache ofs else 0

def DBWrite (db : CDb3Mmap) (ofs : Nat) (pData : List UInt8) : Option CDb3Mmap := do
  let db ← db.reach (ofs + pData.length)
  return { db with m_pDbCache := write db.m_pDbCache ofs pData }

def DBWrites (db : CDb3Mmap) (ofs : Nat) : List (List UInt8) → Option CDb3Mmap
  | [] => some db
  | pData :: rest => do
    let db ← db.DBWrite ofs pData
    db.DBWrites (ofs + pData.length) rest

def DBMoveChunk (db : CDb3Mmap) (ofsDest ofsSource bytes : Nat) : Option CDb3Mmap := do
  let db ← db.reach (ofsDest + bytes)
  let x := uint32 (ofsSource + bytes) - db.m_dwFileSize
  let cache := write db.m_pDbCache (ofsDest + bytes - x) (List.replicate x 0)
  if ofsSource < db.m_dwFileSize then
    return { db with m_pDbCache := write cache ofsDest (read cache ofsSource (bytes - x)) }
  else
    return { db with m_pDbCache := cache }

def DBFill (db : CDb3Mmap) (ofs bytes : Nat) : CDb3Mmap :=
  if uint32 (ofs + bytes) ≤ db.m_dwFileSize then
    { db with m_pDbCache := write db.m_pDbCache ofs (List.replicate bytes 0) }
  else db

def setFileEnd (db : CDb3Mmap) (ofsFileEnd : Nat) : CDb3Mmap :=
  { db with m_dbHeader := { db.m_dbHeader with ofsFileEnd := ofsFileEnd } }

def CreateNewSpace (db : CDb3Mmap) (bytes : Nat) : Option (Nat × CDb3Mmap) := do
  let ofsNew := db.m_dbHeader.ofsFileEnd
  let db := db.setFileEnd (uint32 (ofsNew + bytes))
  let db ← db.reach db.m_dbHeader.ofsFileEnd
  let db ← db.DBWrite 0 db.m_dbHeader.bytes
  return (ofsNew, db)

def DeleteSpace (db : CDb3Mmap) (ofs bytes : Nat) : Option CDb3Mmap := do
  let db :=
    if uint32 (ofs + bytes) = db.m_dbHeader.ofsFileEnd then db.setFileEnd ofs
    else { db with m_dbHeader := { db.m_dbHeader with slackSpace := uint32 (db.m_dbHeader.slackSpace + bytes) } }
  let db ← db.DBWrite 0 db.m_dbHeader.bytes
  return db.DBFill ofs bytes

def ReallocSpace (db : CDb3Mmap) (ofs oldSize newSize : Nat) : Option (Nat × CDb3Mmap) := do
  if CInt.int32 newSize ≤ CInt.int32 oldSize then
    return (ofs, db)
  else if uint32 (ofs + oldSize) = db.m_dbHeader.ofsFileEnd then
    let ofsFileEnd := ((db.m_dbHeader.ofsFileEnd : Int) + newSize - oldSize) % 2 ^ 32
    let db := db.setFileEnd ofsFileEnd.toNat
    let db ← db.DBWrite 0 db.m_dbHeader.bytes
    return (ofs, db)
  else
    let (ofsNew, db) ← db.CreateNewSpace newSize
    let db ← db.DBMoveChunk ofsNew ofs oldSize
    let db ← db.DeleteSpace ofs oldSize
    return (ofsNew, db)

def FindExistingModuleNameOfs (db : CDb3Mmap) (szName : List UInt8) : Nat := (db.m_lMods.lookup szName).getD 0

def AddToList (db : CDb3Mmap) (name : List UInt8) (ofs : Nat) : Option CDb3Mmap :=
  if db.m_lMods.any fun mn => mn.1 == name || mn.2 == ofs then none
  else some { db with m_lMods := (name, ofs) :: db.m_lMods }

def GetModuleNameOfs (db : CDb3Mmap) (szName : List UInt8) : Option (Nat × CDb3Mmap) := do
  let ofsExisting := db.FindExistingModuleNameOfs szName
  if ofsExisting ≠ 0 then
    return (ofsExisting, db)
  else
    let (ofsNew, db) ← db.CreateNewSpace (szName.length + DBModuleName.nameOfs)
    let dbmn : DBModuleName :=
      { signature := DBModuleName.DBMODULENAME_SIGNATURE
        ofsNext := db.m_dbHeader.ofsModuleNames
        cbName := UInt8.ofNat szName.length }
    let db := { db with m_dbHeader := { db.m_dbHeader with ofsModuleNames := ofsNew } }
    let db ← db.DBWrites ofsNew [dbmn.bytes, szName]
    let db ← db.DBWrite 0 db.m_dbHeader.bytes
    let db ← db.AddToList szName ofsNew
    return (ofsNew, db)

def GetContactOffset (db : CDb3Mmap) (contactID : MCONTACT) : Nat :=
  if contactID = 0 then db.m_dbHeader.ofsUser else (db.dwOfsContact contactID).getD 0

/-! ## The groups of a contact

A chain has fewer groups than the file has bytes, and a group fewer settings. -/

def findGroup (db : CDb3Mmap) (ofsModuleName : Nat) : Nat → Nat → Option Nat
  | 0, _ => none
  | n + 1, ofsThis =>
    if ofsThis = 0 then some 0
    else
      let dbcs := DBContactSettings.read db.DBRead ofsThis
      if dbcs.signature ≠ DBContactSettings.DBCONTACTSETTINGS_SIGNATURE then none
      else if dbcs.ofsModuleName = ofsModuleName then some ofsThis
      else db.findGroup ofsModuleName n dbcs.ofsNext

def GetSettingsGroupOfsByModuleNameOfs (db : CDb3Mmap) (dbc : DBContact) (ofsModuleName : Nat) : Option Nat :=
  db.findGroup ofsModuleName (db.m_dbHeader.ofsFileEnd + 1) dbc.ofsFirstSettings

def findPrevious (db : CDb3Mmap) (ofsSettingsGroup : Nat) : Nat → Nat → Option Nat
  | 0, _ => none
  | n + 1, ofsDbcsPrev =>
    let ofsNext := (DBContactSettings.read db.DBRead ofsDbcsPrev).ofsNext
    if ofsNext = ofsSettingsGroup then some ofsDbcsPrev
    else if ofsNext = 0 then none
    else db.findPrevious ofsSettingsGroup n ofsNext

def findSetting (m : Nat → UInt8) (szSetting : List UInt8) : Nat → Nat → Nat
  | 0, ofsBlobPtr => ofsBlobPtr
  | n + 1, ofsBlobPtr =>
    if m ofsBlobPtr = 0 then ofsBlobPtr
    else if (m ofsBlobPtr).toNat = szSetting.length ∧ Flat.read m (ofsBlobPtr + 1) szSetting.length = szSetting then
      ofsBlobPtr
    else
      let ofsValue := ofsBlobPtr + ((m ofsBlobPtr).toNat + 1)
      findSetting m szSetting n (ofsValue + (1 + GetSettingValueLength m ofsValue))

def endOfList (m : Nat → UInt8) : Nat → Nat → Nat
  | 0, ofsBlobPtr => ofsBlobPtr
  | n + 1, ofsBlobPtr =>
    if m ofsBlobPtr = 0 then ofsBlobPtr
    else
      let ofsValue := ofsBlobPtr + ((m ofsBlobPtr).toNat + 1)
      endOfList m n (ofsValue + (1 + GetSettingValueLength m ofsValue))

def cutSetting (db : CDb3Mmap) (ofsSettingToCut settingNameLen : Nat) : Option (Nat × CDb3Mmap) := do
  let nameLen := 1 + settingNameLen
  let valLen := 1 + GetSettingValueLength db.DBRead (ofsSettingToCut + nameLen)
  let ofsBlobPtr := endOfList db.DBRead db.m_dwFileSize (ofsSettingToCut + nameLen + valLen)
  let db ← db.DBMoveChunk ofsSettingToCut (ofsSettingToCut + nameLen + valLen) (ofsBlobPtr + 1 - ofsSettingToCut)
  return (ofsBlobPtr - (nameLen + valLen), db)

def roundUp (bytesRequired : Nat) : Nat :=
  let g := DBContactSettings.DB_SETTINGS_RESIZE_GRANULARITY
  bytesRequired + (g - bytesRequired % g) % g

def createGroup (db : CDb3Mmap) (ofsContact : Nat) (dbc : DBContact) (ofsModuleName settingNameLen : Nat)
    (value : DBVARIANT)
    : Option ((DBContact × Nat × DBContactSettings) × CDb3Mmap) := do
  let bytesRequired := roundUp (value.bytesRequired + (2 + settingNameLen))
  let (ofsSettingsGroup, db) ← db.CreateNewSpace (bytesRequired + DBContactSettings.blobOfs)
  let dbcs : DBContactSettings :=
    { signature := DBContactSettings.DBCONTACTSETTINGS_SIGNATURE
      ofsNext := dbc.ofsFirstSettings
      ofsModuleName := ofsModuleName
      cbBlob := bytesRequired }
  let dbc := { dbc with ofsFirstSettings := ofsSettingsGroup }
  let db ← db.DBWrite ofsContact dbc.bytes
  let db ← db.DBWrite ofsSettingsGroup (dbcs.bytes ++ [0])
  return ((dbc, ofsSettingsGroup, dbcs), db)

def moveGroup (db : CDb3Mmap) (ofsContact : Nat) (dbc : DBContact) (ofsSettingsGroup : Nat) (dbcs : DBContactSettings)
    (bytesRequired : Nat)
    : Option (Nat × CDb3Mmap) := do
  let bytesRequired := roundUp bytesRequired
  let ofsDbcsPrev ←
    if dbc.ofsFirstSettings = ofsSettingsGroup then some 0
    else db.findPrevious ofsSettingsGroup (db.m_dbHeader.ofsFileEnd + 1) dbc.ofsFirstSettings
  let (ofsNew, db) ← db.ReallocSpace ofsSettingsGroup (dbcs.cbBlob + DBContactSettings.blobOfs)
    (bytesRequired + DBContactSettings.blobOfs)
  let db ← db.DBWrite ofsNew { dbcs with cbBlob := bytesRequired }.bytes
  if ofsDbcsPrev = 0 then
    let db ← db.DBWrite ofsContact { dbc with ofsFirstSettings := ofsNew }.bytes
    return (ofsNew, db)
  else
    let dbcsPrev := DBContactSettings.read db.DBRead ofsDbcsPrev
    let db ← db.DBWrite ofsDbcsPrev { dbcsPrev with ofsNext := ofsNew }.bytes
    return (ofsNew, db)

def appendSetting (db : CDb3Mmap) (ofsContact : Nat) (dbc : DBContact) (ofsSettingsGroup : Nat)
    (dbcs : DBContactSettings) (ofsBlobPtr : Nat) (szSetting : List UInt8) (value : DBVARIANT)
    : Option CDb3Mmap := do
  let bytesRequired := value.bytesRequired + (2 + szSetting.length)
    + (ofsBlobPtr + 1 - (ofsSettingsGroup + DBContactSettings.blobOfs))
  let (ofsNew, db) ←
    if dbcs.cbBlob < bytesRequired then db.moveGroup ofsContact dbc ofsSettingsGroup dbcs bytesRequired
    else some (ofsSettingsGroup, db)
  db.DBWrites (ofsNew + (ofsBlobPtr - ofsSettingsGroup))
    ([[UInt8.ofNat szSetting.length], szSetting, [value.type]] ++ value.parts ++ [[0]])

def differs (m : Nat → UInt8) (ofs : Nat) (value : DBVARIANT) : Prop :=
  m ofs ≠ value.type
    ∨ (m ofs = DBVT_ASCIIZ ∨ m ofs = DBVT_UTF8) ∧ readLE m 2 (ofs + 1) ≠ value.contents.length
    ∨ (m ofs = DBVT_BLOB ∨ m ofs = DBVT_ENCRYPTED) ∧ readLE m 2 (ofs + 1) ≠ value.contents.length

instance (m : Nat → UInt8) (ofs : Nat) (value : DBVARIANT) : Decidable (differs m ofs value) := by
  unfold differs
  infer_instance

def WriteContactSettingWorker (db : CDb3Mmap) (contactID : MCONTACT) (szModule szSetting : List UInt8) (value : DBVARIANT)
    : Option (Nat × CDb3Mmap) := do
  let ofsContact := db.GetContactOffset contactID
  if ofsContact = 0 then
    return (2, db)
  else
    let (ofsModuleName, db) ← db.GetModuleNameOfs szModule
    let dbc := DBContact.read db.DBRead ofsContact
    if dbc.signature ≠ DBContact.DBCONTACT_SIGNATURE then
      return (1, db)
    else
      let ofsSettingsGroup ← db.GetSettingsGroupOfsByModuleNameOfs dbc ofsModuleName
      if ofsSettingsGroup = 0 then
        let ((dbc, ofsSettingsGroup, dbcs), db) ← db.createGroup ofsContact dbc ofsModuleName szSetting.length value
        let db ← db.appendSetting ofsContact dbc ofsSettingsGroup dbcs (ofsSettingsGroup + DBContactSettings.blobOfs)
          szSetting value
        return (0, db)
      else
        let dbcs := DBContactSettings.read db.DBRead ofsSettingsGroup
        let ofsBlobPtr := findSetting db.DBRead szSetting db.m_dwFileSize (ofsSettingsGroup + DBContactSettings.blobOfs)
        if db.DBRead ofsBlobPtr ≠ 0 then
          let ofsValue := ofsBlobPtr + (1 + szSetting.length)
          if differs db.DBRead ofsValue value then
            let (ofsBlobPtr, db) ← db.cutSetting ofsBlobPtr szSetting.length
            let db ← db.appendSetting ofsContact dbc ofsSettingsGroup dbcs ofsBlobPtr szSetting value
            return (0, db)
          else
            let db ← db.DBWrite (ofsValue + (if value.hasLength then 3 else 1)) value.contents
            return (0, db)
        else
          let db ← db.appendSetting ofsContact dbc ofsSettingsGroup dbcs ofsBlobPtr szSetting value
          return (0, db)

def DeleteContactSetting (db : CDb3Mmap) (contactID : MCONTACT) (szModule szSetting : List UInt8)
    : Option (Nat × CDb3Mmap) := do
  if 0xFE < szSetting.length then
    return (1, db)
  else if 0xFE < szModule.length then
    return (1, db)
  else
    let (ofsModuleName, db) ← db.GetModuleNameOfs szModule
    let ofsContact := db.GetContactOffset contactID
    let dbc := DBContact.read db.DBRead ofsContact
    if dbc.signature ≠ DBContact.DBCONTACT_SIGNATURE then
      return (1, db)
    else
      let ofsSettingsGroup ← db.GetSettingsGroupOfsByModuleNameOfs dbc ofsModuleName
      if ofsSettingsGroup = 0 then
        return (1, db)
      else
        let ofsBlobPtr := findSetting db.DBRead szSetting db.m_dwFileSize (ofsSettingsGroup + DBContactSettings.blobOfs)
        if db.DBRead ofsBlobPtr = 0 then
          return (1, db)
        else
          let (_, db) ← db.cutSetting ofsBlobPtr szSetting.length
          return (0, db)

end CDb3Mmap

end Mmap
