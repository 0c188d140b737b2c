import MirandaNG.Dbx.Modules
import MirandaNG.Core.Utf

/-!
This module contains the data model of the settings store: values, the cache that answers every
read, and the records of `m_dbSettings`. A cached value is found by its contact and by the interned
name "module/setting". Interning keeps one pointer for each string, so names are strings here.

It also contains the operations of the settings store: reading, writing and deleting a setting, and
filling the cache when a profile is loaded. A result `true` is the return value 0 of the source.
-/

namespace Dbx

open Kv Crypt

structure Blob where
  bytes : List UInt8
  length_lt : bytes.length < 2 ^ 16
deriving DecidableEq

/--
The blob of a buffer whose length is cast to the 16 bits of `cpbVal`.
-/
def Blob.cast (mem : List UInt8) : Blob where
  bytes := mem.take (mem.length % 2 ^ 16)
  length_lt := by
    rw [List.length_take]
    omega

theorem Blob.cast_bytes {mem : List UInt8} (h : mem.length < 2 ^ 16)
    : (Blob.cast mem).bytes = mem := by
  unfold Blob.cast
  dsimp only
  rw [Nat.mod_eq_of_lt h, List.take_length]

theorem Blob.ext_bytes {b b' : Blob} (h : b.bytes = b'.bytes) : b = b' := by
  cases b
  cases b'
  simpa using h

theorem Blob.cast_self (b : Blob) : Blob.cast b.bytes = b := by
  apply Blob.ext_bytes
  apply Blob.cast_bytes b.length_lt

inductive DBVARIANT where
  | deleted
  | byte (bVal : UInt8)
  | word (wVal : UInt16)
  | byteHidden (bVal : UInt8)
  | dword (dVal : UInt32)
  | asciiz (pszVal : Option CStr)
  | blob (pbVal : Option Blob)
  | utf8 (pszVal : Option CStr)
  | wchar (pwszVal : Option (List UInt16))
  | encrypted (pbVal : Option Blob)
  | other (type : UInt8)
deriving DecidableEq

structure DBSettingKey where
  hContact : MCONTACT
  dwModuleId : Nat
  szSettingName : CStr
deriving DecidableEq

/--
`DBSettingKey::Compare`: by contact, then by module, then by `strcmp`.
-/
instance : LinearOrder DBSettingKey :=
  LinearOrder.lift' (fun k => toLex (k.hContact, toLex (k.dwModuleId, k.szSettingName))) <| by
    rintro ⟨c, m, n⟩ ⟨c', m', n'⟩ h
    simp only [toLex_inj, Prod.mk.injEq] at h
    simp [h]

/--
What the calls on settings find outside of the store.
-/
structure SettingEnv extends Env where
  /-- The low 16 bits of the address of the bytes that are to be written. -/
  pbVal : UInt16 := 0
  /-- The memory these bytes are in, from their address on. -/
  behindBlob : Nat → UInt8 := fun _ => 0
  /-- The bytes behind a record of `m_dbSettings`. -/
  behindSetting : DBSettingKey → List UInt8 := fun _ => []
  /-- Whether `mdbx_put` stores the record. -/
  mdbx_put : Bool := true

structure Database extends Store where
  m_dbSettings : Table DBSettingKey (List UInt8)
  /-- The cached values of a contact; those of contact 0 are `m_lGlobalSettings`. -/
  values : MCONTACT → Table CStr DBVARIANT
  m_lResidentSettings : List CStr
  g_bMetaEnabled : Bool
  /-- `Proto_GetBaseAccountName`, the answer of the account manager. -/
  baseAccountName : MCONTACT → Option CStr

def INVALID_CONTACT_ID : MCONTACT := 2 ^ 32 - 1

def META_PROTO : CStr := ⟨[77, 101, 116, 97, 67, 111, 110, 116, 97, 99, 116, 115], by decide⟩

def szIsSubcontact : CStr := ⟨[73, 115, 83, 117, 98, 99, 111, 110, 116, 97, 99, 116], by decide⟩
def szParentMetaID : CStr := ⟨[80, 97, 114, 101, 110, 116, 77, 101, 116, 97, 73, 68], by decide⟩

/--
The name `GetCachedSetting` interns: "module/setting".
-/
def GetCachedSetting (szModuleName szSettingName : CStr) : CStr where
  bytes := szModuleName.bytes ++ 47 :: szSettingName.bytes
  nul_notMem := by
    have hm := szModuleName.nul_notMem
    have hs := szSettingName.nul_notMem
    simp [hm, hs]

def ValidLookupName (szModule szSetting : CStr) : Bool :=
  szModule = META_PROTO ∧ szSetting ≠ szIsSubcontact ∧ szSetting ≠ szParentMetaID

def szPassword : List UInt8 := [112, 97, 115, 115, 119, 111, 114, 100]

def encryptedSettings : List (List UInt8) :=
  [[78, 76, 80, 114, 111, 120, 121, 65, 117, 116, 104, 80, 97, 115, 115, 119, 111, 114, 100],
    [76, 78, 80, 97, 115, 115, 119, 111, 114, 100],
    [70, 105, 108, 101, 80, 114, 111, 120, 121, 80, 97, 115, 115, 119, 111, 114, 100],
    [84, 111, 107, 101, 110, 83, 101, 99, 114, 101, 116]]

def szSecureIM : List UInt8 := [83, 101, 99, 117, 114, 101, 73, 77]
def secureIMSettings : List (List UInt8) :=
  [[112, 103, 112], [112, 103, 112, 80, 114, 105, 118, 75, 101, 121]]

def toLower (c : UInt8) : UInt8 := if 65 ≤ c ∧ c ≤ 90 then c + 32 else c

def IsSettingEncrypted (szModule szSetting : CStr) : Bool :=
  (szSetting.bytes.take 8).map toLower = szPassword ∨
  szSetting.bytes ∈ encryptedSettings ∨
  szModule.bytes = szSecureIM ∧ szSetting.bytes ∈ secureIMSettings

namespace Database

def create (m_crypto : MICryptoEngine) (m_bEncrypted : Bool) : Database where
  toStore := .create m_crypto m_bEncrypted
  m_dbSettings := .empty
  values := fun _ => .empty
  m_lResidentSettings := []
  g_bMetaEnabled := true
  baseAccountName := fun _ => none

def hasValues (db : Database) (contactID : MCONTACT) : Bool :=
  contactID = 0 ∨ contactID ∈ db.m_cache

def cached (db : Database) (contactID : MCONTACT) (szSetting : CStr) : Option DBVARIANT :=
  if db.hasValues contactID then
    (db.values contactID).get? szSetting
  else
    none

def setValues (db : Database) (contactID : MCONTACT) (t : Table CStr DBVARIANT) : Database :=
  { db with values := Function.update db.values contactID t }

/--
`SetCachedVariant` on the value `GetCachedValuePtr` found or allocated, if there is a place for it.
-/
def SetCachedVariant (db : Database) (contactID : MCONTACT) (szSetting : CStr) (v : DBVARIANT)
    : Database :=
  if db.hasValues contactID then
    db.setValues contactID ((db.values contactID).put szSetting v)
  else
    db

def removeCached (db : Database) (contactID : MCONTACT) (szSetting : CStr) : Database :=
  if db.hasValues contactID then
    db.setValues contactID ((db.values contactID).del szSetting)
  else
    db

def Meta_GetContactHandle (db : Database) (cc : DBCachedContact) (contact_number : Int)
    : MCONTACT :=
  if contact_number ≥ cc.nSubs ∨ contact_number < 0 ∨ !db.g_bMetaEnabled then
    0
  else
    cc.pSubs.getD contact_number.toNat 0

def CheckMeta (db : Database) (hMeta : MCONTACT) : Option DBCachedContact :=
  if !db.g_bMetaEnabled then
    none
  else
    match db.m_cache.get? hMeta with
    | none => none
    | some cc => if cc.nSubs = -1 then none else some cc

def db_mc_getDefault (db : Database) (hMetaContact : MCONTACT) : MCONTACT :=
  match db.CheckMeta hMetaContact with
  | none => 0
  | some cc => if cc.nDefault ≠ -1 then db.Meta_GetContactHandle cc cc.nDefault else 0

end Database

def bytes16 (n : Nat) : List UInt8 := [UInt8.ofNat n, UInt8.ofNat (n / 256)]

def bytes32 (n : Nat) : List UInt8 := bytes16 n ++ bytes16 (n / 65536)

def word16 (mem : List UInt8) : Nat := (mem.getD 0 0).toNat + 256 * (mem.getD 1 0).toNat

def word32 (mem : List UInt8) : Nat := word16 mem + 65536 * word16 (mem.drop 2)

namespace DBVARIANT

/--
The record `WriteContactSettingWorker` builds. A string is as long as `cchVal` says, the length cast
to 16 bits. The types without a record are refused.
-/
def pack : DBVARIANT → Option (List UInt8)
  | byte bVal => some [1, bVal]
  | word wVal => some (2 :: bytes16 wVal.toNat)
  | dword dVal => some (4 :: bytes32 dVal.toNat)
  | asciiz (some pszVal) => some (255 :: packString pszVal)
  | utf8 (some pszVal) => some (253 :: packString pszVal)
  | blob (some pbVal) => some (254 :: packBlob pbVal)
  | encrypted (some pbVal) => some (250 :: packBlob pbVal)
  | _ => none
where
  packString (pszVal : CStr) : List UInt8 :=
    let cchVal := pszVal.strlen % 2 ^ 16
    bytes16 cchVal ++ pszVal.bytes.take cchVal
  packBlob (pbVal : Blob) : List UInt8 := bytes16 pbVal.bytes.length ++ pbVal.bytes

/--
The value `FillSettings` reads out of the memory a record starts at. The first byte, the type, is
not `DBVT_DELETED`.
-/
def unpack (type : UInt8) (pBlob : List UInt8) : DBVARIANT :=
  let varLen := word16 pBlob
  let var := (pBlob.drop 2).take varLen
  if type = 1 then byte (pBlob.getD 0 0)
  else if type = 2 then word (UInt16.ofNat (word16 pBlob))
  else if type = 4 then dword (UInt32.ofNat (word32 pBlob))
  else if type = 253 then utf8 (some (.ofMem var))
  else if type = 255 then asciiz (some (.ofMem var))
  else if type = 254 then blob (some (.cast var))
  else if type = 250 then encrypted (some (.cast var))
  else other type

end DBVARIANT
end Dbx

namespace Dbx
namespace Database

open Kv Crypt

/--
The contact and the module a lookup goes on with that has found nothing: those of the default
contact of a meta contact.
-/
def lookupDefault (db : Database) (contactID : MCONTACT) (szModule szSetting : CStr)
    : Option (MCONTACT × CStr) :=
  if contactID = 0 then
    none
  else
    match db.m_cache.get? contactID with
    | none => none
    | some cc =>
      if cc.IsMeta ∧ ValidLookupName szModule szSetting then
        let contactID := db.db_mc_getDefault contactID
        if contactID = 0 then none else (db.baseAccountName contactID).map (contactID, ·)
      else
        none

def seek (db : Database) (szSetting : CStr) : Nat → MCONTACT → CStr → Option DBVARIANT
  | 0, _, _ => none
  | n + 1, contactID, szModule =>
    match db.cached contactID (GetCachedSetting szModule szSetting) with
    | some pCachedValue => some pCachedValue
    | none =>
      match db.lookupDefault contactID szModule szSetting with
      | none => none
      | some (contactID, szModule) => db.seek szSetting n contactID szModule

/--
The value `LBL_Seek` finds. A lookup that has been at every contact comes back to one of them; the
code then never returns.
-/
def findValue (db : Database) (contactID : MCONTACT) (szModule szSetting : CStr)
    : Option DBVARIANT :=
  db.seek szSetting (db.m_cache.entries.length + 2) contactID szModule

def GetContactSettingWorker (db : Database) (env : SettingEnv) (contactID : MCONTACT)
    (szModule szSetting : Option CStr) : Option DBVARIANT :=
  match szModule, szSetting with
  | some szModule, some szSetting =>
    if contactID = INVALID_CONTACT_ID then
      none
    else
      match db.findValue contactID szModule szSetting with
      | none => none
      | some (.encrypted pbVal) =>
        match db.m_crypto.decodeString env.heap (pbVal.map (·.bytes)) with
        | none => none
        | some decoded => some (.utf8 (some (.ofMem decoded)))
      | some pCachedValue => some pCachedValue
  | _, _ => none

/--
What `GetContactSetting` makes of the value it has read: there are no UTF-8 strings in its answers.
-/
def utf8ToWide : DBVARIANT → DBVARIANT
  | .utf8 pszVal =>
    match pszVal.bind Utf.mir_utf8decodeW with
    | some tmp => .wchar (some tmp)
    | none => .asciiz pszVal
  | dbv => dbv

/--
`GetContactSetting`; it answers `none` where the code returns 1.
-/
def GetContactSetting (db : Database) (env : SettingEnv) (contactID : MCONTACT)
    (szModule szSetting : Option CStr) : Option DBVARIANT :=
  (db.GetContactSettingWorker env contactID szModule szSetting).map utf8ToWide

def notifValue : DBVARIANT → Option DBVARIANT
  | .wchar none => none
  | .wchar (some pwszVal) => (Utf.mir_utf8encodeW pwszVal).map (.utf8 <| some ·)
  | .byteHidden bVal => some (.byte bVal)
  | dbv => some dbv

/--
The value that is stored: a string goes through the crypto provider, if it is to be encrypted and
the provider takes it.
-/
def workValue (db : Database) (env : SettingEnv) (szModule szSetting : CStr) (value : DBVARIANT)
    : Option DBVARIANT :=
  match value with
  | .byte _ | .word _ | .dword _ => some value
  | .asciiz pszVal | .utf8 pszVal =>
    match pszVal with
    | none => none
    | some pszVal =>
      if db.m_bEncrypted ∨ IsSettingEncrypted szModule szSetting then
        match db.m_crypto.encodeString env.tmpBuf (some pszVal) with
        | some pResult => some (.encrypted (some (.cast pResult)))
        | none => some value
      else
        some value
  | .blob pbVal | .encrypted pbVal => if pbVal.isNone then none else some value
  | _ => none

/--
`cchVal` shares its memory with the low 16 bits of `pbVal`, and `memcmp` answers 0 for equal bytes.
-/
def identicalBlobs (env : SettingEnv) (cached value : Option Blob) : Bool :=
  match cached, value with
  | some cached, some value =>
    let cchVal := env.pbVal.toNat
    cached.bytes.length = cchVal ∧
      cached.bytes ≠ (List.range cchVal).map (fun i => value.bytes.getD i (env.behindBlob i))
  | _, _ => false

def bIsIdentical (env : SettingEnv) : DBVARIANT → DBVARIANT → Bool
  | .byte bVal, .byte bVal' => bVal = bVal'
  | .word wVal, .word wVal' => wVal = wVal'
  | .dword dVal, .dword dVal' => dVal = dVal'
  | .utf8 pszVal, .utf8 pszVal' => pszVal = pszVal'
  | .asciiz pszVal, .asciiz pszVal' => pszVal = pszVal'
  | .blob pbVal, .blob pbVal' => identicalBlobs env pbVal pbVal'
  | .encrypted pbVal, .encrypted pbVal' => identicalBlobs env pbVal pbVal'
  | _, _ => false

def WriteContactSettingWorker (db : Database) (env : SettingEnv) (contactID : MCONTACT)
    (szModule szSetting : CStr) (value : DBVARIANT) : Database × Bool :=
  let (s, dwModuleId) := db.GetModuleID szModule
  let db := { db with toStore := s }
  match value.pack with
  | none => (db, false)
  | some data =>
    if env.mdbx_put then
      let keyVal := ⟨contactID, dwModuleId, szSetting⟩
      ({ db with m_dbSettings := db.m_dbSettings.put keyVal data }, true)
    else
      (db, false)

/--
`WriteContactSetting` from `GetCachedSetting` on.
-/
def storeValue (db : Database) (env : SettingEnv) (contactID : MCONTACT)
    (szModule szSetting : CStr) (value : DBVARIANT) : Database × Bool :=
  let szCachedSettingName := GetCachedSetting szModule szSetting
  match db.cached contactID szCachedSettingName with
  | some pCachedValue =>
    if bIsIdentical env pCachedValue value then (db, true) else save db szCachedSettingName
  | none => save db szCachedSettingName
where
  save (db : Database) (szCachedSettingName : CStr) : Database × Bool :=
    let db := db.SetCachedVariant contactID szCachedSettingName value
    if szCachedSettingName ∈ db.m_lResidentSettings then
      (db, true)
    else
      db.WriteContactSettingWorker env contactID szModule szSetting value

def WriteContactSetting (db : Database) (env : SettingEnv) (contactID : MCONTACT)
    (szModule szSetting : Option CStr) (dbv : Option DBVARIANT) : Database × Bool :=
  match dbv, szSetting, szModule with
  | some dbv, some szSetting, some szModule =>
    if contactID = INVALID_CONTACT_ID then
      (db, false)
    else
      match (notifValue dbv).bind (db.workValue env szModule szSetting) with
      | none => (db, false)
      | some value => db.storeValue env contactID szModule szSetting value
  | _, _, _ => (db, false)

def DeleteContactSetting (db : Database) (contactID : MCONTACT) (szModule szSetting : Option CStr)
    : Database × Bool :=
  match szModule, szSetting with
  | some szModule, some szSetting =>
    let szCachedSettingName := GetCachedSetting szModule szSetting
    match db.cached contactID szCachedSettingName with
    | none => (db, false)
    | some _ =>
      let db := db.removeCached contactID szCachedSettingName
      if szCachedSettingName ∈ db.m_lResidentSettings then
        (db, true)
      else
        let (s, dwModuleId) := db.GetModuleID szModule
        let db := { db with toStore := s }
        let keyVal := ⟨contactID, dwModuleId, szSetting⟩
        if keyVal ∈ db.m_dbSettings then
          ({ db with m_dbSettings := db.m_dbSettings.del keyVal }, true)
        else
          (db, false)
  | _, _ => (db, false)

def fillSetting (env : SettingEnv) (db : Database) (entry : DBSettingKey × List UInt8)
    : Database :=
  let (pKey, data) := entry
  match db.GetModuleName pKey.dwModuleId with
  | none => db
  | some szModule =>
    match data ++ env.behindSetting pKey with
    | [] => db
    | iType :: pBlob =>
      if iType = 0 then
        db
      else
        let szCachedSettingName := GetCachedSetting szModule pKey.szSettingName
        db.SetCachedVariant pKey.hContact szCachedSettingName (.unpack iType pBlob)

def FillSettings (db : Database) (env : SettingEnv) : Database :=
  db.m_dbSettings.entries.foldl (fillSetting env) db

end Database
end Dbx
