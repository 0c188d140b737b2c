import MirandaNG.Core.Utf
import MirandaNG.Crypt.RoundTrip
import MirandaNG.Data.WStr

/-!
This module contains the keys of the crypto provider: the key that data are encrypted with is stored
encrypted with a hash of the master password.
-/

namespace Crypt

def KEY_LENGTH : Nat := 32

abbrev Key := Vector UInt8 KEY_LENGTH

abbrev Slack := Vector UInt8 12

def literal (s : String) : CStr := CStr.ofMem (s.toList.map fun c => c.toNat.toUInt8)

def reserved : CStr := literal "Miranda"

def crc32Bit (crc : UInt32) : UInt32 :=
  if crc &&& 1 = 1 then (crc >>> 1) ^^^ 0xEDB88320 else crc >>> 1

def crc32Byte (crc : UInt32) (b : UInt8) : UInt32 := crc32Bit^[8] (crc ^^^ b.toUInt32)

def crc32 (crc : UInt32) (buf : List UInt8) : UInt32 :=
  buf.foldl crc32Byte (crc ^^^ 0xFFFFFFFF) ^^^ 0xFFFFFFFF

def checksum (password : CStr) : UInt32 := crc32 0xAbbaDead password.bytes

structure ExternalKey where
  m_key : Key
  m_crc32 : UInt32
  slack : Slack

namespace ExternalKey

def crcBytes (crc : UInt32) : List UInt8 :=
  [UInt8.ofNat crc.toNat, UInt8.ofNat (crc.toNat / 2 ^ 8), UInt8.ofNat (crc.toNat / 2 ^ 16),
    UInt8.ofNat (crc.toNat / 2 ^ 24)]

def toMem (key : ExternalKey) : List UInt8 :=
  key.m_key.toList ++ crcBytes key.m_crc32 ++ key.slack.toList

def ofMem (mem : List UInt8) : ExternalKey where
  m_key := .ofFn fun i => mem.getD i 0
  m_crc32 := UInt32.ofNat ((mem.getD 32 0).toNat + (mem.getD 33 0).toNat * 2 ^ 8 +
    (mem.getD 34 0).toNat * 2 ^ 16 + (mem.getD 35 0).toNat * 2 ^ 24)
  slack := .ofFn fun i => mem.getD (36 + i) 0

def sizeof : Nat := 48

def zero : ExternalKey := ⟨.replicate _ 0, 0, .replicate _ 0⟩

theorem length_toMem (key : ExternalKey) : key.toMem.length = sizeof := by
  unfold toMem crcBytes
  rw [List.length_append, List.length_append, Vector.length_toList, Vector.length_toList]
  rfl

variable {xs ys zs : List UInt8} {i : Nat}

theorem getD_fst (h : i < xs.length) : (xs ++ ys ++ zs).getD i 0 = xs[i] := by
  rw [List.append_assoc, List.getD_append _ _ _ _ h, List.getD_eq_getElem _ _ h]

theorem getD_snd (h : i < ys.length) : (xs ++ ys ++ zs).getD (xs.length + i) 0 = ys[i] := by
  rw [List.append_assoc, List.getD_append_right _ _ _ _ (Nat.le_add_right _ _),
    Nat.add_sub_cancel_left, List.getD_append _ _ _ _ h, List.getD_eq_getElem _ _ h]

theorem getD_thd (h : i < zs.length)
    : (xs ++ ys ++ zs).getD (xs.length + ys.length + i) 0 = zs[i] := by
  rw [← List.length_append, List.getD_append_right _ _ _ _ (Nat.le_add_right _ _),
    Nat.add_sub_cancel_left, List.getD_eq_getElem _ _ h]

theorem ofMem_toMem (key : ExternalKey) : ofMem key.toMem = key := by
  obtain ⟨m_key, m_crc32, slack⟩ := key
  have hkey : m_key.toList.length = KEY_LENGTH := Vector.length_toList
  have hslack : slack.toList.length = 12 := Vector.length_toList
  have hcrc : (crcBytes m_crc32).length = 4 := rfl
  have hfst : ∀ i (hi : i < KEY_LENGTH), (toMem ⟨m_key, m_crc32, slack⟩).getD i 0 = m_key[i] := by
    intro i hi
    have hi' : i < m_key.toList.length := by rwa [hkey]
    rw [← Vector.getElem_toList hi']
    exact getD_fst hi'
  have hsnd : ∀ i (hi : i < 4), (toMem ⟨m_key, m_crc32, slack⟩).getD (KEY_LENGTH + i) 0 =
      (crcBytes m_crc32)[i] := by
    intro i hi
    rw [← hkey]
    exact getD_snd (by rw [hcrc]; exact hi)
  have hthd : ∀ i (hi : i < 12), (toMem ⟨m_key, m_crc32, slack⟩).getD (36 + i) 0 = slack[i] := by
    intro i hi
    have h36 : 36 = m_key.toList.length + (crcBytes m_crc32).length := by
      rw [hkey, hcrc]
      rfl
    have hi' : i < slack.toList.length := by rwa [hslack]
    rw [h36, ← Vector.getElem_toList hi']
    exact getD_thd hi'
  unfold ofMem
  rw [mk.injEq]
  refine ⟨?_, ?_, ?_⟩
  . apply Vector.ext
    intro i hi
    rw [Vector.getElem_ofFn]
    exact hfst i hi
  . have hlt := m_crc32.toNat_lt
    unfold KEY_LENGTH at hsnd
    rw [hsnd 0 (by decide), hsnd 1 (by decide), hsnd 2 (by decide), hsnd 3 (by decide)]
    unfold crcBytes
    simp only [List.getElem_cons_zero, List.getElem_cons_succ, UInt8.toNat_ofNat']
    rw [← UInt32.toNat_inj, UInt32.toNat_ofNat']
    omega
  . apply Vector.ext
    intro i hi
    rw [Vector.getElem_ofFn]
    exact hthd i hi

end ExternalKey

structure Cipher where
  slow_hash : CStr → Key
  EncryptBlock : Key → Block → Block
  DecryptBlock : Key → Block → Block
  inverts : ∀ key b, DecryptBlock key (EncryptBlock key b) = b

namespace Cipher

variable (env : Cipher)

-- A chain shorter than a block is filled up with zeros.
def MakeKey (key : Key) (chain : CStr) : CRijndael where
  m_bKeyInit := true
  EncryptBlock := env.EncryptBlock key
  DecryptBlock := env.DecryptBlock key
  m_chain0 := .ofFn fun i => chain.bytes.getD i 0
  m_chain := .ofFn fun i => chain.bytes.getD i 0

def passwordAes (password : CStr) : CRijndael := env.MakeKey (env.slow_hash password) .empty

end Cipher

structure KeyedCrypt extends CStdCrypt where
  m_key : Key
  m_extKey : List UInt8

def effective (pszPassword : Option CStr) : CStr :=
  match pszPassword with
  | none => reserved
  | some password => if password.strlen = 0 then reserved else password

namespace KeyedCrypt

variable (env : Cipher) (crypt : KeyedCrypt)

def fresh : KeyedCrypt where
  m_valid := false
  m_aes := ⟨false, id, id, .replicate _ 0, .replicate _ 0⟩
  m_key := .replicate _ 0
  m_extKey := .replicate ExternalKey.sizeof 0

def getKeyLength : Nat := ExternalKey.sizeof

def key2ext (pszPassword : Option CStr) (slack : Slack) : KeyedCrypt :=
  let password := effective pszPassword
  let tmp : ExternalKey := ⟨crypt.m_key, checksum password, slack⟩
  match ((env.passwordAes password).Encrypt tmp.toMem).2 with
  | some key => { crypt with m_extKey := key }
  | none => crypt

def getKey (cbKeyLen : Nat) : Option (List UInt8) :=
  if !crypt.m_valid ∨ cbKeyLen < ExternalKey.sizeof then none else some crypt.m_extKey

def checkKey (pszPassword : Option CStr) (pPublic : List UInt8) (tmp : ExternalKey)
    : Bool × ExternalKey :=
  let password := effective pszPassword
  let tmp :=
    match ((env.passwordAes password).Decrypt pPublic).2 with
    | some mem => ExternalKey.ofMem mem
    | none => tmp
  (tmp.m_crc32 = checksum password, tmp)

def setKey (pszPassword : Option CStr) (pPublic : List UInt8) : Bool × KeyedCrypt :=
  if pPublic.length ≠ ExternalKey.sizeof then
    (false, crypt)
  else
    match checkKey env pszPassword pPublic .zero with
    | (false, _) => (false, crypt)
    | (true, tmp) =>
      (true, {
        m_valid := true
        m_aes := env.MakeKey tmp.m_key (literal "Miranda")
        m_key := tmp.m_key
        m_extKey := pPublic })

def generateKey (tmp : Option Key) (slack : Slack) : Bool × KeyedCrypt :=
  match tmp with
  | none => (false, crypt)
  | some tmp =>
    let crypt := { crypt with m_key := tmp, m_aes := env.MakeKey tmp (literal "Miranda") }
    (true, { crypt.key2ext env none slack with m_valid := true })

def purgeKey : KeyedCrypt := { crypt with m_key := .replicate _ 0, m_valid := false }

-- What is in `tmp` before is not read when the external key is whole.
def checkPassword (pszPassword : Option CStr) (tmp : ExternalKey) : Bool :=
  (checkKey env pszPassword crypt.m_extKey tmp).1

def setPassword (pszPassword : Option CStr) (slack : Slack) : KeyedCrypt :=
  crypt.key2ext env pszPassword slack

end KeyedCrypt

-- `storedKey` is the setting "StoredKey" of the module "CryptoEngine".
structure MDatabaseCommon where
  m_crypto : Option KeyedCrypt
  m_bUsesPassword : Bool
  storedKey : Option (List UInt8)

inductive InitResult where
  | returned (code : Int)
  | thrown (code : Int)
deriving DecidableEq

namespace MDatabaseCommon

variable (env : Cipher) (db : MDatabaseCommon)

def SetPassword (ptszPassword : Option WStr) (slack : Slack) : MDatabaseCommon :=
  if ptszPassword.elim 0 WStr.wcslen = 0 then
    { db with
      m_bUsesPassword := false
      m_crypto := db.m_crypto.map fun crypt => crypt.setPassword env none slack }
  else
    { db with
      m_bUsesPassword := true
      m_crypto := db.m_crypto.map fun crypt =>
        crypt.setPassword env (ptszPassword.bind fun password => Utf.mir_utf8encodeW password.chars)
          slack }

def StoreCryptoKey (pKey : List UInt8) : MDatabaseCommon :=
  { db with
    storedKey := db.m_crypto.map fun crypt =>
      (crypt.getKey KeyedCrypt.getKeyLength).getD pKey }

-- The loop with the dialog. After three wrong passwords it can only be closed.
def enterPassword (key : List UInt8) : List WStr → Nat → KeyedCrypt → Option KeyedCrypt
  | [], _, _ => none
  | m_newPass :: entries, m_wrongPass, crypt =>
    if m_wrongPass > 2 then
      none
    else
      match crypt.setKey env (Utf.mir_utf8encodeW m_newPass.chars) key with
      | (true, crypt) => some crypt
      | (false, crypt) => enterPassword key entries (m_wrongPass + 1) crypt

-- `pFactory` makes a provider object, if there is a provider; `entries` is what is typed into the
-- dialog until it is closed.
def InitCrypt (pFactory : Option (Option KeyedCrypt)) (random : Option Key) (slack : Slack)
    (pKey : List UInt8) (entries : List WStr)
    : InitResult × MDatabaseCommon :=
  if db.m_crypto.isSome then
    (.returned 0, db)
  else
    match pFactory with
    | none => (.returned 1, db)
    | some none => (.returned 3, db)
    | some (some crypt) =>
      match db.storedKey.filter (·.length = KeyedCrypt.getKeyLength) with
      | some key =>
        match crypt.setKey env none key with
        | (true, crypt) => (.returned 0, { db with m_crypto := some crypt })
        | (false, crypt) =>
          match enterPassword env key entries 0 crypt with
          | some crypt => (.returned 0, { db with m_crypto := some crypt, m_bUsesPassword := true })
          | none => (.thrown (-2), { db with m_crypto := some crypt })
      | none =>
        match crypt.generateKey env random slack with
        | (false, crypt) => (.returned 6, { db with m_crypto := some crypt })
        | (true, crypt) => (.returned 0, { db with m_crypto := some crypt }.StoreCryptoKey pKey)

end MDatabaseCommon
end Crypt
