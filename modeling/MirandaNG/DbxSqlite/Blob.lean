import Mathlib.Logic.Function.Basic
import MirandaNG.Crypt.StdCrypt
import MirandaNG.Data.CInt

/-!
This module contains how an event is written into the SQLite database and read back, with its blob encrypted or not.
It proves when it comes back as it was.
-/

open Crypt CInt

namespace DbxSqlite.Blob

def DBEF_SENT : UInt32 := 0x02

def DBEF_READ : UInt32 := 0x04

def DBEF_ENCRYPTED : UInt32 := 0x20

def DBEF_HAS_ID : UInt32 := 0x40

structure DBEVENTINFO where
  szModule : CStr
  iTimestamp : UInt64
  flags : UInt32 := 0
  eventType : UInt32 := 0
  pBlob : Option (List UInt8)
  szId : Option CStr := none
  szUserId : Option CStr := none
  szReplyId : Option CStr := none
  cbBlob_lt : (pBlob.getD []).length < 2 ^ 31

def DBEVENTINFO.blob (dbei : DBEVENTINFO) : List UInt8 := dbei.pBlob.getD []

structure Row where
  module : CStr
  timestamp : UInt64
  type : UInt32
  flags : UInt32
  data : Option (List UInt8)
  server_id : Option CStr
  user_id : Option CStr
  reply_id : Option CStr

structure CDbxSQLite where
  m_bEncrypted : Bool
  m_crypto : CStdCrypt
  events : Nat → Option Row := fun _ => none
  lastEvent : Nat := 0
  m_modules : List CStr := []

structure Got where
  szModule : CStr
  iTimestamp : UInt64
  eventType : UInt32
  flags : UInt32
  szId : Option CStr
  szUserId : Option CStr
  szReplyId : Option CStr
  cbBlob : Int
  pBlob : Option (List UInt8)
  copied : Nat
  available : Nat

namespace CDbxSQLite

def encode (db : CDbxSQLite) (scratch : Nat → UInt8) (pBlob : Option (List UInt8)) (flags : UInt32)
    : Option (List UInt8) × UInt32 :=
  if db.m_bEncrypted then
    match (db.m_crypto.encodeBuffer scratch pBlob).2 with
    | none => (pBlob, flags)
    | some pResult => (some (pResult.take (pResult.length % 2 ^ 16)), flags ||| DBEF_ENCRYPTED)
  else
    (pBlob, flags)

def AddEvent (db : CDbxSQLite) (scratch : Nat → UInt8) (dbei : DBEVENTINFO) : Nat × CDbxSQLite :=
  if dbei.iTimestamp = 0 then
    (0, db)
  else
    let flags := if dbei.szId.isSome then dbei.flags ||| DBEF_HAS_ID else dbei.flags
    let (data, flags) := db.encode scratch dbei.pBlob flags
    let flags := if flags &&& DBEF_SENT ≠ 0 then flags ||| DBEF_READ else flags
    let hDbEvent := db.lastEvent + 1
    (hDbEvent, { db with
      events := Function.update db.events hDbEvent (some
        { module := dbei.szModule, timestamp := dbei.iTimestamp, type := dbei.eventType, flags := flags, data := data,
          server_id := dbei.szId, user_id := dbei.szUserId, reply_id := dbei.szReplyId })
      lastEvent := hDbEvent
      m_modules := if dbei.szModule ∈ db.m_modules then db.m_modules else dbei.szModule :: db.m_modules })

end CDbxSQLite

def readText : Option CStr → Option CStr
  | none => none
  | some p => if p.strlen = 0 then none else some (p.truncate 99)

def copyBlob (decode : List UInt8 → Option (List UInt8)) (flags : UInt32) (data : List UInt8) (bytesToCopy : Nat)
    : Option (List UInt8 × Nat) :=
  if flags &&& DBEF_ENCRYPTED ≠ 0 then
    match decode data with
    | none => none
    | some pBlob => some (pBlob.take bytesToCopy ++ .replicate (bytesToCopy - pBlob.length) 0, pBlob.length)
  else
    some (data.take bytesToCopy, data.length)

def Row.get (row : Row) (decode : List UInt8 → Option (List UInt8)) (dbeiSize : Int) (pBlob : Option (List UInt8))
    : Option Got :=
  let data := row.data.getD []
  let cbBlob := int32 data.length
  let pBlob := if dbeiSize = -1 then some (.replicate (cbBlob + 2).toNat 0) else pBlob
  let bytesToCopy := if dbeiSize ≠ -1 ∧ dbeiSize < cbBlob then dbeiSize.toNat else cbBlob.toNat
  let got : Got :=
    { szModule := row.module, iTimestamp := row.timestamp, eventType := row.type, flags := row.flags,
      szId := readText row.server_id, szUserId := readText row.user_id, szReplyId := readText row.reply_id,
      cbBlob := cbBlob, pBlob := pBlob, copied := 0, available := 0 }
  match pBlob with
  | none => some got
  | some mem =>
    if bytesToCopy = 0 then
      some got
    else
      match copyBlob decode row.flags data bytesToCopy with
      | none => none
      | some (bytes, available) => some
          { got with flags := row.flags &&& ~~~DBEF_ENCRYPTED, pBlob := some (bytes ++ mem.drop bytes.length),
                     copied := bytesToCopy, available := available }

namespace CDbxSQLite

def decode (db : CDbxSQLite) (heap : Int → UInt8) (data : List UInt8) : Option (List UInt8) :=
  (db.m_crypto.decodeBuffer heap (some data)).2

def GetEvent (db : CDbxSQLite) (heap : Int → UInt8) (hDbEvent : Nat) (cbBlob : Int) (pBlob : Option (List UInt8))
    : Option Got :=
  if hDbEvent = 0 ∨ (cbBlob > 0 ∧ pBlob = none) then
    none
  else
    match db.events hDbEvent with
    | none => none
    | some row => if row.module ∈ db.m_modules then row.get (db.decode heap) cbBlob pBlob else none

end CDbxSQLite

structure Same (dbei : DBEVENTINFO) (got : Got) : Prop where
  szModule : got.szModule = dbei.szModule
  iTimestamp : got.iTimestamp = dbei.iTimestamp
  eventType : got.eventType = dbei.eventType
  szId : got.szId = dbei.szId
  szUserId : got.szUserId = dbei.szUserId
  szReplyId : got.szReplyId = dbei.szReplyId
  cbBlob : got.cbBlob = dbei.blob.length
  pBlob : ∃ mem, got.pBlob = some mem ∧ mem.take dbei.blob.length = dbei.blob

structure RoundTrips (db : CDbxSQLite) (scratch : Nat → UInt8) (heap : Int → UInt8) (dbei : DBEVENTINFO) : Prop where
  allocated : ∃ got, (db.AddEvent scratch dbei).2.GetEvent heap (db.AddEvent scratch dbei).1 (-1) none = some got ∧
    Same dbei got
  large : ∀ mem : List UInt8, dbei.blob.length ≤ mem.length →
    ∃ got, (db.AddEvent scratch dbei).2.GetEvent heap (db.AddEvent scratch dbei).1 mem.length (some mem) = some got ∧
      Same dbei got
  small : ∀ mem : List UInt8, mem.length < dbei.blob.length →
    ∀ got, (db.AddEvent scratch dbei).2.GetEvent heap (db.AddEvent scratch dbei).1 mem.length (some mem) = some got →
      got.copied ≤ mem.length ∧ got.copied ≤ got.available

-- The decoder gives a blob that was never encoded back, but for zeros at its end.
def LooksEncoded (db : CDbxSQLite) (heap : Int → UInt8) (blob : List UInt8) : Prop :=
  ∃ pBlob, db.decode heap blob = some pBlob ∧ blob.length ≤ pBlob.length + 1 ∧
    pBlob.take blob.length ++ .replicate (blob.length - pBlob.length) 0 = blob

structure Keepable (db : CDbxSQLite) (heap : Int → UInt8) (dbei : DBEVENTINFO) : Prop where
  ids : ∀ id : CStr, id ∈ dbei.szId ∨ id ∈ dbei.szUserId ∨ id ∈ dbei.szReplyId → id.strlen ≠ 0 ∧ id.strlen ≤ 99
  plain : db.m_bEncrypted = false ∨ db.m_crypto.Refuses dbei.pBlob
  flag : dbei.flags &&& DBEF_ENCRYPTED = 0 ∨ dbei.blob = [] ∨ LooksEncoded db heap dbei.blob

variable {db : CDbxSQLite} {scratch : Nat → UInt8} {heap : Int → UInt8} {dbei : DBEVENTINFO}

theorem readText_eq_self_iff (p : Option CStr) : readText p = p ↔ ∀ id ∈ p, id.strlen ≠ 0 ∧ id.strlen ≤ 99 := by
  cases p with
  | none => simp [readText]
  | some s =>
    simp only [readText, Option.mem_some_iff, forall_eq']
    split
    next hzero => exact iff_of_false (by simp) fun h => h.1 hzero
    next hne =>
      rw [Option.some_inj]
      constructor
      . intro htruncate
        have hle : (s.truncate 99).strlen ≤ 99 := List.length_take_le ..
        exact ⟨hne, htruncate ▸ hle⟩
      . rintro ⟨-, hle⟩
        exact CStr.ext_bytes (List.take_of_length_le hle)

theorem encrypted_of_added (c : Prop) [Decidable c] (flags added : UInt32) (h : added &&& DBEF_ENCRYPTED = 0)
    : (if c then flags ||| added else flags) &&& DBEF_ENCRYPTED = flags &&& DBEF_ENCRYPTED := by
  split
  . apply UInt32.toBitVec_inj.mp
    rw [UInt32.toBitVec_and, UInt32.toBitVec_or, BitVec.and_or_distrib_right, ← UInt32.toBitVec_and,
      ← UInt32.toBitVec_and, h, UInt32.toBitVec_zero, BitVec.or_zero]
  . rfl

def rowOf (db : CDbxSQLite) (scratch : Nat → UInt8) (dbei : DBEVENTINFO) : Row :=
  let flags := if dbei.szId.isSome then dbei.flags ||| DBEF_HAS_ID else dbei.flags
  let (data, flags) := db.encode scratch dbei.pBlob flags
  let flags := if flags &&& DBEF_SENT ≠ 0 then flags ||| DBEF_READ else flags
  { module := dbei.szModule, timestamp := dbei.iTimestamp, type := dbei.eventType, flags := flags, data := data,
    server_id := dbei.szId, user_id := dbei.szUserId, reply_id := dbei.szReplyId }

theorem getEvent_addEvent (hts : dbei.iTimestamp ≠ 0) {cbBlob : Int} {pBlob : Option (List UInt8)}
    (hrequest : ¬(cbBlob > 0 ∧ pBlob = none))
    : (db.AddEvent scratch dbei).2.GetEvent heap (db.AddEvent scratch dbei).1 cbBlob pBlob
        =
      (rowOf db scratch dbei).get (db.decode heap) cbBlob pBlob := by
  unfold CDbxSQLite.AddEvent
  rw [if_neg hts]
  unfold CDbxSQLite.GetEvent
  dsimp only
  rw [if_neg (by simpa using hrequest), Function.update_self]
  dsimp only
  rw [if_pos]
  . rfl
  . split
    next hmem => exact hmem
    . exact List.mem_cons_self

theorem encode_plain (h : db.m_bEncrypted = false ∨ db.m_crypto.Refuses dbei.pBlob) (flags : UInt32)
    : db.encode scratch dbei.pBlob flags = (dbei.pBlob, flags) := by
  unfold CDbxSQLite.encode
  split
  next hencrypted =>
    have hrefuses := h.resolve_left (by rw [hencrypted]; decide)
    rw [CStdCrypt.encodeBuffer_eq_none_iff.mpr hrefuses]
  . rfl

theorem rowOf_plain (h : db.m_bEncrypted = false ∨ db.m_crypto.Refuses dbei.pBlob)
    : (rowOf db scratch dbei).data = dbei.pBlob ∧
      (rowOf db scratch dbei).flags &&& DBEF_ENCRYPTED = dbei.flags &&& DBEF_ENCRYPTED := by
  unfold rowOf
  dsimp only
  rw [encode_plain h]
  dsimp only
  rw [encrypted_of_added _ _ DBEF_READ (by decide), encrypted_of_added _ _ DBEF_HAS_ID (by decide)]
  exact ⟨rfl, rfl⟩

theorem rowOf_encoded (h : ¬(db.m_bEncrypted = false ∨ db.m_crypto.Refuses dbei.pBlob))
    : ((rowOf db scratch dbei).data.getD []).length < 2 ^ 31 ∧
      ((rowOf db scratch dbei).data.getD []).length ≠ dbei.blob.length := by
  rw [not_or] at h
  obtain ⟨hencrypted, hencodes⟩ := h
  rw [← @CStdCrypt.encodeBuffer_eq_none_iff _ scratch] at hencodes
  obtain ⟨pResult, hresult⟩ := Option.ne_none_iff_exists'.mp hencodes
  unfold rowOf CDbxSQLite.encode
  dsimp only
  rw [if_pos (by simpa using hencrypted), hresult]
  dsimp only [Option.getD_some]
  cases hblob : dbei.pBlob with
  | none =>
    rw [hblob] at hresult
    cases hresult
  | some src =>
    rw [hblob] at hresult
    obtain ⟨hlt, hlength⟩ := CStdCrypt.length_encodeBuffer hresult
    have hle := CStdCrypt.le_padded (src.length + 2)
    have hpadded := CStdCrypt.padded_lt (src.length + 2)
    unfold BLOCK_SIZE at hpadded
    unfold DBEVENTINFO.blob
    rw [hblob, Option.getD_some, List.length_take, hlength]
    omega

def Row.getInto (row : Row) (decode : List UInt8 → Option (List UInt8)) (mem : List UInt8) (bytesToCopy : Nat)
    : Option Got :=
  let data := row.data.getD []
  let got : Got :=
    { szModule := row.module, iTimestamp := row.timestamp, eventType := row.type, flags := row.flags,
      szId := readText row.server_id, szUserId := readText row.user_id, szReplyId := readText row.reply_id,
      cbBlob := data.length, pBlob := some mem, copied := 0, available := 0 }
  if bytesToCopy = 0 then
    some got
  else
    match copyBlob decode row.flags data bytesToCopy with
    | none => none
    | some (bytes, available) => some
        { got with flags := row.flags &&& ~~~DBEF_ENCRYPTED, pBlob := some (bytes ++ mem.drop bytes.length),
                   copied := bytesToCopy, available := available }

section Get

variable {row : Row} {decode : List UInt8 → Option (List UInt8)}

theorem get_allocated (hdata : (row.data.getD []).length < 2 ^ 31)
    : row.get decode (-1) none
        =
      row.getInto decode (.replicate ((row.data.getD []).length + 2) 0) (row.data.getD []).length := by
  unfold Row.get Row.getInto
  dsimp only
  rw [int32_of_small hdata, if_pos rfl, if_neg (fun h => h.1 rfl), Int.toNat_natCast]
  rfl

theorem get_buffer (hdata : (row.data.getD []).length < 2 ^ 31) (mem : List UInt8)
    : row.get decode mem.length (some mem) = row.getInto decode mem (min (row.data.getD []).length mem.length) := by
  unfold Row.get Row.getInto
  dsimp only
  have hcopy : (if ((mem.length : Int) ≠ -1 ∧ (mem.length : Int) < ((row.data.getD []).length : Int))
      then (mem.length : Int).toNat else ((row.data.getD []).length : Int).toNat)
      = min (row.data.getD []).length mem.length := by
    split <;> omega
  rw [int32_of_small hdata, if_neg (by omega), hcopy]

theorem getInto_whole_iff {mem : List UInt8} (hmem : (row.data.getD []).length ≤ mem.length)
    : (∃ got mem', row.getInto decode mem (row.data.getD []).length = some got ∧ got.pBlob = some mem' ∧
          mem'.take (row.data.getD []).length = row.data.getD [])
        ↔
      row.flags &&& DBEF_ENCRYPTED = 0 ∨ row.data.getD [] = [] ∨
        ∃ pBlob, decode (row.data.getD []) = some pBlob ∧
          pBlob.take (row.data.getD []).length ++ .replicate ((row.data.getD []).length - pBlob.length) 0
            = row.data.getD [] := by
  unfold Row.getInto
  generalize row.data.getD [] = data at hmem ⊢
  dsimp only
  by_cases hnil : data = []
  . subst hnil
    refine iff_of_true ⟨_, mem, if_pos rfl, rfl, rfl⟩ (.inr (.inl rfl))
  . have hlength : data.length ≠ 0 := mt List.length_eq_zero_iff.mp hnil
    rw [if_neg hlength]
    unfold copyBlob
    by_cases hflag : row.flags &&& DBEF_ENCRYPTED = 0
    . rw [if_neg (not_not.mpr hflag)]
      refine iff_of_true ⟨_, _, rfl, rfl, ?_⟩ (.inl hflag)
      rw [List.take_length, List.take_left]
    . rw [if_pos hflag]
      cases hdecode : decode data with
      | none => simp [hflag, hnil]
      | some pBlob =>
        have hwritten : (pBlob.take data.length ++ List.replicate (data.length - pBlob.length) (0 : UInt8)).length
            = data.length := by
          rw [List.length_append, List.length_take, List.length_replicate]
          omega
        have htake : ∀ rest : List UInt8,
            ((pBlob.take data.length ++ List.replicate (data.length - pBlob.length) (0 : UInt8)) ++ rest).take data.length
              = pBlob.take data.length ++ List.replicate (data.length - pBlob.length) 0 := by
          intro rest
          rw [List.take_append_of_le_length hwritten.ge, List.take_of_length_le hwritten.le]
        constructor
        . rintro ⟨got, mem', hgot, hblob, heq⟩
          cases hgot
          cases hblob
          rw [htake] at heq
          exact .inr (.inr ⟨pBlob, rfl, heq⟩)
        . rintro (hzero | hempty | ⟨pBlob', hsome, heq⟩)
          . exact absurd hzero hflag
          . exact absurd hempty hnil
          . cases hsome
            exact ⟨_, _, rfl, rfl, (htake _).trans heq⟩

theorem getInto_fields {mem : List UInt8} {n : Nat} {got : Got} (h : row.getInto decode mem n = some got)
    : got.szModule = row.module ∧ got.iTimestamp = row.timestamp ∧ got.eventType = row.type ∧
      got.szId = readText row.server_id ∧ got.szUserId = readText row.user_id ∧
      got.szReplyId = readText row.reply_id ∧ got.cbBlob = (row.data.getD []).length := by
  unfold Row.getInto at h
  dsimp only at h
  split at h
  . cases h
    exact ⟨rfl, rfl, rfl, rfl, rfl, rfl, rfl⟩
  . split at h
    . cases h
    . cases h
      exact ⟨rfl, rfl, rfl, rfl, rfl, rfl, rfl⟩

theorem getInto_copied {mem : List UInt8} {n : Nat} {got : Got} (h : row.getInto decode mem n = some got)
    : (n = 0 ∧ got.copied = 0) ∨ (n ≠ 0 ∧ got.copied = n ∧
        ((row.flags &&& DBEF_ENCRYPTED = 0 ∧ got.available = (row.data.getD []).length) ∨
          (row.flags &&& DBEF_ENCRYPTED ≠ 0 ∧
            ∃ pBlob, decode (row.data.getD []) = some pBlob ∧ got.available = pBlob.length))) := by
  unfold Row.getInto at h
  dsimp only at h
  split at h
  next hzero =>
    cases h
    exact .inl ⟨hzero, rfl⟩
  next hne =>
    refine .inr ⟨hne, ?_⟩
    unfold copyBlob at h
    by_cases hflag : row.flags &&& DBEF_ENCRYPTED = 0
    . rw [if_neg (not_not.mpr hflag)] at h
      cases h
      exact ⟨rfl, .inl ⟨hflag, rfl⟩⟩
    . rw [if_pos hflag] at h
      cases hdecode : decode (row.data.getD []) with
      | none =>
        rw [hdecode] at h
        cases h
      | some pBlob =>
        rw [hdecode] at h
        cases h
        exact ⟨rfl, .inr ⟨hflag, pBlob, rfl, rfl⟩⟩

end Get

theorem length_rowOf (db : CDbxSQLite) (scratch : Nat → UInt8) (dbei : DBEVENTINFO)
    : ((rowOf db scratch dbei).data.getD []).length < 2 ^ 31 := by
  by_cases hplain : db.m_bEncrypted = false ∨ db.m_crypto.Refuses dbei.pBlob
  . rw [(rowOf_plain hplain).1]
    exact dbei.cbBlob_lt
  . exact (rowOf_encoded hplain).1

theorem getEvent_allocated (hts : dbei.iTimestamp ≠ 0)
    : (db.AddEvent scratch dbei).2.GetEvent heap (db.AddEvent scratch dbei).1 (-1) none
        =
      (rowOf db scratch dbei).getInto (db.decode heap)
        (.replicate (((rowOf db scratch dbei).data.getD []).length + 2) 0)
        ((rowOf db scratch dbei).data.getD []).length := by
  rw [getEvent_addEvent hts (by simp), get_allocated (length_rowOf db scratch dbei)]

theorem getEvent_buffer (hts : dbei.iTimestamp ≠ 0) (mem : List UInt8)
    : (db.AddEvent scratch dbei).2.GetEvent heap (db.AddEvent scratch dbei).1 mem.length (some mem)
        =
      (rowOf db scratch dbei).getInto (db.decode heap) mem
        (min ((rowOf db scratch dbei).data.getD []).length mem.length) := by
  rw [getEvent_addEvent hts (by simp), get_buffer (length_rowOf db scratch dbei)]

theorem ids_iff (dbei : DBEVENTINFO)
    : (readText dbei.szId = dbei.szId ∧ readText dbei.szUserId = dbei.szUserId ∧
          readText dbei.szReplyId = dbei.szReplyId)
        ↔
      ∀ id : CStr, id ∈ dbei.szId ∨ id ∈ dbei.szUserId ∨ id ∈ dbei.szReplyId → id.strlen ≠ 0 ∧ id.strlen ≤ 99 := by
  rw [readText_eq_self_iff, readText_eq_self_iff, readText_eq_self_iff]
  constructor
  . rintro ⟨hid, huser, hreply⟩ id (h | h | h)
    . exact hid id h
    . exact huser id h
    . exact hreply id h
  . exact fun h => ⟨fun id hid => h id (.inl hid), fun id hid => h id (.inr (.inl hid)),
      fun id hid => h id (.inr (.inr hid))⟩

theorem keepable_of_roundTrips (hts : dbei.iTimestamp ≠ 0) (h : RoundTrips db scratch heap dbei)
    : Keepable db heap dbei := by
  obtain ⟨got, hgot, hsame⟩ := h.allocated
  rw [getEvent_allocated hts] at hgot
  obtain ⟨_, _, _, hid, huser, hreply, hlength⟩ := getInto_fields hgot
  have hplain : db.m_bEncrypted = false ∨ db.m_crypto.Refuses dbei.pBlob := by
    by_contra hnot
    refine (@rowOf_encoded _ scratch _ hnot).2 ?_
    exact Int.ofNat.inj (hlength.symm.trans hsame.cbBlob)
  obtain ⟨hdata, hflags⟩ := @rowOf_plain _ scratch _ hplain
  refine ⟨(ids_iff dbei).mp ⟨hid.symm.trans hsame.szId, huser.symm.trans hsame.szUserId,
    hreply.symm.trans hsame.szReplyId⟩, hplain, ?_⟩
  have hsmall := h.small (.replicate (dbei.blob.length - 1) 0)
  rw [getEvent_buffer hts] at hsmall
  obtain ⟨mem, hmem, htake⟩ := hsame.pBlob
  have hwhole := (@getInto_whole_iff (rowOf db scratch dbei) (db.decode heap)
    (.replicate (((rowOf db scratch dbei).data.getD []).length + 2) 0) (by simp)).mp
    ⟨got, mem, hgot, hmem, by rw [hdata]; exact htake⟩
  rw [hdata, hflags] at hwhole
  rcases hwhole with hzero | hempty | ⟨pBlob, hdecode, hwritten⟩
  . exact .inl hzero
  . exact .inr (.inl hempty)
  . by_cases hflag : dbei.flags &&& DBEF_ENCRYPTED = 0
    . exact .inl hflag
    . refine .inr (.inr ⟨pBlob, hdecode, ?_, hwritten⟩)
      by_contra hshort
      have hlen : min ((rowOf db scratch dbei).data.getD []).length (List.replicate (dbei.blob.length - 1) (0 : UInt8)).length
          = dbei.blob.length - 1 := by
        rw [hdata, List.length_replicate]
        exact Nat.min_eq_right (Nat.sub_le _ _)
      rw [hlen] at hsmall
      cases hgot' : (rowOf db scratch dbei).getInto (db.decode heap) (.replicate (dbei.blob.length - 1) 0)
          (dbei.blob.length - 1) with
      | none =>
        unfold Row.getInto copyBlob at hgot'
        dsimp only at hgot'
        rw [if_neg (by omega), if_pos (by rw [hflags]; exact hflag), hdata] at hgot'
        have hdecode' : db.decode heap (dbei.pBlob.getD []) = some pBlob := hdecode
        rw [hdecode'] at hgot'
        cases hgot'
      | some got' =>
        have hle := (hsmall (by rw [List.length_replicate]; omega) got' hgot').2
        rcases getInto_copied hgot' with ⟨hzero, _⟩ | ⟨_, hcopied, ⟨hzero, _⟩ | ⟨_, pBlob', hdecode', havailable⟩⟩
        . omega
        . exact hflag (hflags ▸ hzero)
        . rw [hdata] at hdecode'
          have hsome : pBlob' = pBlob := Option.some.inj (hdecode'.symm.trans hdecode)
          rw [hcopied, havailable, hsome] at hle
          omega

theorem same_of_keepable (h : Keepable db heap dbei) {mem : List UInt8} (hmem : dbei.blob.length ≤ mem.length)
    : ∃ got, (rowOf db scratch dbei).getInto (db.decode heap) mem dbei.blob.length = some got ∧ Same dbei got := by
  obtain ⟨hdata, hflags⟩ := @rowOf_plain _ scratch _ h.plain
  have hblob : (rowOf db scratch dbei).data.getD [] = dbei.blob := congrArg (Option.getD · []) hdata
  have hwhole := @getInto_whole_iff (rowOf db scratch dbei) (db.decode heap) mem
    (hblob.symm ▸ hmem)
  rw [hblob, hflags] at hwhole
  obtain ⟨got, mem', hgot, hpBlob, htake⟩ := hwhole.mpr
    (h.flag.imp_right (Or.imp_right fun ⟨pBlob, hdecode, _, hwritten⟩ => ⟨pBlob, hdecode, hwritten⟩))
  obtain ⟨hmodule, htime, htype, hid, huser, hreply, hlength⟩ := getInto_fields hgot
  obtain ⟨hszId, hszUserId, hszReplyId⟩ := (ids_iff dbei).mpr h.ids
  exact ⟨got, hgot, hmodule, htime, htype, hid.trans hszId, huser.trans hszUserId, hreply.trans hszReplyId,
    hblob ▸ hlength, mem', hpBlob, htake⟩

theorem roundTrips_of_keepable (hts : dbei.iTimestamp ≠ 0) (h : Keepable db heap dbei)
    : RoundTrips db scratch heap dbei := by
  obtain ⟨hdata, hflags⟩ := @rowOf_plain _ scratch _ h.plain
  have hblob : (rowOf db scratch dbei).data.getD [] = dbei.blob := congrArg (Option.getD · []) hdata
  constructor
  case allocated =>
    rw [getEvent_allocated hts, hblob]
    exact same_of_keepable h (by simp)
  case large =>
    intro mem hmem
    rw [getEvent_buffer hts, hblob, Nat.min_eq_left hmem]
    exact same_of_keepable h hmem
  case small =>
    intro mem hmem got hgot
    rw [getEvent_buffer hts, hblob, Nat.min_eq_right hmem.le] at hgot
    rcases getInto_copied hgot with ⟨_, hcopied⟩ | ⟨_, hcopied, ⟨_, havailable⟩ | ⟨hencoded, pBlob, hdecode, havailable⟩⟩
    . exact ⟨by omega, by omega⟩
    . rw [hblob] at havailable
      exact ⟨hcopied.le, by omega⟩
    . refine ⟨hcopied.le, ?_⟩
      rw [hblob] at hdecode
      rcases h.flag with hzero | hempty | ⟨pBlob', hdecode', hle, _⟩
      . exact absurd (hflags.trans hzero) hencoded
      . rw [hempty] at hmem
        exact absurd hmem (Nat.not_lt_zero _)
      . have hsome : pBlob = pBlob' := Option.some.inj (hdecode.symm.trans hdecode')
        rw [hcopied, havailable, hsome]
        omega

def withKey : CStdCrypt := ⟨true, true, id, id, .replicate _ 0, .replicate _ 0⟩

def oneByte : DBEVENTINFO where
  szModule := CStr.ofMem "TOX".toUTF8.toList
  iTimestamp := 1
  pBlob := some [0x61]
  szId := some (CStr.ofMem [0x37])
  cbBlob_lt := by decide

end DbxSqlite.Blob
