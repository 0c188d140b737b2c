import MirandaNG.Dbx.Outcome

/-!
This module contains what `GetEvent` reads back of an event `AddEvent` has stored: for which events
it is the event that was handed in.
-/

namespace Dbx

open Kv Crypt

def BlobBuffer.LargeEnough (cbBlob : Int) : BlobBuffer → Prop
  | .alloc => True
  | .caller pBlob capacity => cbBlob ≤ capacity ∧ (pBlob = none → capacity = 0)

/--
An event comes back as it was handed in, apart from the encryption marker.
-/
structure EventInfo.ReadsBack (info : EventInfo) (dbei : DBEVENTINFO) : Prop where
  szModule : info.szModule = dbei.szModule
  iTimestamp : info.iTimestamp = dbei.iTimestamp
  eventType : info.eventType = dbei.eventType
  flags : info.flags &&& ~~~DBEF_ENCRYPTED = dbei.flags &&& ~~~DBEF_ENCRYPTED
  szId : info.szId = dbei.szId
  cbBlob : info.cbBlob = dbei.cbBlob
  pBlob : (info.pBlob.getD []).take info.cbBlob = dbei.pBlob.getD []

namespace Store

variable {s : Store} {env env' : Env} {c : MCONTACT} {e : MEVENT} {dbei : DBEVENTINFO}
variable {data : EventRecord} {buf : BlobBuffer} {crypt : CStdCrypt}

def RoundTrips (s : Store) (env : Env) (e : MEVENT) (buf : BlobBuffer) (dbei : DBEVENTINFO)
    : Prop :=
  ∃ info, s.GetEvent env e buf = some info ∧ info.ReadsBack dbei

theorem makeRecord_congr {s' : Store} (hmode : s'.m_bEncrypted = s.m_bEncrypted)
    (hcrypto : s'.m_crypto = s.m_crypto) (iModuleId : Nat)
    : s'.makeRecord env c iModuleId dbei = s.makeRecord env c iModuleId dbei := by
  unfold makeRecord encodeBlob
  rw [hmode, hcrypto]

theorem AddEvent_stored (hadd : (s.AddEvent env c dbei).2 = e) (he : e ≠ 0)
    : dbei.iTimestamp ≠ 0 ∧
      (s.AddEvent env c dbei).1.m_dbEvents.get? e =
        some (s.makeRecord env c (moduleID dbei.szModule) dbei) ∧
      (s.AddEvent env c dbei).1.m_Modules = (s.insertModule dbei.szModule).m_Modules ∧
      (s.AddEvent env c dbei).1.m_crypto = s.m_crypto := by
  unfold AddEvent at hadd ⊢
  split at hadd
  . exact absurd hadd.symm he
  . next hts =>
    rw [if_neg hts]
    dsimp only at hadd ⊢
    generalize hs : ({ s with m_dwMaxEventId := (s.m_dwMaxEventId + 1) % 2 ^ 32 } : Store) = s₁
      at hadd ⊢
    have houtcome := EditEvent'_outcome s₁ env c ((s.m_dwMaxEventId + 1) % 2 ^ 32) dbei true
    generalize s₁.EditEvent' env c ((s.m_dwMaxEventId + 1) % 2 ^ 32) dbei true = r
      at houtcome hadd
    cases houtcome with
    | refused => exact absurd hadd.symm he
    | done cc ccSub hhistory hfilter =>
      dsimp only at hadd ⊢
      rw [if_pos rfl] at hadd
      rcases insertModule_frame s₁ dbei.szModule with ⟨dbModules, modules, hframe⟩
      have hModules : (s₁.insertModule dbei.szModule).m_Modules =
          (s.insertModule dbei.szModule).m_Modules := by
        rw [← hs]
        unfold insertModule
        split
        . rfl
        . dsimp only
          split <;> rfl
      have hcrypto : (s₁.insertModule dbei.szModule).m_crypto = s.m_crypto := by
        rw [hframe, ← hs]
      have hmode : (s₁.insertModule dbei.szModule).m_bEncrypted = s.m_bEncrypted := by
        rw [hframe, ← hs]
      refine ⟨hts, ?_, ?_, ?_⟩
      . rw [writeEvent_m_dbEvents, hadd, Table.get?_put_self, makeRecord_congr hmode hcrypto]
      . rw [writeEvent_m_Modules, hModules]
      . rw [writeEvent_m_crypto, hcrypto]

theorem cbBlob_eq_length (dbei : DBEVENTINFO) : dbei.cbBlob = (dbei.pBlob.getD []).length := rfl

theorem length_encodeBlob_iff (hcrypto : s.m_crypto = crypt.engine) (env : Env)
    (dbei : DBEVENTINFO)
    : (s.encodeBlob env dbei).1.length = dbei.cbBlob ↔
        dbei.cbBlob < 2 ^ 16 ∧ (s.m_bEncrypted = true → crypt.Refuses dbei.pBlob) := by
  have hwhole (hlt : dbei.cbBlob < 2 ^ 16)
      : dbei.pBlob.map (·.take (dbei.cbBlob % 2 ^ 16)) = dbei.pBlob := by
    rw [Nat.mod_eq_of_lt hlt]
    cases hblob : dbei.pBlob with
    | none => rfl
    | some blob => simp [cbBlob_eq_length, hblob]
  unfold encodeBlob
  dsimp only
  split
  . next pResult hencoded =>
    split at hencoded
    . next hmode =>
      rw [hcrypto] at hencoded
      change (crypt.encodeBuffer env.tmpBuf _).2 = some pResult at hencoded
      refine iff_of_false ?_ ?_
      . cases hblob : dbei.pBlob with
        | none =>
          rw [hblob] at hencoded
          cases hencoded
        | some blob =>
          rw [hblob, Option.map_some] at hencoded
          have hcb : dbei.cbBlob = blob.length := by rw [cbBlob_eq_length, hblob]; rfl
          rcases CStdCrypt.length_encodeBuffer hencoded with ⟨hlt, hlen⟩
          have hle := CStdCrypt.le_padded ((blob.take (dbei.cbBlob % 2 ^ 16)).length + 2)
          have hub := CStdCrypt.padded_lt ((blob.take (dbei.cbBlob % 2 ^ 16)).length + 2)
          unfold BLOCK_SIZE at hub
          rw [List.length_take] at hlt hlen hle hub
          rw [List.length_take]
          omega
      . rintro ⟨hlt, hrefuses⟩
        rw [hwhole hlt, CStdCrypt.encodeBuffer_eq_none_iff.2 (hrefuses hmode)] at hencoded
        cases hencoded
    . cases hencoded
  . next hencoded =>
    have hlen : ((dbei.pBlob.map (·.take (dbei.cbBlob % 2 ^ 16))).getD []).length =
        dbei.cbBlob % 2 ^ 16 := by
      cases hblob : dbei.pBlob with
      | none => simp [cbBlob_eq_length, hblob]
      | some blob => simp [cbBlob_eq_length, hblob, Nat.mod_le]
    rw [hlen]
    constructor
    . intro heq
      have hlt : dbei.cbBlob < 2 ^ 16 := by
        rw [← heq]
        exact Nat.mod_lt _ (Nat.two_pow_pos 16)
      refine ⟨hlt, ?_⟩
      intro hmode
      rw [if_pos hmode, hcrypto, hwhole hlt] at hencoded
      exact CStdCrypt.encodeBuffer_eq_none_iff.1 hencoded
    . rintro ⟨hlt, _⟩
      exact Nat.mod_eq_of_lt hlt

theorem encodeBlob_eq (env : Env) (hcrypto : s.m_crypto = crypt.engine) (hlt : dbei.cbBlob < 2 ^ 16)
    (hplain : s.m_bEncrypted = true → crypt.Refuses dbei.pBlob)
    : s.encodeBlob env dbei = (dbei.pBlob.getD [], false) := by
  have hwhole : dbei.pBlob.map (·.take (dbei.cbBlob % 2 ^ 16)) = dbei.pBlob := by
    rw [Nat.mod_eq_of_lt hlt]
    cases hblob : dbei.pBlob with
    | none => rfl
    | some blob => simp [cbBlob_eq_length, hblob]
  unfold encodeBlob
  dsimp only
  rw [hwhole]
  split
  . next pResult hencoded =>
    split at hencoded
    . next hmode =>
      rw [hcrypto] at hencoded
      have hnone : (crypt.encodeBuffer env.tmpBuf dbei.pBlob).2 = none :=
        CStdCrypt.encodeBuffer_eq_none_iff.2 (hplain hmode)
      change (crypt.encodeBuffer env.tmpBuf _).2 = some pResult at hencoded
      rw [hnone] at hencoded
      cases hencoded
    . cases hencoded
  . rfl

theorem GetEvent_of_get? (env : Env) (hfound : s.m_dbEvents.get? e = some data)
    (hlarge : buf.LargeEnough data.dbe.cbBlob)
    : ∃ mem : List UInt8, s.GetEvent env e buf =
        if data.dbe.cbBlob = 0 then
          some {
            szModule := s.GetModuleName data.dbe.iModuleId
            iTimestamp := data.dbe.timestamp
            flags := data.dbe.flags
            eventType := data.dbe.wEventType
            cbBlob := 0
            pBlob := buf.memory 0
            szId := none
          }
        else
          let pSrc := data.tail ++ env.behindEvent e
          (s.readBlob env data.dbe pSrc data.dbe.cbBlob).map fun pBlob => {
            szModule := s.GetModuleName data.dbe.iModuleId
            iTimestamp := data.dbe.timestamp
            flags := data.dbe.flags &&& ~~~DBEF_ENCRYPTED
            eventType := data.dbe.wEventType
            cbBlob := data.dbe.cbBlob
            pBlob := some (pBlob ++ mem.drop pBlob.length)
            szId :=
              if data.dbe.flags &&& DBEF_HAS_ID ≠ 0 then
                some (.ofMem (pSrc.drop (data.dbe.cbBlob + 1)))
              else
                none } := by
  unfold GetEvent
  rw [hfound]
  cases buf with
  | alloc =>
    simp only [BlobBuffer.missing, BlobBuffer.memory, BlobBuffer.bytesToCopy]
    refine ⟨List.replicate (data.dbe.cbBlob + 2) 0, ?_⟩
    by_cases hzero : data.dbe.cbBlob = 0
    . simp [hzero]
    . simp only [hzero, ↓reduceIte]
      cases s.readBlob env data.dbe (data.tail ++ env.behindEvent e) data.dbe.cbBlob with
      | none => rfl
      | some pBlob => rfl
  | caller pBlob capacity =>
    rcases hlarge with ⟨hle, hnull⟩
    have hcap : ¬ capacity < data.dbe.cbBlob := by omega
    simp only [BlobBuffer.missing, BlobBuffer.memory, BlobBuffer.bytesToCopy, hcap, ↓reduceIte]
    cases pBlob with
    | none =>
      have hzero : data.dbe.cbBlob = 0 := by
        have := hnull rfl
        omega
      refine ⟨[], ?_⟩
      simp [hnull rfl, hzero]
    | some mem =>
      refine ⟨mem, ?_⟩
      simp only [Option.isNone_some, Bool.and_false, Bool.false_eq_true, ↓reduceIte]
      by_cases hzero : data.dbe.cbBlob = 0
      . simp [hzero]
      . simp only [hzero, ↓reduceIte]
        cases s.readBlob env data.dbe (data.tail ++ env.behindEvent e) data.dbe.cbBlob with
        | none => rfl
        | some pBlob => rfl

/--
`GetEvent` finds the id of an event: without an id the has-id flag must not be set, with one it must,
and there must be a blob before the id. Of an id that is not empty, the byte of the record buffer
between the blob and the id must be one that is not zero already.
-/
def IdReadable (env env' : Env) (e : MEVENT) (dbei : DBEVENTINFO) : Prop :=
  match dbei.szId with
  | none => dbei.flags &&& DBEF_HAS_ID = 0 ∨ dbei.cbBlob = 0
  | some szId =>
    dbei.cbBlob ≠ 0 ∧ dbei.flags &&& DBEF_HAS_ID ≠ 0 ∧
    if szId.strlen > 0 then
      env.recBuf (24 + dbei.cbBlob) ≠ 0
    else
      let behind := env'.behindEvent e
      .ofMem (if env.recBuf (24 + dbei.cbBlob) ≠ 0 then behind else behind.drop 1) = szId

theorem flags_iff {flags : UInt32} {hasId : Bool}
    : (flags ||| (if hasId then DBEF_HAS_ID else 0)) &&& ~~~DBEF_ENCRYPTED =
        flags &&& ~~~DBEF_ENCRYPTED ↔ (hasId = true → flags &&& DBEF_HAS_ID ≠ 0) := by
  cases hasId with
  | false => simp
  | true =>
    have hout : DBEF_HAS_ID &&& ~~~DBEF_ENCRYPTED = DBEF_HAS_ID := by decide
    have hin : ~~~DBEF_ENCRYPTED &&& DBEF_HAS_ID = DBEF_HAS_ID := by decide
    have hflag : DBEF_HAS_ID.toBitVec = BitVec.twoPow 32 6 := by decide
    rw [if_pos rfl, Flags.or_and, hout, Flags.or_flag_eq_self_iff hflag (by decide),
      UInt32.and_assoc, hin]
    simp

def foundId (env : Env) (e : MEVENT) (data : EventRecord) : Option CStr :=
  if data.dbe.cbBlob = 0 then
    none
  else if data.dbe.flags &&& DBEF_HAS_ID ≠ 0 then
    some (.ofMem ((data.tail ++ env.behindEvent e).drop (data.dbe.cbBlob + 1)))
  else
    none

theorem ofMem_drop_one_ne {szId : CStr} (hlen : szId.strlen > 0) (behind : List UInt8)
    : CStr.ofMem ((szId.toMem ++ behind).drop 1) ≠ szId := by
  intro heq
  rcases hbytes : szId.bytes with _ | ⟨b, bytes⟩
  . simp [CStr.strlen, hbytes] at hlen
  . have hlong := congrArg CStr.strlen heq
    unfold CStr.ofMem CStr.toMem CStr.strlen at hlong
    have hnul : 0 ∉ bytes := fun h => szId.nul_notMem (by simp [hbytes, h])
    have hread : CStr.ofMem (bytes ++ 0 :: behind) = ⟨bytes, hnul⟩ :=
      CStr.ofMem_append_nul ⟨bytes, hnul⟩ behind
    have hread := congrArg CStr.bytes hread
    unfold CStr.ofMem at hread
    rw [hbytes] at hlong
    simp only [List.cons_append, List.append_assoc, List.drop_succ_cons, List.drop_zero,
      List.nil_append, List.length_cons] at hlong
    dsimp only at hread
    rw [hread] at hlong
    omega

def plainRecord (env : Env) (c : MCONTACT) (iModuleId : Nat) (dbei : DBEVENTINFO) : EventRecord :=
  let hasId := dbei.szId.any (·.strlen > 0)
  { dbe := {
      dwContactID := c
      iModuleId
      timestamp := dbei.getUnixtime
      flags := dbei.flags ||| (if hasId then DBEF_HAS_ID else 0)
      wEventType := dbei.eventType % 2 ^ 16
      cbBlob := dbei.cbBlob }
    tail := dbei.pBlob.getD [] ++ ((if env.recBuf (24 + dbei.cbBlob) ≠ 0 then [0] else []) ++
      (if hasId then (dbei.szId.map CStr.toMem).getD [] else [])) }

theorem makeRecord_plain (hblob : s.encodeBlob env dbei = (dbei.pBlob.getD [], false))
    (iModuleId : Nat)
    : s.makeRecord env c iModuleId dbei = plainRecord env c iModuleId dbei := by
  unfold makeRecord plainRecord
  rw [hblob]
  simp only [cbBlob_eq_length, Bool.false_eq_true, ↓reduceIte, UInt32.or_zero, List.append_assoc]
  rfl

theorem foundId_iff (env env' : Env) (c : MCONTACT) (e : MEVENT) (dbei : DBEVENTINFO)
    (iModuleId : Nat)
    : ((dbei.szId.any (·.strlen > 0) = true → dbei.flags &&& DBEF_HAS_ID ≠ 0) ∧
        foundId env' e (plainRecord env c iModuleId dbei) = dbei.szId) ↔
        IdReadable env env' e dbei := by
  have hdrop (rest : List UInt8)
      : (dbei.pBlob.getD [] ++ rest).drop (dbei.cbBlob + 1) = rest.drop 1 := by
    rw [cbBlob_eq_length, ← List.drop_drop, List.drop_left]
  have hself : DBEF_HAS_ID &&& DBEF_HAS_ID ≠ 0 := by decide
  unfold foundId IdReadable
  by_cases hzero : dbei.cbBlob = 0
  . cases hid : dbei.szId with
    | none => simp [plainRecord, hzero, hid]
    | some szId => simp [plainRecord, hzero]
  . cases hid : dbei.szId with
    | none => simp [plainRecord, hzero, hid]
    | some szId =>
      by_cases hlen : szId.strlen > 0
      . have hflag : (plainRecord env c iModuleId dbei).dbe.flags &&& DBEF_HAS_ID ≠ 0 := by
          simpa [plainRecord, hid, hlen] using Flags.or_and_ne_zero hself
        have hread : CStr.ofMem (((plainRecord env c iModuleId dbei).tail ++
            env'.behindEvent e).drop ((plainRecord env c iModuleId dbei).dbe.cbBlob + 1)) = szId ↔
            env.recBuf (24 + dbei.cbBlob) ≠ 0 := by
          simp only [plainRecord, hid, Option.any_some, hlen, decide_true, ↓reduceIte,
            Option.map_some, Option.getD_some]
          rw [List.append_assoc, hdrop]
          by_cases hbyte : env.recBuf (24 + dbei.cbBlob) ≠ 0
          . simp [hbyte]
          . simpa [hbyte] using ofMem_drop_one_ne hlen (env'.behindEvent e)
        have hcb : (plainRecord env c iModuleId dbei).dbe.cbBlob ≠ 0 := hzero
        rw [if_neg hcb, if_pos hflag, Option.some.injEq, hread]
        simp [hlen, hzero]
      . have hread : ((plainRecord env c iModuleId dbei).tail ++
            env'.behindEvent e).drop ((plainRecord env c iModuleId dbei).dbe.cbBlob + 1) =
            if env.recBuf (24 + dbei.cbBlob) ≠ 0 then env'.behindEvent e
            else (env'.behindEvent e).drop 1 := by
          simp only [plainRecord, hid, Option.any_some, hlen, decide_false, Bool.false_eq_true,
            ↓reduceIte]
          rw [List.append_assoc, hdrop]
          split <;> simp
        have hcb : (plainRecord env c iModuleId dbei).dbe.cbBlob ≠ 0 := hzero
        rw [if_neg hcb, hread]
        simp [plainRecord, hid, hlen, hzero]

def DecodesToItself (crypt : CStdCrypt) (env : Env) (blob : List UInt8) : Prop :=
  ∃ pBlob, crypt.engine.decodeBuffer env.heap (some blob) = some pBlob ∧
    pBlob.take blob.length ++ List.replicate (blob.length - pBlob.length) 0 = blob

theorem length_readBlob {dbe : DBEvent} {pSrc pBlob : List UInt8} {n : Nat}
    (h : s.readBlob env dbe pSrc n = some pBlob) (hle : n ≤ pSrc.length)
    : pBlob.length = n := by
  unfold readBlob at h
  split at h
  . split at h
    . cases h
    . cases h
      rw [List.length_append, List.length_take, List.length_replicate]
      omega
  . cases h
    exact List.length_take_of_le hle

theorem readBlob_plain (hcrypto : s.m_crypto = crypt.engine) (env env' : Env) (c : MCONTACT)
    (e : MEVENT) (dbei : DBEVENTINFO) (iModuleId : Nat)
    : s.readBlob env' (plainRecord env c iModuleId dbei).dbe
          ((plainRecord env c iModuleId dbei).tail ++ env'.behindEvent e) dbei.cbBlob =
            some (dbei.pBlob.getD []) ↔
        (dbei.flags &&& DBEF_ENCRYPTED ≠ 0 → DecodesToItself crypt env' (dbei.pBlob.getD [])) := by
  have hmarker : (plainRecord env c iModuleId dbei).dbe.flags &&& DBEF_ENCRYPTED =
      dbei.flags &&& DBEF_ENCRYPTED := by
    apply Flags.or_and_of_disjoint
    split <;> decide
  have hsrc : ((plainRecord env c iModuleId dbei).tail ++ env'.behindEvent e).take dbei.cbBlob =
      dbei.pBlob.getD [] := by
    rw [cbBlob_eq_length]
    simp only [plainRecord, List.append_assoc]
    exact List.take_left
  have hcb : (plainRecord env c iModuleId dbei).dbe.cbBlob = dbei.cbBlob := rfl
  have hlen : dbei.cbBlob = (dbei.pBlob.getD []).length := rfl
  unfold readBlob
  rw [hmarker, hcb, hsrc, hcrypto]
  split
  . next hset =>
    rw [forall_prop_of_true hset]
    unfold DecodesToItself
    rw [← hlen]
    split
    . next hnone => simp [hnone]
    . next pBlob hsome => simp [hsome]
  . next hclear => simp [hclear]

theorem getUnixtime_iff (hts : dbei.iTimestamp ≠ 0)
    : dbei.getUnixtime = dbei.iTimestamp ↔
        dbei.flags &&& DBEF_MSEC = 0 ∧ dbei.iTimestamp < 2 ^ 32 := by
  unfold DBEVENTINFO.getUnixtime
  by_cases hmsec : dbei.flags &&& DBEF_MSEC = 0
  . simp only [hmsec, ne_eq, not_true_eq_false, ↓reduceIte, true_and]
    constructor
    . intro heq
      rw [← heq]
      exact Nat.mod_lt _ (Nat.two_pow_pos 32)
    . exact Nat.mod_eq_of_lt
  . simp only [hmsec, ne_eq, not_false_eq_true, ↓reduceIte, false_and, iff_false]
    intro heq
    have := Nat.mod_le (dbei.iTimestamp / 1000) (2 ^ 32)
    omega

/--
An event that can be read back: no other module has taken the number of its module, the timestamp is
in seconds, the narrow fields of the record hold what they are given, the blob is stored as it is,
and the id is found.
-/
structure Recoverable (s : Store) (crypt : CStdCrypt) (env env' : Env) (e : MEVENT)
    (dbei : DBEVENTINFO) : Prop where
  szModule : ∀ szName, s.m_Modules.get? (moduleID dbei.szModule) = some szName →
    dbei.szModule = some szName
  seconds : dbei.flags &&& DBEF_MSEC = 0
  iTimestamp : dbei.iTimestamp < 2 ^ 32
  eventType : dbei.eventType < 2 ^ 16
  cbBlob : dbei.cbBlob < 2 ^ 16
  plain : s.m_bEncrypted = true → crypt.Refuses dbei.pBlob
  marker : dbei.flags &&& DBEF_ENCRYPTED ≠ 0 → dbei.cbBlob ≠ 0 →
    DecodesToItself crypt env' (dbei.pBlob.getD [])
  szId : IdReadable env env' e dbei

theorem roundTrips_plain_iff {s' : Store} (hcrypto : s'.m_crypto = crypt.engine)
    (hfound : s'.m_dbEvents.get? e = some (plainRecord env c (moduleID dbei.szModule) dbei))
    (hmodule : s'.GetModuleName (moduleID dbei.szModule) = dbei.szModule ↔
      ∀ szName, s.m_Modules.get? (moduleID dbei.szModule) = some szName →
        dbei.szModule = some szName)
    (hts : dbei.iTimestamp ≠ 0) (hlarge : buf.LargeEnough dbei.cbBlob)
    (hlt : dbei.cbBlob < 2 ^ 16) (hplain : s.m_bEncrypted = true → crypt.Refuses dbei.pBlob)
    : s'.RoundTrips env' e buf dbei ↔ Recoverable s crypt env env' e dbei := by
  rcases GetEvent_of_get? env' hfound hlarge with ⟨mem, hget⟩
  have htime := getUnixtime_iff hts
  have hid := foundId_iff env env' c e dbei (moduleID dbei.szModule)
  have hblob := readBlob_plain hcrypto env env' c e dbei (moduleID dbei.szModule)
  have hcb : (plainRecord env c (moduleID dbei.szModule) dbei).dbe.cbBlob = dbei.cbBlob := rfl
  have hidem (flags : UInt32) : flags &&& ~~~DBEF_ENCRYPTED &&& ~~~DBEF_ENCRYPTED =
      flags &&& ~~~DBEF_ENCRYPTED := by
    rw [UInt32.and_assoc, UInt32.and_self]
  unfold RoundTrips
  rw [hget, hcb]
  by_cases hzero : dbei.cbBlob = 0
  . have hnone : foundId env' e (plainRecord env c (moduleID dbei.szModule) dbei) = none :=
      if_pos hzero
    rw [hnone] at hid
    rw [if_pos hzero]
    constructor
    . rintro ⟨info, ⟨⟩, hback⟩
      have hts := htime.1 hback.iTimestamp
      refine ⟨hmodule.1 hback.szModule, hts.1, hts.2, ?_, hlt, hplain, fun _ h => absurd hzero h,
        hid.1 ⟨flags_iff.1 hback.flags, hback.szId⟩⟩
      rw [← hback.eventType]
      exact Nat.mod_lt _ (Nat.two_pow_pos 16)
    . intro hok
      have hflags := hid.2 hok.szId
      refine ⟨_, rfl, hmodule.2 hok.szModule, htime.2 ⟨hok.seconds, hok.iTimestamp⟩,
        Nat.mod_eq_of_lt hok.eventType, flags_iff.2 hflags.1, hflags.2, hzero.symm, ?_⟩
      exact (List.length_eq_zero_iff.1 hzero).symm
  . have hlong : dbei.cbBlob ≤ ((plainRecord env c (moduleID dbei.szModule) dbei).tail ++
        env'.behindEvent e).length := by
      simp only [plainRecord, cbBlob_eq_length, List.length_append]
      omega
    have hsome : foundId env' e (plainRecord env c (moduleID dbei.szModule) dbei) = _ :=
      if_neg hzero
    rw [hsome, hcb] at hid
    rw [if_neg hzero]
    dsimp only
    constructor
    . rintro ⟨info, hinfo, hback⟩
      rcases Option.map_eq_some_iff.1 hinfo with ⟨pBlob, hread, rfl⟩
      have hts := htime.1 hback.iTimestamp
      have hflags := hback.flags
      rw [hidem] at hflags
      refine ⟨hmodule.1 hback.szModule, hts.1, hts.2, ?_, hlt, hplain, fun h _ => ?_,
        hid.1 ⟨flags_iff.1 hflags, hback.szId⟩⟩
      . rw [← hback.eventType]
        exact Nat.mod_lt _ (Nat.two_pow_pos 16)
      . have hfull := hback.pBlob
        rw [Option.getD_some, List.take_left' (length_readBlob hread hlong)] at hfull
        exact hblob.1 (hfull ▸ hread) h
    . intro hok
      have hflags := hid.2 hok.szId
      have hread := hblob.2 (fun h => hok.marker h hzero)
      rw [hread]
      refine ⟨_, rfl, hmodule.2 hok.szModule, htime.2 ⟨hok.seconds, hok.iTimestamp⟩,
        Nat.mod_eq_of_lt hok.eventType, ?_, hflags.2, rfl, List.take_left⟩
      dsimp only
      rw [hidem]
      exact flags_iff.2 hflags.1

theorem or_eq_self_iff {name taken : Option CStr}
    : taken.or name = name ↔ ∀ szName, taken = some szName → name = some szName := by
  cases taken with
  | none => simp
  | some szName => simp [eq_comm]

theorem roundTrips_iff_recoverable (hcrypto : s.m_crypto = crypt.engine)
    (hadd : (s.AddEvent env c dbei).2 = e) (he : e ≠ 0)
    (hlarge : buf.LargeEnough ((s.AddEvent env c dbei).1.GetBlobSize e))
    : (s.AddEvent env c dbei).1.RoundTrips env' e buf dbei ↔ s.Recoverable crypt env env' e dbei := by
  rcases AddEvent_stored hadd he with ⟨hts, hfound, hModules, hcrypto'⟩
  have hlen : (s.makeRecord env c (moduleID dbei.szModule) dbei).dbe.cbBlob =
      (s.encodeBlob env dbei).1.length := rfl
  unfold GetBlobSize at hlarge
  rw [hfound] at hlarge
  have hsize := length_encodeBlob_iff hcrypto env dbei
  by_cases hplain : (s.encodeBlob env dbei).1.length = dbei.cbBlob
  . rcases hsize.1 hplain with ⟨hlt, hrefuses⟩
    have hrecord := makeRecord_plain (encodeBlob_eq env hcrypto hlt hrefuses)
      (c := c) (moduleID dbei.szModule)
    rw [hrecord] at hfound hlarge
    refine roundTrips_plain_iff (hcrypto'.trans hcrypto) hfound ?_ hts hlarge hlt hrefuses
    unfold GetModuleName
    rw [hModules, get?_insertModule]
    exact or_eq_self_iff
  . refine iff_of_false ?_ (fun hok => hplain (hsize.2 ⟨hok.cbBlob, hok.plain⟩))
    rintro ⟨info, hinfo, hback⟩
    rcases GetEvent_of_get? env' hfound hlarge with ⟨mem, hget⟩
    rw [hget, hlen] at hinfo
    apply hplain
    rw [← hback.cbBlob]
    split at hinfo
    . next hzero =>
      cases hinfo
      exact hzero
    . rcases Option.map_eq_some_iff.1 hinfo with ⟨pBlob, _, rfl⟩
      rfl

theorem roundTrips_of_terminator
    : ((create (default : CStdCrypt).engine false).AddContact.1.AddEvent { recBuf := fun _ => 1 } 1
          { szModule := some ⟨[77], by decide⟩, iTimestamp := 5, flags := DBEF_HAS_ID,
            pBlob := some [65], szId := some ⟨[105, 100], by decide⟩ }).1.RoundTrips {} 1 .alloc
        { szModule := some ⟨[77], by decide⟩, iTimestamp := 5, flags := DBEF_HAS_ID,
          pBlob := some [65], szId := some ⟨[105, 100], by decide⟩ } := by
  have hlarge (n : Int) : BlobBuffer.alloc.LargeEnough n := trivial
  refine (roundTrips_iff_recoverable rfl (by decide) (by decide) (hlarge _)).2 ?_
  constructor
  case szModule =>
    intro szName hname
    cases hname
  case szId => exact ⟨by decide, by decide, by decide⟩
  case plain =>
    intro hmode
    cases hmode
  case marker =>
    intro hset
    exact absurd hset (by decide)
  all_goals decide

-- A record buffer that happens to hold a zero behind the blob costs the id its first character.
theorem not_roundTrips_of_zero
    : ¬ ∀ (s : Store) (crypt : CStdCrypt) (env env' : Env) (c : MCONTACT) (dbei : DBEVENTINFO)
        (e : MEVENT) (buf : BlobBuffer), s.m_crypto = crypt.engine →
        (s.AddEvent env c dbei).2 = e → e ≠ 0 →
        buf.LargeEnough ((s.AddEvent env c dbei).1.GetBlobSize e) →
        (s.AddEvent env c dbei).1.RoundTrips env' e buf dbei := by
  intro h
  let s := (create (default : CStdCrypt).engine false).AddContact.1
  let dbei : DBEVENTINFO :=
    { szModule := some ⟨[77], by decide⟩, iTimestamp := 5, flags := DBEF_HAS_ID,
      pBlob := some [65], szId := some ⟨[105, 100], by decide⟩ }
  rcases h s default {} {} 1 dbei 1 .alloc rfl (by decide) (by decide) trivial with
    ⟨info, hinfo, hback⟩
  have hread : ((s.AddEvent {} 1 dbei).1.GetEvent {} 1 .alloc).map (·.szId) =
      some (some ⟨[100], by decide⟩) := by decide
  rw [hinfo, Option.map_some, hback.szId] at hread
  exact absurd hread (by decide)

end Store
end Dbx
