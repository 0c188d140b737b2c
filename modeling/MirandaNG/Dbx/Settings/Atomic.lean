import MirandaNG.Dbx.Settings.WriteRead

/-!
This module proves when writing or deleting a setting leaves the value that is read for another
setting of the same contact alone: when the name of the one is not consulted for the other.

It also contains what a call on a setting leaves behind that fails in the database: the cache was
changed before, and answers every read.
-/

namespace Dbx
namespace Database

open Kv Crypt

variable {db db' : Database} {env : SettingEnv} {c c' : MCONTACT} {f : CStr} {v : DBVARIANT}
  {szModule szSetting szModule' szSetting' : CStr}

/--
Neither writing nor deleting the first setting changes what is read for the second one.
-/
structure FrameLaw (db : Database) (contactID : MCONTACT)
    (szModule szSetting szModule' szSetting' : CStr) : Prop where
  write : ∀ env env' dbv,
    (db.WriteContactSetting env contactID szModule szSetting dbv).1.GetContactSetting env' contactID
        szModule' szSetting'
      =
    db.GetContactSetting env' contactID szModule' szSetting'
  delete : ∀ env,
    (db.DeleteContactSetting contactID szModule szSetting).1.GetContactSetting env contactID
        szModule' szSetting'
      =
    db.GetContactSetting env contactID szModule' szSetting'

def consulted (db : Database) (szSetting : CStr) : Nat → MCONTACT → CStr → List (MCONTACT × CStr)
  | 0, _, _ => []
  | n + 1, contactID, szModule =>
    let szCachedSettingName := GetCachedSetting szModule szSetting
    (contactID, szCachedSettingName) ::
      match db.cached contactID szCachedSettingName with
      | some _ => []
      | none =>
        match db.lookupDefault contactID szModule szSetting with
        | none => []
        | some (contactID, szModule) => db.consulted szSetting n contactID szModule

def names (db : Database) (contactID : MCONTACT) (szModule szSetting : CStr)
    : List (MCONTACT × CStr) :=
  db.consulted szSetting (db.m_cache.entries.length + 2) contactID szModule

theorem Touches.lookupDefault (h : Touches c f db db')
    : db'.lookupDefault c' szModule szSetting = db.lookupDefault c' szModule szSetting := by
  unfold Database.lookupDefault db_mc_getDefault CheckMeta Meta_GetContactHandle
  rw [h.m_cache, h.g_bMetaEnabled, h.baseAccountName]

theorem Touches.seek_of_notMem (h : Touches c f db db') {n : Nat}
    (hnot : (c, f) ∉ db.consulted szSetting n c' szModule)
    : db'.seek szSetting n c' szModule = db.seek szSetting n c' szModule := by
  induction n generalizing c' szModule with
  | zero => rfl
  | succ n ih =>
    simp only [consulted, List.mem_cons, not_or] at hnot
    have hcached := h.cached c' (GetCachedSetting szModule szSetting)
      (fun heq => hnot.1 (by rw [heq.1, heq.2]))
    unfold seek
    rw [hcached, h.lookupDefault]
    cases hfound : db.cached c' (GetCachedSetting szModule szSetting) with
    | some p => rfl
    | none =>
      cases hnext : db.lookupDefault c' szModule szSetting with
      | none => rfl
      | some next =>
        simp only [hfound, hnext] at hnot
        exact ih hnot.2

theorem Touches.seek_of_mem (h : Touches c f db db') (hv : db'.cached c f = some v) {n : Nat}
    (hmem : (c, f) ∈ db.consulted szSetting n c' szModule)
    : db'.seek szSetting n c' szModule = some v := by
  induction n generalizing c' szModule with
  | zero => cases hmem
  | succ n ih =>
    unfold seek
    by_cases hhead : c' = c ∧ GetCachedSetting szModule szSetting = f
    . rw [hhead.1, hhead.2, hv]
    . simp only [consulted, List.mem_cons] at hmem
      have htail := hmem.resolve_left
        (fun heq => hhead ⟨(Prod.mk.inj heq).1.symm, (Prod.mk.inj heq).2.symm⟩)
      rw [h.cached _ _ hhead, h.lookupDefault]
      cases hfound : db.cached c' (GetCachedSetting szModule szSetting) with
      | some p => simp [hfound] at htail
      | none =>
        cases hnext : db.lookupDefault c' szModule szSetting with
        | none => simp [hfound, hnext] at htail
        | some next =>
          simp only [hfound, hnext] at htail
          exact ih htail

theorem Touches.findValue_of_notMem (h : Touches c f db db')
    (hnot : (c, f) ∉ db.names c' szModule szSetting)
    : db'.findValue c' szModule szSetting = db.findValue c' szModule szSetting := by
  unfold findValue
  rw [h.m_cache]
  exact h.seek_of_notMem hnot

theorem Touches.findValue_of_mem (h : Touches c f db db') (hv : db'.cached c f = some v)
    (hmem : (c, f) ∈ db.names c' szModule szSetting)
    : db'.findValue c' szModule szSetting = some v := by
  unfold findValue
  rw [h.m_cache]
  exact h.seek_of_mem hv hmem

theorem Touches.GetContactSetting_of_notMem (h : Touches c f db db')
    (hnot : (c, f) ∉ db.names c' szModule szSetting)
    : db'.GetContactSetting env c' szModule szSetting =
        db.GetContactSetting env c' szModule szSetting := by
  unfold GetContactSetting GetContactSettingWorker
  dsimp only
  rw [h.findValue_of_notMem hnot, h.m_crypto]

theorem cached_write_byte (hplace : db.hasValues c) (hc : c ≠ INVALID_CONTACT_ID) (b : UInt8)
    : (db.WriteContactSetting env c szModule szSetting (some (.byte b))).1.cached c
        (GetCachedSetting szModule szSetting) = some (.byte b) := by
  unfold WriteContactSetting
  simp only [hc, if_false, notifValue, workValue, Option.bind_some]
  rcases storeValue_cases db env c szModule szSetting (.byte b)
    with ⟨p, hcached, hidentical, heq⟩ | ⟨-, heq⟩
  . rw [heq, hcached]
    cases p with
    | byte b' =>
      have : b' = b := by simpa [bIsIdentical] using hidentical
      rw [this]
    | _ => simp [bIsIdentical] at hidentical
  . rw [heq, cached_save, cached_SetCachedVariant]
    simp [hplace]

theorem not_frameLaw_of_mem (hplace : db.hasValues c) (hc : c ≠ INVALID_CONTACT_ID)
    (hmem : (c, GetCachedSetting szModule szSetting) ∈ db.names c szModule' szSetting')
    : ¬db.FrameLaw c szModule szSetting szModule' szSetting' := by
  intro h
  have hget : ∀ b : UInt8, db.GetContactSetting {} c szModule' szSetting' = some (.byte b) := by
    intro b
    rw [← h.write {} {} (some (.byte b))]
    have htouch := Touches.WriteContactSetting db {} c szModule szSetting (some (.byte b))
    have hfound := htouch.findValue_of_mem (cached_write_byte hplace hc b) hmem
    unfold GetContactSetting GetContactSettingWorker
    simp only [hc, if_false]
    rw [hfound]
    rfl
  have h0 := hget 0
  rw [hget 1] at h0
  cases h0

theorem findValue_of_not_hasValues (h : db.hasValues c = false)
    : db.findValue c szModule szSetting = none := by
  have hzero : c ≠ 0 := by rintro rfl; simp [hasValues] at h
  have hget : db.m_cache.get? c = none := by
    rw [← Table.notMem_iff]
    intro hmem
    simp [hasValues, hmem] at h
  unfold findValue seek
  simp [cached_of_not_hasValues h, lookupDefault, hzero, hget]

theorem Touches.GetContactSetting_of_unstored (h : Touches c f db db')
    (hno : ¬(db.hasValues c ∧ c ≠ INVALID_CONTACT_ID))
    : db'.GetContactSetting env c szModule szSetting =
        db.GetContactSetting env c szModule szSetting := by
  unfold GetContactSetting GetContactSettingWorker
  dsimp only
  by_cases hc : c = INVALID_CONTACT_ID
  . rw [if_pos hc, if_pos hc]
  . have hplace : db.hasValues c = false := by
      rw [← Bool.not_eq_true]
      exact fun hplace => hno ⟨hplace, hc⟩
    rw [findValue_of_not_hasValues hplace,
      findValue_of_not_hasValues (by rw [h.hasValues, hplace])]

end Database
end Dbx

namespace Dbx
namespace Database

open Kv Crypt

variable {db db' : Database} {env : SettingEnv} {c c' : MCONTACT} {f : CStr} {v : DBVARIANT}
  {szModule szSetting szModule' : CStr}

def DeleteContactSettingWith (mdbx_del : Bool) (db : Database) (contactID : MCONTACT)
    (szModule szSetting : Option CStr) : Database × Bool :=
  match szModule, szSetting with
  | some szModule, some szSetting =>
    let szCachedSettingName := GetCachedSetting szModule szSetting
    match db.cached contactID szCachedSettingName with
    | none => (db, false)
    | some _ =>
      let db := db.removeCached contactID szCachedSettingName
      if szCachedSettingName ∈ db.m_lResidentSettings then
        (db, true)
      else
        let (s, dwModuleId) := db.GetModuleID szModule
        let db := { db with toStore := s }
        let keyVal := ⟨contactID, dwModuleId, szSetting⟩
        if mdbx_del ∧ keyVal ∈ db.m_dbSettings then
          ({ db with m_dbSettings := db.m_dbSettings.del keyVal }, true)
        else
          (db, false)
  | _, _ => (db, false)

theorem DeleteContactSettingWith_true (szModule szSetting : Option CStr)
    : db.DeleteContactSettingWith true c szModule szSetting = db.DeleteContactSetting c szModule szSetting := by
  cases szModule with
  | none => rfl
  | some szModule =>
    cases szSetting with
    | none => rfl
    | some szSetting =>
      unfold DeleteContactSettingWith DeleteContactSetting
      cases hcached : db.cached c (GetCachedSetting szModule szSetting) with
      | none => simp only [hcached]
      | some value => simp only [hcached, true_and]

inductive DiskCall where
  | write (env : SettingEnv) (dbv : DBVARIANT)
  | delete (mdbx_del : Bool)

def callOn (db : Database) (c : MCONTACT) (szModule szSetting : CStr) : DiskCall → Database × Bool
  | .write env dbv => db.WriteContactSetting env c (some szModule) (some szSetting) (some dbv)
  | .delete mdbx_del => db.DeleteContactSettingWith mdbx_del c (some szModule) (some szSetting)

def workedValue (db : Database) (env : SettingEnv) (c : MCONTACT) (szModule szSetting : CStr) (dbv : DBVARIANT)
    : Option DBVARIANT :=
  if c = INVALID_CONTACT_ID then none else (notifValue dbv).bind (db.workValue env szModule szSetting)

def WorkerFails (db : Database) (c : MCONTACT) (szModule szSetting : CStr) : DiskCall → Prop
  | .write env dbv =>
    ∃ value ∈ db.workedValue env c szModule szSetting dbv,
      (∀ p ∈ db.cached c (GetCachedSetting szModule szSetting), bIsIdentical env p value = false)
        ∧ GetCachedSetting szModule szSetting ∉ db.m_lResidentSettings
        ∧ ((db.SetCachedVariant c (GetCachedSetting szModule szSetting) value).WriteContactSettingWorker env c
            szModule szSetting value).2 = false
  | .delete mdbx_del =>
    db.cached c (GetCachedSetting szModule szSetting) ≠ none
      ∧ GetCachedSetting szModule szSetting ∉ db.m_lResidentSettings
      ∧ ¬(mdbx_del = true ∧ ⟨c, (db.GetModuleID szModule).2, szSetting⟩ ∈ db.m_dbSettings)

def answer (db : Database) (env : SettingEnv) : Option DBVARIANT → Option DBVARIANT
  | none => none
  | some (.encrypted pbVal) =>
    (db.m_crypto.decodeString env.heap (pbVal.map (·.bytes))).map fun decoded =>
      utf8ToWide (.utf8 (some (.ofMem decoded)))
  | some value => some (utf8ToWide value)

def defaultValue (db : Database) (c : MCONTACT) (szModule szSetting : CStr) : Option DBVARIANT :=
  match db.lookupDefault c szModule szSetting with
  | none => none
  | some (c', szModule') => db.seek szSetting (db.m_cache.entries.length + 1) c' szModule'

def KeepsAnswer (db : Database) (env : SettingEnv) (c : MCONTACT) (szModule szSetting : CStr) : DiskCall → Prop
  | .write env' dbv =>
    db.hasValues c = true →
      ∀ value ∈ db.workedValue env' c szModule szSetting dbv,
        db.answer env (some value) = db.answer env (db.findValue c szModule szSetting)
  | .delete _ =>
    c ≠ INVALID_CONTACT_ID →
      db.answer env ((db.removeCached c (GetCachedSetting szModule szSetting)).defaultValue c szModule szSetting)
        = db.answer env (db.findValue c szModule szSetting)

theorem GetContactSetting_eq
    : db.GetContactSetting env c (some szModule) (some szSetting)
        =
      if c = INVALID_CONTACT_ID then none else db.answer env (db.findValue c szModule szSetting) := by
  unfold GetContactSetting GetContactSettingWorker
  simp only []
  split
  . rfl
  . cases db.findValue c szModule szSetting with
    | none => rfl
    | some value =>
      cases value with
      | encrypted pbVal =>
        unfold answer
        simp only []
        cases db.m_crypto.decodeString env.heap (pbVal.map (·.bytes)) <;> rfl
      | _ => rfl

theorem answer_congr (h : db'.m_crypto = db.m_crypto) (value : Option DBVARIANT)
    : db'.answer env value = db.answer env value := by
  unfold answer
  rw [h]

theorem findValue_of_none (h : db.cached c (GetCachedSetting szModule szSetting) = none)
    : db.findValue c szModule szSetting = db.defaultValue c szModule szSetting := by
  unfold findValue
  rw [seek, h]
  rfl

theorem seek_congr (hcached : ∀ c f, db'.cached c f = db.cached c f)
    (hdefault : ∀ c szModule szSetting, db'.lookupDefault c szModule szSetting = db.lookupDefault c szModule szSetting)
    (n : Nat) (c : MCONTACT) (szModule : CStr)
    : db'.seek szSetting n c szModule = db.seek szSetting n c szModule := by
  induction n generalizing c szModule with
  | zero => rfl
  | succ n ih =>
    rw [seek, seek, hcached, hdefault]
    split
    . rfl
    . split
      . rfl
      . apply ih

theorem failed_write {dbv : DBVARIANT} {value : DBVARIANT} (hvalue : value ∈ db.workedValue env c szModule szSetting dbv)
    (hnew : ∀ p ∈ db.cached c (GetCachedSetting szModule szSetting), bIsIdentical env p value = false)
    : (db.callOn c szModule szSetting (.write env dbv)).1
        =
      (storeValue.save env c szModule szSetting value db (GetCachedSetting szModule szSetting)).1 := by
  unfold workedValue at hvalue
  split at hvalue
  . cases hvalue
  . next hvalid =>
    unfold callOn WriteContactSetting
    simp only []
    rw [if_neg hvalid, Option.mem_def.mp hvalue]
    simp only []
    cases storeValue_cases db env c szModule szSetting value with
    | inl hidentical =>
      obtain ⟨p, hp, hsame, _⟩ := hidentical
      rw [hnew p hp] at hsame
      cases hsame
    | inr hsaved => rw [hsaved.2]

theorem touches_callOn (db : Database) (c : MCONTACT) (szModule szSetting : CStr) (call : DiskCall)
    : Touches c (GetCachedSetting szModule szSetting) db (db.callOn c szModule szSetting call).1 := by
  cases call with
  | write env dbv => apply Touches.WriteContactSetting
  | delete mdbx_del =>
    unfold callOn DeleteContactSettingWith Store.GetModuleID
    simp only []
    split
    . exact Touches.refl
    . refine Touches.removeCached.trans ?_
      split
      . exact Touches.refl
      . split
        . exact Touches.withRecords _
        . exact Touches.withRecords _

theorem answer_write {dbv : DBVARIANT} (hfail : db.WorkerFails c szModule szSetting (.write env dbv)) (env' : SettingEnv)
    : (db.callOn c szModule szSetting (.write env dbv)).1.GetContactSetting env' c (some szModule) (some szSetting)
          = db.GetContactSetting env' c (some szModule) (some szSetting)
        ↔
      db.KeepsAnswer env' c szModule szSetting (.write env dbv) := by
  obtain ⟨value, hvalue, hnew, _⟩ := hfail
  have htouch := db.touches_callOn c szModule szSetting (.write env dbv)
  have hvalid : c ≠ INVALID_CONTACT_ID := by
    intro heq
    unfold workedValue at hvalue
    rw [if_pos heq] at hvalue
    cases hvalue
  unfold KeepsAnswer
  cases hplace : db.hasValues c with
  | false =>
    apply iff_of_true
    . apply htouch.GetContactSetting_of_unstored
      rw [hplace]
      simp
    . intro h
      cases h
  | true =>
    have hcached : (db.callOn c szModule szSetting (.write env dbv)).1.cached c (GetCachedSetting szModule szSetting)
        = some value := by
      rw [failed_write hvalue hnew, cached_save, cached_SetCachedVariant, if_pos ⟨hplace, rfl, rfl⟩]
    rw [GetContactSetting_eq, GetContactSetting_eq, if_neg hvalid, if_neg hvalid, findValue_of_cached hcached,
      answer_congr htouch.m_crypto]
    constructor
    . intro h _ value' hvalue'
      rw [Option.mem_unique hvalue' hvalue]
      exact h
    . intro h
      exact h rfl value hvalue

theorem cached_failed_delete {mdbx_del : Bool} (hfail : db.WorkerFails c szModule szSetting (.delete mdbx_del))
    (c' : MCONTACT) (f : CStr)
    : (db.callOn c szModule szSetting (.delete mdbx_del)).1.cached c' f
        =
      (db.removeCached c (GetCachedSetting szModule szSetting)).cached c' f := by
  obtain ⟨hsome, hresident, hkey⟩ := hfail
  obtain ⟨values, hvalues⟩ : ∃ values,
      db.removeCached c (GetCachedSetting szModule szSetting) = { db with values := values } := by
    unfold removeCached
    split <;> exact ⟨_, rfl⟩
  unfold callOn DeleteContactSettingWith
  simp only []
  cases hcached : db.cached c (GetCachedSetting szModule szSetting) with
  | none => exact absurd hcached hsome
  | some value =>
    simp only [hvalues]
    rw [if_neg hresident, if_neg hkey]
    apply cached_congr
    . apply insertModule_m_cache
    . rfl

theorem answer_delete {mdbx_del : Bool} (hfail : db.WorkerFails c szModule szSetting (.delete mdbx_del))
    (env' : SettingEnv)
    : (db.callOn c szModule szSetting (.delete mdbx_del)).1.GetContactSetting env' c (some szModule) (some szSetting)
          = db.GetContactSetting env' c (some szModule) (some szSetting)
        ↔
      db.KeepsAnswer env' c szModule szSetting (.delete mdbx_del) := by
  have htouch := db.touches_callOn c szModule szSetting (.delete mdbx_del)
  have hremoved : Touches c (GetCachedSetting szModule szSetting) db
      (db.removeCached c (GetCachedSetting szModule szSetting)) := Touches.removeCached
  have hcached := cached_failed_delete hfail
  have hfound : (db.callOn c szModule szSetting (.delete mdbx_del)).1.findValue c szModule szSetting
      = (db.removeCached c (GetCachedSetting szModule szSetting)).defaultValue c szModule szSetting := by
    rw [← findValue_of_none]
    . unfold findValue
      rw [htouch.m_cache, hremoved.m_cache]
      apply seek_congr hcached
      intro c' szModule' szSetting'
      rw [htouch.lookupDefault, hremoved.lookupDefault]
    . rw [cached_removeCached, if_pos ⟨rfl, rfl⟩]
  rw [GetContactSetting_eq, GetContactSetting_eq, hfound, answer_congr htouch.m_crypto]
  unfold KeepsAnswer
  split
  . next hinvalid => simp [hinvalid]
  . next hvalid => simp [hvalid]

theorem atomic_iff (db : Database) (env : SettingEnv) (c : MCONTACT) (szModule szSetting : CStr) (call : DiskCall)
    : (db.WorkerFails c szModule szSetting call →
          (db.callOn c szModule szSetting call).1.GetContactSetting env c (some szModule) (some szSetting)
            = db.GetContactSetting env c (some szModule) (some szSetting))
        ↔
      (db.WorkerFails c szModule szSetting call → db.KeepsAnswer env c szModule szSetting call) := by
  apply imp_congr_right
  intro hfail
  cases call with
  | write env' dbv => exact answer_write hfail env
  | delete mdbx_del => exact answer_delete hfail env

-- A byte that `mdbx_put` refuses is read all the same.
theorem not_atomic_of_put
    : ¬∀ (db : Database) (env : SettingEnv) (c : MCONTACT) (szModule szSetting : CStr) (call : DiskCall),
        db.WorkerFails c szModule szSetting call →
          (db.callOn c szModule szSetting call).1.GetContactSetting env c (some szModule) (some szSetting)
            = db.GetContactSetting env c (some szModule) (some szSetting) := by
  intro h
  have hsame := h (create default false) {} 0 ⟨[97], by decide⟩ ⟨[98], by decide⟩
    (.write { mdbx_put := false } (.byte 1)) (by
      unfold WorkerFails
      decide)
  revert hsame
  decide

end Database
end Dbx
