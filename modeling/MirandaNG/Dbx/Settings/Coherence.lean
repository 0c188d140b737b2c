import MirandaNG.Dbx.Settings.Lemmas
import MirandaNG.Transition.Run

/-!
This module proves when the cache and `m_dbSettings` stay two views of the same settings: filling
the cache anew gives the values it holds already.
-/

namespace Dbx

open Kv

def DBVARIANT.ReadsAs (data : List UInt8) (v : DBVARIANT) : Prop :=
  ∃ iType pBlob, data = iType :: pBlob ∧ iType ≠ 0 ∧ ∀ mem, unpack iType (pBlob ++ mem) = v

namespace DBVARIANT

variable {v v' : DBVARIANT} {data : List UInt8}

def FitsRecord : DBVARIANT → Prop
  | asciiz (some pszVal) | utf8 (some pszVal) => pszVal.strlen < 2 ^ 16
  | _ => True

theorem word16_bytes16 {n : Nat} (h : n < 2 ^ 16) (mem : List UInt8)
    : word16 (bytes16 n ++ mem) = n := by
  simp only [word16, bytes16, List.cons_append, List.getD_cons_zero, List.getD_cons_succ,
    UInt8.toNat_ofNat']
  omega

theorem word32_bytes32 {n : Nat} (h : n < 2 ^ 32) (mem : List UInt8)
    : word32 (bytes32 n ++ mem) = n := by
  have hlow : word16 (bytes16 n ++ (bytes16 (n / 65536) ++ mem)) = n % 65536 := by
    simp only [word16, bytes16, List.cons_append, List.getD_cons_zero, List.getD_cons_succ,
      UInt8.toNat_ofNat']
    omega
  unfold word32 bytes32
  rw [List.append_assoc, hlow, List.drop_left' (by rfl), word16_bytes16 (by omega)]
  omega

theorem take_word16 {n : Nat} {var : List UInt8} (h : var.length = n) (hn : n < 2 ^ 16)
    (mem : List UInt8)
    : ((bytes16 n ++ (var ++ mem)).drop 2).take (word16 (bytes16 n ++ (var ++ mem))) = var := by
  rw [word16_bytes16 hn, List.drop_left' (by rfl), List.take_left' h]

theorem packString_of_lt {pszVal : CStr} (h : pszVal.strlen < 2 ^ 16)
    : pack.packString pszVal = bytes16 pszVal.strlen ++ pszVal.bytes := by
  unfold pack.packString
  rw [Nat.mod_eq_of_lt h]
  dsimp only [CStr.strlen]
  rw [List.take_length]

theorem readsAs_pack (hfits : v.FitsRecord) (h : v.pack = some data) : ReadsAs data v := by
  cases v with
  | byte bVal =>
    cases h
    exact ⟨1, [bVal], rfl, by decide, fun mem => rfl⟩
  | word wVal =>
    cases h
    refine ⟨2, bytes16 wVal.toNat, rfl, by decide, fun mem => ?_⟩
    simp only [unpack, if_neg (show ¬(2 : UInt8) = 1 by decide), if_true]
    rw [word16_bytes16 wVal.toNat_lt]
    simp
  | dword dVal =>
    cases h
    refine ⟨4, bytes32 dVal.toNat, rfl, by decide, fun mem => ?_⟩
    simp only [unpack, if_neg (show ¬(4 : UInt8) = 1 by decide),
      if_neg (show ¬(4 : UInt8) = 2 by decide), if_true]
    rw [word32_bytes32 dVal.toNat_lt]
    simp
  | asciiz pszVal =>
    cases pszVal with
    | none => cases h
    | some pszVal =>
      cases h
      refine ⟨255, pack.packString pszVal, rfl, by decide, fun mem => ?_⟩
      rw [packString_of_lt hfits]
      simp [unpack, take_word16 (show pszVal.bytes.length = pszVal.strlen from rfl) hfits]
  | utf8 pszVal =>
    cases pszVal with
    | none => cases h
    | some pszVal =>
      cases h
      refine ⟨253, pack.packString pszVal, rfl, by decide, fun mem => ?_⟩
      rw [packString_of_lt hfits]
      simp [unpack, take_word16 (show pszVal.bytes.length = pszVal.strlen from rfl) hfits]
  | blob pbVal =>
    cases pbVal with
    | none => cases h
    | some pbVal =>
      cases h
      refine ⟨254, pack.packBlob pbVal, rfl, by decide, fun mem => ?_⟩
      unfold pack.packBlob
      simp [unpack, take_word16 rfl pbVal.length_lt, Blob.cast_self]
  | encrypted pbVal =>
    cases pbVal with
    | none => cases h
    | some pbVal =>
      cases h
      refine ⟨250, pack.packBlob pbVal, rfl, by decide, fun mem => ?_⟩
      unfold pack.packBlob
      simp [unpack, take_word16 rfl pbVal.length_lt, Blob.cast_self]
  | deleted | byteHidden | wchar | other => cases h

end DBVARIANT
namespace Database

variable {db : Database} {env : SettingEnv} {c : MCONTACT} {f : CStr} {v : DBVARIANT}
  {key : DBSettingKey} {szModule szSetting : CStr} {entry : DBSettingKey × List UInt8}
  {l : List (DBSettingKey × List UInt8)}

def Files (db : Database) (key : DBSettingKey) (contactID : MCONTACT) (name : CStr) : Prop :=
  key.hContact = contactID ∧ ∃ szModule, db.GetModuleName key.dwModuleId = some szModule ∧
    GetCachedSetting szModule key.szSettingName = name

def discardCache (db : Database) : Database := { db with values := fun _ => .empty }

def Coherent (db : Database) : Prop :=
  ∀ env contactID name,
    (db.discardCache.FillSettings env).cached contactID name = db.cached contactID name

theorem fillSetting_frame (db : Database) (env : SettingEnv) (entry : DBSettingKey × List UInt8)
    : ∃ values, fillSetting env db entry = { db with values := values } := by
  obtain ⟨pKey, data⟩ := entry
  unfold fillSetting SetCachedVariant
  dsimp only
  split
  . exact ⟨_, rfl⟩
  . split
    . exact ⟨_, rfl⟩
    . split
      . exact ⟨_, rfl⟩
      . split
        . exact ⟨_, rfl⟩
        . exact ⟨_, rfl⟩

theorem foldl_frame (db : Database) (env : SettingEnv) (l : List (DBSettingKey × List UInt8))
    : ∃ values, l.foldl (fillSetting env) db = { db with values := values } := by
  induction l generalizing db with
  | nil => exact ⟨_, rfl⟩
  | cons entry l ih =>
    obtain ⟨values, hentry⟩ := fillSetting_frame db env entry
    obtain ⟨values', hrest⟩ := ih { db with values := values }
    exact ⟨values', by rw [List.foldl_cons, hentry, hrest]⟩

theorem toStore_fillSetting : (fillSetting env db entry).toStore = db.toStore := by
  obtain ⟨values, hentry⟩ := fillSetting_frame db env entry
  rw [hentry]

theorem cached_fillSetting_of_not (h : ¬db.Files entry.1 c f)
    : (fillSetting env db entry).cached c f = db.cached c f := by
  obtain ⟨pKey, data⟩ := entry
  unfold fillSetting
  dsimp only
  split
  . rfl
  . next szModule hmodule =>
    split
    . rfl
    . split
      . rfl
      . rw [cached_SetCachedVariant, if_neg]
        rintro ⟨-, hcontact, hname⟩
        exact h ⟨hcontact.symm, szModule, hmodule, hname.symm⟩

theorem cached_fillSetting_of_files (hplace : db.hasValues c) (h : db.Files entry.1 c f)
    (hread : DBVARIANT.ReadsAs entry.2 v)
    : (fillSetting env db entry).cached c f = some v := by
  obtain ⟨hcontact, szModule, hmodule, hname⟩ := h
  obtain ⟨iType, pBlob, hdata, htype, hunpack⟩ := hread
  unfold fillSetting
  simp only [hmodule, hdata, List.cons_append, htype, if_false]
  rw [cached_SetCachedVariant, hunpack, hcontact, hname]
  simp [hplace]

theorem files_congr {db' : Database} (h : db'.toStore = db.toStore)
    : db'.Files key c f ↔ db.Files key c f := by
  unfold Files
  rw [h]

theorem cached_foldl_of_not (h : ∀ entry ∈ l, ¬db.Files entry.1 c f)
    : (l.foldl (fillSetting env) db).cached c f = db.cached c f := by
  induction l generalizing db with
  | nil => rfl
  | cons entry l ih =>
    rw [List.foldl_cons, ih]
    . exact cached_fillSetting_of_not (h entry (by simp))
    . intro entry' hmem
      rw [files_congr toStore_fillSetting]
      exact h entry' (by simp [hmem])

theorem cached_foldl_of_files (hplace : db.hasValues c)
    (hread : ∀ entry ∈ l, db.Files entry.1 c f → DBVARIANT.ReadsAs entry.2 v)
    (hex : ∃ entry ∈ l, db.Files entry.1 c f)
    : (l.foldl (fillSetting env) db).cached c f = some v := by
  induction l generalizing db with
  | nil => simp at hex
  | cons entry l ih =>
    have hstore : (fillSetting env db entry).toStore = db.toStore := toStore_fillSetting
    rw [List.foldl_cons]
    by_cases hlater : ∃ entry ∈ l, db.Files entry.1 c f
    . apply ih
      . simpa [hasValues, hstore] using hplace
      . intro entry' hmem hfiles
        exact hread entry' (by simp [hmem]) ((files_congr hstore).1 hfiles)
      . obtain ⟨entry', hmem, hfiles⟩ := hlater
        exact ⟨entry', hmem, (files_congr hstore).2 hfiles⟩
    . have hhead : db.Files entry.1 c f := by
        obtain ⟨entry', hmem, hfiles⟩ := hex
        rcases List.mem_cons.1 hmem with rfl | hmem
        . exact hfiles
        . exact absurd ⟨entry', hmem, hfiles⟩ hlater
      rw [cached_foldl_of_not]
      . exact cached_fillSetting_of_files hplace hhead (hread entry (by simp) hhead)
      . intro entry' hmem hfiles
        exact hlater ⟨entry', hmem, (files_congr hstore).1 hfiles⟩

/--
Every record has its value in the cache, every cached value has a record, and no two records stand
for the same name.
-/
structure Synced (db : Database) : Prop where
  modules : ∀ key ∈ db.m_dbSettings, ∃ szModule, db.GetModuleName key.dwModuleId = some szModule
  unique : ∀ c f, db.hasValues c → ∀ key ∈ db.m_dbSettings, ∀ key' ∈ db.m_dbSettings,
    db.Files key c f → db.Files key' c f → key = key'
  filed : ∀ c f, db.hasValues c → ∀ key data, db.m_dbSettings.get? key = some data →
    db.Files key c f → ∃ v, DBVARIANT.ReadsAs data v ∧ db.cached c f = some v
  backed : ∀ c f v, db.cached c f = some v → ∃ key ∈ db.m_dbSettings, db.Files key c f

theorem Synced.coherent (h : db.Synced) : db.Coherent := by
  intro env c f
  have hplaces : db.discardCache.hasValues c = db.hasValues c := rfl
  have hempty : db.discardCache.cached c f = none := by
    unfold cached
    split <;> rfl
  cases hplace : db.hasValues c with
  | false =>
    have hfilled : (db.discardCache.FillSettings env).hasValues c = false := by
      obtain ⟨values, hframe⟩ := foldl_frame db.discardCache env db.m_dbSettings.entries
      unfold FillSettings
      rw [show db.discardCache.m_dbSettings = db.m_dbSettings from rfl, hframe]
      exact hplace
    rw [cached_of_not_hasValues hplace, cached_of_not_hasValues hfilled]
  | true =>
    have hentry : ∀ entry ∈ db.m_dbSettings.entries, db.discardCache.Files entry.1 c f →
        ∃ v, DBVARIANT.ReadsAs entry.2 v ∧ db.cached c f = some v :=
      fun entry hmem hfiles => h.filed c f hplace _ _ (Table.get?_eq_some_iff.2 hmem) hfiles
    cases hcached : db.cached c f with
    | none =>
      refine (cached_foldl_of_not ?_).trans hempty
      intro entry hmem hfiles
      obtain ⟨v, -, hv⟩ := hentry entry hmem hfiles
      rw [hcached] at hv
      cases hv
    | some v =>
      apply cached_foldl_of_files (hplaces.trans hplace)
      . intro entry hmem hfiles
        obtain ⟨v', hread, hv⟩ := hentry entry hmem hfiles
        rw [hcached] at hv
        cases hv
        exact hread
      . obtain ⟨key, hmem, hfiles⟩ := h.backed c f v hcached
        obtain ⟨data, hdata⟩ := Table.mem_iff_exists.1 hmem
        exact ⟨(key, data), Table.get?_eq_some_iff.1 hdata, hfiles⟩

inductive SettingCall where
  | write (env : SettingEnv) (contactID : MCONTACT) (szModule szSetting : Option CStr)
    (dbv : Option DBVARIANT)
  | delete (contactID : MCONTACT) (szModule szSetting : Option CStr)
  | load (env : SettingEnv)

def run (db : Database) : SettingCall → Database × Bool
  | .write env contactID szModule szSetting dbv =>
    db.WriteContactSetting env contactID szModule szSetting dbv
  | .delete contactID szModule szSetting => db.DeleteContactSetting contactID szModule szSetting
  | .load env => (db.discardCache.FillSettings env, true)

def step (db : Database) (call : SettingCall) : Database := (db.run call).1

/--
The calls of the law: they succeed, and the settings they are about are not resident.
-/
def Succeeds (db : Database) (call : SettingCall) : Prop :=
  (db.run call).2 = true ∧
  match call with
  | .write _ _ (some szModule) (some szSetting) _ | .delete _ (some szModule) (some szSetting) =>
    GetCachedSetting szModule szSetting ∉ db.m_lResidentSettings
  | _ => True

def OwnsNumber (db : Database) (szModule : CStr) : Prop :=
  ∀ name, db.GetModuleName (moduleID szModule) = some name → name = szModule

/--
What a write must meet: its value fits into its record, the number of the module is its own, and no
other record stands for the name.
-/
def KeepsRecords (db : Database) (contactID : MCONTACT) (szModule szSetting : CStr)
    (value : DBVARIANT) : Prop :=
  value.FitsRecord ∧ db.OwnsNumber szModule ∧
  ∀ key ∈ db.m_dbSettings, db.Files key contactID (GetCachedSetting szModule szSetting) →
    key = ⟨contactID, moduleID szModule, szSetting⟩

/--
The condition on a call. Nothing is asked of a write for a contact that does not exist: its record
is not loaded either.
-/
def KeepsCoherence (db : Database) : SettingCall → Prop
  | .write env contactID (some szModule) (some szSetting) (some dbv) =>
    db.hasValues contactID → ∀ value,
      (notifValue dbv).bind (db.workValue env szModule szSetting) = some value →
        db.KeepsRecords contactID szModule szSetting value
  | .delete _ (some szModule) _ => db.OwnsNumber szModule
  | _ => True

namespace Synced

/-! What entering a module does to the names of the records. -/

theorem files_of_registered {s : Store} {name : CStr} (hs : s = db.insertModule (some szModule))
    (hname : db.GetModuleName key.dwModuleId = some name)
    (t : Table DBSettingKey (List UInt8)) (values : MCONTACT → Table CStr DBVARIANT)
    : ({ db with toStore := s, m_dbSettings := t, values := values } : Database).Files key c f ↔
        db.Files key c f := by
  have hget : s.GetModuleName key.dwModuleId = db.GetModuleName key.dwModuleId := by
    rw [hname, hs]
    exact Store.get?_insertModule_of_some _ _ hname
  unfold Files
  rw [hget]

theorem registered {s : Store} (hs : s = db.insertModule (some szModule))
    : ∃ name, s.GetModuleName (moduleID szModule) = some name := by
  rw [hs]
  unfold Store.GetModuleName
  rw [Store.get?_insertModule]
  cases db.m_Modules.get? (moduleID szModule) with
  | none => exact ⟨_, rfl⟩
  | some name => exact ⟨name, rfl⟩

theorem registered_of_owns {s : Store} (hs : s = db.insertModule (some szModule))
    (howns : db.OwnsNumber szModule)
    : s.GetModuleName (moduleID szModule) = some szModule := by
  rw [hs]
  unfold Store.GetModuleName
  rw [Store.get?_insertModule]
  cases hget : db.m_Modules.get? (moduleID szModule) with
  | none => rfl
  | some name => rw [howns name hget]; rfl

section

variable {db' : Database} {data : List UInt8}

theorem of_put (h : db.Synced) (key : DBSettingKey) (f : CStr) (v : DBVARIANT) (data : List UInt8)
    (hplaces : ∀ c', db'.hasValues c' = db.hasValues c')
    (hmodules : ∀ key ∈ db.m_dbSettings,
      ∃ szModule, db'.GetModuleName key.dwModuleId = some szModule)
    (hfiles : ∀ key ∈ db.m_dbSettings, ∀ c' f', db'.Files key c' f' ↔ db.Files key c' f')
    (hrecords : db'.m_dbSettings = db.m_dbSettings.put key data)
    (hcached : ∀ c' f', db'.cached c' f' =
      if db.hasValues key.hContact ∧ c' = key.hContact ∧ f' = f then some v else db.cached c' f')
    (hmodule : ∃ szModule, db'.GetModuleName key.dwModuleId = some szModule)
    (hname : db.hasValues key.hContact → ∀ f', db'.Files key key.hContact f' ↔ f' = f)
    (hother : db.hasValues key.hContact →
      ∀ key' ∈ db.m_dbSettings, db.Files key' key.hContact f → key' = key)
    (hread : db.hasValues key.hContact → DBVARIANT.ReadsAs data v)
    : db'.Synced where
  modules key' hmem := by
    rw [hrecords, Table.mem_put] at hmem
    rcases hmem with rfl | hmem
    . exact hmodule
    . exact hmodules key' hmem
  unique c' f' hplace := by
    rw [hplaces] at hplace
    have hnew : ∀ key' ∈ db.m_dbSettings, db'.Files key c' f' → db'.Files key' c' f' →
        key' = key := by
      intro key' hmem hf hf'
      obtain rfl := hf.1
      obtain rfl := (hname hplace f').1 hf
      exact hother hplace key' hmem ((hfiles key' hmem _ _).1 hf')
    intro k hk k' hk' hf hf'
    rw [hrecords, Table.mem_put] at hk hk'
    rcases hk with rfl | hk
    . rcases hk' with rfl | hk'
      . rfl
      . exact (hnew k' hk' hf hf').symm
    . rcases hk' with rfl | hk'
      . exact hnew k hk hf' hf
      . exact h.unique c' f' hplace k hk k' hk' ((hfiles k hk _ _).1 hf) ((hfiles k' hk' _ _).1 hf')
  filed c' f' hplace k data' hget hf := by
    rw [hplaces] at hplace
    rw [hrecords, Table.get?_put] at hget
    rw [hcached]
    split at hget
    . next heq =>
      subst heq
      cases hget
      obtain rfl := hf.1
      obtain rfl := (hname hplace f').1 hf
      exact ⟨v, hread hplace, if_pos ⟨hplace, rfl, rfl⟩⟩
    . next hne =>
      have hmem : k ∈ db.m_dbSettings := Table.mem_iff_exists.2 ⟨_, hget⟩
      rw [hfiles k hmem] at hf
      rw [if_neg]
      . exact h.filed c' f' hplace k data' hget hf
      . rintro ⟨hkey, rfl, rfl⟩
        exact hne (hother hkey k hmem hf)
  backed c' f' v' hv := by
    rw [hcached] at hv
    simp only [hrecords, Table.mem_put]
    split at hv
    . next hthis =>
      obtain ⟨hplace, rfl, rfl⟩ := hthis
      exact ⟨key, .inl rfl, (hname hplace _).2 rfl⟩
    . obtain ⟨k, hmem, hf⟩ := h.backed c' f' v' hv
      exact ⟨k, .inr hmem, (hfiles k hmem _ _).2 hf⟩

theorem of_del (h : db.Synced) (key : DBSettingKey) (f : CStr)
    (hplaces : ∀ c', db'.hasValues c' = db.hasValues c')
    (hmodules : ∀ key ∈ db.m_dbSettings,
      ∃ szModule, db'.GetModuleName key.dwModuleId = some szModule)
    (hfiles : ∀ key ∈ db.m_dbSettings, ∀ c' f', db'.Files key c' f' ↔ db.Files key c' f')
    (hrecords : db'.m_dbSettings = db.m_dbSettings.del key)
    (hcached : ∀ c' f', db'.cached c' f' =
      if c' = key.hContact ∧ f' = f then none else db.cached c' f')
    (hmem : key ∈ db.m_dbSettings) (hname : db.Files key key.hContact f)
    : db'.Synced where
  modules key' hmem' := by
    rw [hrecords, Table.mem_del] at hmem'
    exact hmodules key' hmem'.2
  unique c' f' hplace k hk k' hk' hf hf' := by
    rw [hplaces] at hplace
    rw [hrecords, Table.mem_del] at hk hk'
    exact h.unique c' f' hplace k hk.2 k' hk'.2 ((hfiles k hk.2 _ _).1 hf)
      ((hfiles k' hk'.2 _ _).1 hf')
  filed c' f' hplace k data' hget hf := by
    rw [hplaces] at hplace
    rw [hrecords, Table.get?_del] at hget
    split at hget
    . cases hget
    . next hne =>
      have hk : k ∈ db.m_dbSettings := Table.mem_iff_exists.2 ⟨_, hget⟩
      rw [hfiles k hk] at hf
      rw [hcached, if_neg]
      . exact h.filed c' f' hplace k data' hget hf
      . rintro ⟨rfl, rfl⟩
        exact hne (h.unique _ _ hplace k hk key hmem hf hname)
  backed c' f' v' hv := by
    rw [hcached] at hv
    split at hv
    . cases hv
    . next hne =>
      obtain ⟨k, hk, hf⟩ := h.backed c' f' v' hv
      refine ⟨k, ?_, (hfiles k hk _ _).2 hf⟩
      rw [hrecords, Table.mem_del]
      refine ⟨?_, hk⟩
      rintro rfl
      obtain ⟨hcontact, name, hget, hf⟩ := hf
      obtain ⟨-, name', hget', hname⟩ := hname
      rw [hget] at hget'
      cases hget'
      exact hne ⟨hcontact.symm, hf.symm.trans hname⟩

end

theorem fillSettings (h : db.Synced) (env : SettingEnv)
    : Synced (db.discardCache.FillSettings env) := by
  have hcached := h.coherent env
  obtain ⟨values, hframe⟩ := foldl_frame db.discardCache env db.m_dbSettings.entries
  unfold FillSettings at hcached ⊢
  rw [show db.discardCache.m_dbSettings = db.m_dbSettings from rfl, hframe] at hcached ⊢
  constructor
  . exact h.modules
  . exact h.unique
  . intro c f hplace key data hget hf
    rw [hcached]
    exact h.filed c f hplace key data hget hf
  . intro c f v hv
    rw [hcached] at hv
    exact h.backed c f v hv

theorem save (h : db.Synced)
    (hresident : GetCachedSetting szModule szSetting ∉ db.m_lResidentSettings)
    (hsuccess : (storeValue.save env c szModule szSetting v db
      (GetCachedSetting szModule szSetting)).2 = true)
    (hkeep : db.hasValues c → db.KeepsRecords c szModule szSetting v)
    : Synced (storeValue.save env c szModule szSetting v db
        (GetCachedSetting szModule szSetting)).1 := by
  have hcached (c' : MCONTACT) (f' : CStr)
      : (storeValue.save env c szModule szSetting v db
          (GetCachedSetting szModule szSetting)).1.cached c' f' =
        (db.SetCachedVariant c (GetCachedSetting szModule szSetting) v).cached c' f' := cached_save
  simp only [cached_SetCachedVariant] at hcached
  have hresident' : GetCachedSetting szModule szSetting ∉
      (db.SetCachedVariant c (GetCachedSetting szModule szSetting) v).m_lResidentSettings := by
    unfold SetCachedVariant
    split <;> exact hresident
  unfold storeValue.save at hsuccess hcached ⊢
  dsimp only at hsuccess hcached ⊢
  rw [if_neg hresident'] at hsuccess ⊢
  simp only [if_neg hresident'] at hcached
  unfold WriteContactSettingWorker Store.GetModuleID at hsuccess hcached ⊢
  rw [toStore_SetCachedVariant] at hsuccess ⊢
  simp only [toStore_SetCachedVariant] at hcached
  cases hpack : v.pack with
  | none => simp [hpack] at hsuccess
  | some data =>
    cases hput : env.mdbx_put with
    | false => simp [hpack, hput] at hsuccess
    | true =>
      simp only [hpack, hput, if_true] at hcached ⊢
      have hs : db.insertModule (some szModule) = db.insertModule (some szModule) := rfl
      obtain ⟨values, hvalues⟩ : ∃ values,
          db.SetCachedVariant c (GetCachedSetting szModule szSetting) v =
            { db with values := values } := by
        unfold SetCachedVariant
        split <;> exact ⟨_, rfl⟩
      simp only [hvalues] at hcached ⊢
      apply h.of_put ⟨c, moduleID szModule, szSetting⟩ (GetCachedSetting szModule szSetting) v data
      . intro c'
        simp [hasValues, insertModule_m_cache]
      . intro key hmem
        obtain ⟨name, hname⟩ := h.modules key hmem
        exact ⟨name, Store.get?_insertModule_of_some _ _ hname⟩
      . intro key hmem c' f'
        obtain ⟨name, hname⟩ := h.modules key hmem
        exact files_of_registered hs hname _ _
      . rfl
      . exact hcached
      . exact registered hs
      . intro hplace f'
        have hmodule := registered_of_owns hs (hkeep hplace).2.1
        constructor
        . rintro ⟨-, name, hget, hname⟩
          have heq : name = szModule := Option.some.inj (hget.symm.trans hmodule)
          rw [← hname, heq]
        . rintro rfl
          exact ⟨rfl, szModule, hmodule, rfl⟩
      . exact fun hplace => (hkeep hplace).2.2
      . exact fun hplace => DBVARIANT.readsAs_pack (hkeep hplace).1 hpack

theorem write (h : db.Synced) {dbv : DBVARIANT}
    (hresident : GetCachedSetting szModule szSetting ∉ db.m_lResidentSettings)
    (hsuccess : (db.WriteContactSetting env c szModule szSetting dbv).2 = true)
    (hkeep : db.KeepsCoherence (.write env c szModule szSetting dbv))
    : Synced (db.WriteContactSetting env c szModule szSetting dbv).1 := by
  unfold KeepsCoherence at hkeep
  unfold WriteContactSetting at hsuccess ⊢
  dsimp only at hsuccess ⊢ hkeep
  split
  . exact h
  . next hc =>
    rw [if_neg hc] at hsuccess
    cases hvalue : (notifValue dbv).bind (db.workValue env szModule szSetting) with
    | none => exact h
    | some value =>
      rw [hvalue] at hsuccess
      dsimp only at hsuccess ⊢
      rcases storeValue_cases db env c szModule szSetting value with ⟨p, -, -, heq⟩ | ⟨-, heq⟩
      . rw [heq]
        exact h
      . rw [heq] at hsuccess ⊢
        replace hkeep := fun hplace => hkeep hplace value hvalue
        exact h.save hresident hsuccess hkeep

theorem delete (h : db.Synced)
    (hresident : GetCachedSetting szModule szSetting ∉ db.m_lResidentSettings)
    (hsuccess : (db.DeleteContactSetting c szModule szSetting).2 = true)
    (howns : db.OwnsNumber szModule)
    : Synced (db.DeleteContactSetting c szModule szSetting).1 := by
  have hcached (c' : MCONTACT) (f' : CStr)
      : (db.removeCached c (GetCachedSetting szModule szSetting)).cached c' f' =
          if c' = c ∧ f' = GetCachedSetting szModule szSetting then none else db.cached c' f' :=
    cached_removeCached
  obtain ⟨values, hvalues⟩ : ∃ values,
      db.removeCached c (GetCachedSetting szModule szSetting) = { db with values := values } := by
    unfold removeCached
    split <;> exact ⟨_, rfl⟩
  unfold DeleteContactSetting Store.GetModuleID at hsuccess ⊢
  dsimp only at hsuccess ⊢
  rw [hvalues] at hcached hsuccess ⊢
  cases hfound : db.cached c (GetCachedSetting szModule szSetting) with
  | none => simp [hfound] at hsuccess
  | some v =>
    simp only [hfound, if_neg hresident] at hsuccess ⊢
    by_cases hmem : (⟨c, moduleID szModule, szSetting⟩ : DBSettingKey) ∈ db.m_dbSettings
    . simp only [if_pos hmem]
      have hs : db.insertModule (some szModule) = db.insertModule (some szModule) := rfl
      apply h.of_del ⟨c, moduleID szModule, szSetting⟩ (GetCachedSetting szModule szSetting)
      . intro c'
        simp [hasValues, insertModule_m_cache]
      . intro key hmem
        obtain ⟨name, hname⟩ := h.modules key hmem
        exact ⟨name, Store.get?_insertModule_of_some _ _ hname⟩
      . intro key hmem c' f'
        obtain ⟨name, hname⟩ := h.modules key hmem
        exact files_of_registered hs hname _ _
      . rfl
      . intro c' f'
        rw [← hcached]
        apply cached_congr
        . exact insertModule_m_cache _ _
        . rfl
      . exact hmem
      . obtain ⟨name, hname⟩ := h.modules _ hmem
        obtain rfl := howns name hname
        exact ⟨rfl, name, hname, rfl⟩
    . simp [if_neg hmem] at hsuccess

theorem step (h : db.Synced) (call : SettingCall) (hok : db.Succeeds call ∧ db.KeepsCoherence call)
    : Synced (db.step call) := by
  obtain ⟨⟨hsuccess, hresident⟩, hkeep⟩ := hok
  unfold Database.step run
  cases call with
  | load env => exact h.fillSettings env
  | write env c szModule szSetting dbv =>
    rcases szModule with _ | szModule
    . cases dbv <;> cases szSetting <;> cases hsuccess
    . rcases szSetting with _ | szSetting
      . cases dbv <;> cases hsuccess
      . cases dbv with
        | none => cases hsuccess
        | some dbv => exact h.write hresident hsuccess hkeep
  | delete c szModule szSetting =>
    rcases szModule with _ | szModule
    . cases hsuccess
    . cases szSetting with
      | none => cases hsuccess
      | some szSetting => exact h.delete hresident hsuccess hkeep

end Synced

structure NoSettings (db : Database) : Prop where
  m_dbSettings : db.m_dbSettings = .empty
  values : ∀ c f, db.cached c f = none

theorem NoSettings.synced (h : db.NoSettings) : db.Synced := by
  have hnone : ∀ key, key ∉ db.m_dbSettings := by
    intro key hmem
    rw [h.m_dbSettings] at hmem
    simp [Table.mem_def] at hmem
  constructor
  . exact fun key hmem => absurd hmem (hnone key)
  . exact fun _ _ _ key hmem => absurd hmem (hnone key)
  . intro _ _ _ key data hget
    exact absurd (Table.mem_iff_exists.2 ⟨data, hget⟩) (hnone key)
  . intro c f v hv
    rw [h.values] at hv
    cases hv

open Transition in
theorem coherent_of_run {db' : Database} (hinit : db.NoSettings)
    (h : Run step (fun db call => db.Succeeds call ∧ db.KeepsCoherence call) db db')
    : db'.Coherent :=
  (h.inv (fun _ call hsync hok => hsync.step call hok) hinit.synced).coherent

open Transition in
theorem coherent_of_byte
    : ((create default false).step
        (.write {} 0 (some ⟨[77], by decide⟩) (some ⟨[115], by decide⟩) (some (.byte 1)))).Coherent :=
  coherent_of_run (show NoSettings (create default false) from
    ⟨rfl, by intro c f; unfold cached; split <;> rfl⟩) <| by
    refine Run.init.call _ ⟨by unfold Succeeds; decide, ?_⟩
    intro _ value hvalue
    cases hvalue
    refine ⟨trivial, ?_, ?_⟩
    . intro name hname
      cases hname
    . intro key hmem
      cases hmem

def longString : CStr where
  bytes := List.replicate (2 ^ 16) 65
  nul_notMem h := absurd (List.eq_of_mem_replicate h) (by decide)

theorem strlen_longString : longString.strlen = 2 ^ 16 := List.length_replicate

theorem packString_longString : DBVARIANT.pack.packString longString = [0, 0] := by
  unfold DBVARIANT.pack.packString
  rw [strlen_longString, Nat.mod_self]
  rfl

open Transition in
theorem not_coherent_of_longString
    : ¬∀ db db' : Database, db.NoSettings → Run step Succeeds db db' → db'.Coherent := by
  intro h
  have hcoherent := h (create default false)
    ((create default false).step (.write {} 0 (some ⟨[77], by decide⟩) (some ⟨[115], by decide⟩)
      (some (.asciiz (some longString)))))
    ⟨rfl, by intro c f; unfold cached; split <;> rfl⟩
    (Run.init.call _ ⟨rfl, by decide⟩) {} 0 ⟨[77, 47, 115], by decide⟩
  generalize hdb : (create default false).step (.write {} 0 (some ⟨[77], by decide⟩)
    (some ⟨[115], by decide⟩) (some (.asciiz (some longString)))) = db at hcoherent
  have hcached : db.cached 0 ⟨[77, 47, 115], by decide⟩ = some (.asciiz (some longString)) := by
    rw [← hdb]
    rfl
  have hrecords : db.m_dbSettings.entries =
      [(⟨0, moduleID (some ⟨[77], by decide⟩), ⟨[115], by decide⟩⟩, [255, 0, 0])] := by
    rw [← packString_longString, ← hdb]
    rfl
  have hfilled : (db.discardCache.FillSettings {}).cached 0 ⟨[77, 47, 115], by decide⟩ =
      some (.asciiz (some .empty)) := by
    unfold FillSettings
    rw [show db.discardCache.m_dbSettings = db.m_dbSettings from rfl, hrecords]
    apply cached_foldl_of_files
    . rfl
    . intro entry hmem _
      rw [List.mem_singleton.1 hmem]
      exact ⟨255, [0, 0], rfl, by decide, fun mem => rfl⟩
    . refine ⟨_, List.mem_singleton.2 rfl, rfl, ⟨[77], by decide⟩, ?_, rfl⟩
      rw [← hdb]
      decide
  rw [hfilled, hcached] at hcoherent
  have hempty : CStr.empty = longString := by
    simpa only [Option.some.injEq, DBVARIANT.asciiz.injEq] using hcoherent
  have hlen := strlen_longString
  rw [← hempty] at hlen
  cases hlen

end Database
end Dbx
