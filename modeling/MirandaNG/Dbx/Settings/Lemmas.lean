import MirandaNG.Dbx.Settings.Basic

/-!
This module contains what the operations of the settings store do to the cached values: one lemma
for each primitive, and `Touches`, the shape that writing and deleting share.
-/

namespace Dbx
namespace Database

open Kv Crypt

variable {db db' : Database} {env : SettingEnv} {c c' : MCONTACT} {f f' : CStr} {v : DBVARIANT}
  {szModule szSetting : CStr}

theorem cached_of_not_hasValues (h : db.hasValues c = false) : db.cached c f = none := by
  simp [cached, h]

theorem cached_congr (hcache : db'.m_cache = db.m_cache) (hvalues : db'.values = db.values)
    : db'.cached c f = db.cached c f := by
  simp [cached, hasValues, hcache, hvalues]

theorem cached_SetCachedVariant
    : (db.SetCachedVariant c f v).cached c' f' =
        if db.hasValues c ∧ c' = c ∧ f' = f then some v else db.cached c' f' := by
  unfold SetCachedVariant
  split
  . next hplace =>
    have hplaces : ∀ x t, (db.setValues c t).hasValues x = db.hasValues x := fun _ _ => rfl
    unfold cached
    rw [hplaces]
    by_cases hc : c' = c
    . subst hc
      simp only [hplace, if_true, setValues, Function.update_self, Table.get?_put]
      simp
    . simp [hc, setValues]
  . next hplace => simp [hplace]

theorem cached_removeCached
    : (db.removeCached c f).cached c' f' =
        if c' = c ∧ f' = f then none else db.cached c' f' := by
  unfold removeCached
  split
  . next hplace =>
    have hplaces : ∀ x t, (db.setValues c t).hasValues x = db.hasValues x := fun _ _ => rfl
    unfold cached
    rw [hplaces]
    by_cases hc : c' = c
    . subst hc
      simp only [hplace, if_true, setValues, Function.update_self, Table.get?_del]
      simp
    . simp [hc, setValues]
  . next hplace =>
    split
    . next h =>
      rw [h.1]
      exact cached_of_not_hasValues (by simpa using hplace)
    . rfl

@[simp]
theorem toStore_SetCachedVariant : (db.SetCachedVariant c f v).toStore = db.toStore := by
  unfold SetCachedVariant
  split <;> rfl

@[simp]
theorem toStore_removeCached : (db.removeCached c f).toStore = db.toStore := by
  unfold removeCached
  split <;> rfl

theorem WriteContactSettingWorker_frame (db : Database) (env : SettingEnv) (c : MCONTACT)
    (szModule szSetting : CStr) (v : DBVARIANT)
    : ∃ t, (db.WriteContactSettingWorker env c szModule szSetting v).1 =
        { db with toStore := db.insertModule (some szModule), m_dbSettings := t } := by
  unfold WriteContactSettingWorker Store.GetModuleID
  dsimp only
  split
  . exact ⟨_, rfl⟩
  . split
    . exact ⟨_, rfl⟩
    . exact ⟨_, rfl⟩

theorem cached_withRecords (s : Store) (t : Table DBSettingKey (List UInt8))
    (h : s.m_cache = db.m_cache)
    : ({ db with toStore := s, m_dbSettings := t } : Database).cached c f = db.cached c f := by
  apply cached_congr
  . exact h
  . rfl

theorem insertModule_m_cache (s : Store) (szName : Option CStr)
    : (s.insertModule szName).m_cache = s.m_cache := by
  rcases s.insertModule_frame szName with ⟨dbModules, modules, hframe⟩
  rw [hframe]

theorem cached_save
    : (storeValue.save env c szModule szSetting v db f).1.cached c' f' =
        (db.SetCachedVariant c f v).cached c' f' := by
  unfold storeValue.save
  dsimp only
  split
  . rfl
  . rcases WriteContactSettingWorker_frame (db.SetCachedVariant c f v) env c szModule szSetting v
      with ⟨t, hframe⟩
    rw [hframe]
    apply cached_withRecords
    apply insertModule_m_cache

theorem storeValue_cases (db : Database) (env : SettingEnv) (c : MCONTACT)
    (szModule szSetting : CStr) (v : DBVARIANT)
    : (∃ p, db.cached c (GetCachedSetting szModule szSetting) = some p ∧
          bIsIdentical env p v = true ∧ db.storeValue env c szModule szSetting v = (db, true)) ∨
      (∀ p, db.cached c (GetCachedSetting szModule szSetting) = some p →
          bIsIdentical env p v = false) ∧
        db.storeValue env c szModule szSetting v =
          storeValue.save env c szModule szSetting v db (GetCachedSetting szModule szSetting) := by
  unfold storeValue
  dsimp only
  cases hcached : db.cached c (GetCachedSetting szModule szSetting) with
  | none => exact .inr ⟨by simp, rfl⟩
  | some p =>
    cases hidentical : bIsIdentical env p v with
    | true => exact .inl ⟨p, rfl, hidentical, by simp [hidentical]⟩
    | false =>
      refine .inr ⟨?_, by simp [hidentical]⟩
      rintro p' ⟨⟩
      exact hidentical

/--
`db'` differs from `db` in the value of one name, in the records and in the module names only.
-/
structure Touches (c : MCONTACT) (f : CStr) (db db' : Database) : Prop where
  cached : ∀ c' f', ¬(c' = c ∧ f' = f) → db'.cached c' f' = db.cached c' f'
  m_cache : db'.m_cache = db.m_cache
  m_crypto : db'.m_crypto = db.m_crypto
  m_bEncrypted : db'.m_bEncrypted = db.m_bEncrypted
  m_lResidentSettings : db'.m_lResidentSettings = db.m_lResidentSettings
  g_bMetaEnabled : db'.g_bMetaEnabled = db.g_bMetaEnabled
  baseAccountName : db'.baseAccountName = db.baseAccountName

namespace Touches

variable {db'' : Database}

theorem refl : Touches c f db db := ⟨fun _ _ _ => rfl, rfl, rfl, rfl, rfl, rfl, rfl⟩

theorem trans (h : Touches c f db db') (h' : Touches c f db' db'') : Touches c f db db'' where
  cached c' f' hne := (h'.cached c' f' hne).trans (h.cached c' f' hne)
  m_cache := h'.m_cache.trans h.m_cache
  m_crypto := h'.m_crypto.trans h.m_crypto
  m_bEncrypted := h'.m_bEncrypted.trans h.m_bEncrypted
  m_lResidentSettings := h'.m_lResidentSettings.trans h.m_lResidentSettings
  g_bMetaEnabled := h'.g_bMetaEnabled.trans h.g_bMetaEnabled
  baseAccountName := h'.baseAccountName.trans h.baseAccountName

theorem hasValues (h : Touches c f db db') : db'.hasValues c' = db.hasValues c' := by
  simp [Database.hasValues, h.m_cache]

theorem withRecords (t : Table DBSettingKey (List UInt8))
    : Touches c f db
        { db with toStore := db.insertModule (some szModule), m_dbSettings := t } := by
  rcases db.insertModule_frame (some szModule) with ⟨dbModules, modules, hframe⟩
  rw [hframe]
  exact ⟨fun _ _ _ => rfl, rfl, rfl, rfl, rfl, rfl, rfl⟩

theorem SetCachedVariant : Touches c f db (db.SetCachedVariant c f v) := by
  refine ⟨?_, ?_, ?_, ?_, ?_, ?_, ?_⟩
  . intro c' f' hne
    rw [cached_SetCachedVariant, if_neg (by tauto)]
  all_goals
    unfold Database.SetCachedVariant
    split <;> rfl

theorem removeCached : Touches c f db (db.removeCached c f) := by
  refine ⟨?_, ?_, ?_, ?_, ?_, ?_, ?_⟩
  . intro c' f' hne
    rw [cached_removeCached, if_neg hne]
  all_goals
    unfold Database.removeCached
    split <;> rfl

theorem storeValue
    : Touches c (GetCachedSetting szModule szSetting) db
        (db.storeValue env c szModule szSetting v).1 := by
  rcases storeValue_cases db env c szModule szSetting v
    with ⟨p, hcached, hidentical, heq⟩ | ⟨hnew, heq⟩
  . rw [heq]
    exact refl
  . rw [heq]
    have hset : Touches c (GetCachedSetting szModule szSetting) db
        (db.SetCachedVariant c (GetCachedSetting szModule szSetting) v) := SetCachedVariant
    refine hset.trans ?_
    unfold storeValue.save
    dsimp only
    split
    . exact refl
    . rcases WriteContactSettingWorker_frame
        (db.SetCachedVariant c (GetCachedSetting szModule szSetting) v) env c szModule szSetting v
        with ⟨t, hframe⟩
      rw [hframe]
      exact withRecords t

theorem WriteContactSetting (db : Database) (env : SettingEnv) (c : MCONTACT)
    (szModule szSetting : CStr) (dbv : Option DBVARIANT)
    : Touches c (GetCachedSetting szModule szSetting) db
        (db.WriteContactSetting env c (some szModule) (some szSetting) dbv).1 := by
  unfold Database.WriteContactSetting
  cases dbv with
  | none => exact refl
  | some dbv =>
    dsimp only
    split
    . exact refl
    . split
      . exact refl
      . exact storeValue

theorem DeleteContactSetting
    : Touches c (GetCachedSetting szModule szSetting) db
        (db.DeleteContactSetting c (some szModule) (some szSetting)).1 := by
  unfold Database.DeleteContactSetting Store.GetModuleID
  dsimp only
  split
  . exact refl
  . refine removeCached.trans ?_
    split
    . exact refl
    . split
      . exact withRecords _
      . exact withRecords _

end Touches
end Database
end Dbx
