import MirandaNG.Dbx.Settings.Lemmas
import MirandaNG.Crypt.RoundTrip

/-!
This module proves what is read for a setting that has just been written.
-/

namespace Dbx
namespace Database

open Kv Crypt

variable {db : Database} {env env' : SettingEnv} {c : MCONTACT} {v value : DBVARIANT}
  {szModule szSetting : CStr} {crypt : CStdCrypt}

def ReadsBack (db : Database) (env env' : SettingEnv) (contactID : MCONTACT)
    (szModule szSetting : CStr) (v : DBVARIANT) : Prop :=
  (db.WriteContactSetting env contactID szModule szSetting v).2 = true →
    (db.WriteContactSetting env contactID szModule szSetting v).1.GetContactSetting env' contactID
      szModule szSetting = some v

/--
The types a setting is written with: no wide strings, no hidden bytes.
-/
def Storable : DBVARIANT → Bool
  | .byte _ | .word _ | .dword _ | .asciiz _ | .utf8 _ | .blob _ | .encrypted _ => true
  | _ => false

theorem not_readsBack_of_utf8
    : ¬∀ (db : Database) (env env' : SettingEnv) (contactID : MCONTACT)
        (szModule szSetting : CStr) (v : DBVARIANT),
        contactID = 0 ∨ contactID ∈ db.m_cache → Storable v →
          db.ReadsBack env env' contactID szModule szSetting v := by
  intro h
  have hread := h (create default false) {} {} 0 ⟨[77], by decide⟩ ⟨[115], by decide⟩
    (.utf8 (some ⟨[65], by decide⟩)) (by decide) (by decide)
  revert hread
  unfold ReadsBack
  decide

def Encrypts (db : Database) (crypt : CStdCrypt) (szModule szSetting pszVal : CStr) : Prop :=
  (db.m_bEncrypted ∨ IsSettingEncrypted szModule szSetting) ∧ ¬crypt.Refuses (some pszVal.toMem)

instance (pszVal : CStr) : Decidable (db.Encrypts crypt szModule szSetting pszVal) :=
  inferInstanceAs (Decidable (_ ∧ _))

/--
What is read for a value that has been written: strings that are encrypted or UTF-8 come back as
`utf8ToWide` makes them, an encrypted blob comes back decoded.
-/
def readBack (db : Database) (crypt : CStdCrypt) (env : SettingEnv)
    (szModule szSetting : CStr) : DBVARIANT → Option DBVARIANT
  | .asciiz (some pszVal) =>
    if db.Encrypts crypt szModule szSetting pszVal then
      some (utf8ToWide (.utf8 (some pszVal)))
    else
      some (.asciiz (some pszVal))
  | .utf8 (some pszVal) => some (utf8ToWide (.utf8 (some pszVal)))
  | .encrypted (some pbVal) =>
    ((crypt.decodeString env.heap (some pbVal.bytes)).2).map
      (fun decoded => utf8ToWide (.utf8 (some (.ofMem decoded))))
  | v => some v

theorem length_encodeString {scratch : Nat → UInt8} {pszVal : CStr} {result : List UInt8}
    (hlen : pszVal.strlen ≤ 65517)
    (h : (crypt.encodeString scratch (some pszVal)).2 = some result)
    : result.length < 2 ^ 16 := by
  unfold CStdCrypt.encodeString at h
  split at h
  . cases h
  . have hresult := (CStdCrypt.length_encodeBuffer h).2
    have hmod := CStdCrypt.padded_mod (pszVal.toMem.length + 2)
    have hlt := CStdCrypt.padded_lt (pszVal.toMem.length + 2)
    have hmem : pszVal.toMem.length = pszVal.strlen + 1 := by simp [CStr.toMem, CStr.strlen]
    unfold BLOCK_SIZE at hmod hlt
    omega

theorem findValue_of_cached (h : db.cached c (GetCachedSetting szModule szSetting) = some v)
    : db.findValue c szModule szSetting = some v := by
  unfold findValue seek
  rw [h]

theorem cached_storeValue (hplace : db.hasValues c)
    (hsame : ∀ p, db.cached c (GetCachedSetting szModule szSetting) = some p →
      bIsIdentical env p value = true → p = value)
    : (db.storeValue env c szModule szSetting value).1.cached c
        (GetCachedSetting szModule szSetting) = some value := by
  rcases storeValue_cases db env c szModule szSetting value
    with ⟨p, hcached, hidentical, heq⟩ | ⟨-, heq⟩
  . rw [heq, hcached, hsame p hcached hidentical]
  . rw [heq, cached_save, cached_SetCachedVariant]
    simp [hplace]

theorem WriteContactSetting_eq (hv : Storable v)
    (hwrite : (db.WriteContactSetting env c szModule szSetting v).2 = true)
    : c ≠ INVALID_CONTACT_ID ∧ ∃ value, db.workValue env szModule szSetting v = some value ∧
        db.WriteContactSetting env c szModule szSetting v =
          db.storeValue env c szModule szSetting value := by
  have hnotif : notifValue v = some v := by
    cases v <;> first | rfl | simp [Storable] at hv
  unfold WriteContactSetting at hwrite ⊢
  dsimp only at hwrite ⊢
  by_cases hc : c = INVALID_CONTACT_ID
  . simp [hc] at hwrite
  . rw [if_neg hc, hnotif] at hwrite ⊢
    simp only [Option.bind_some] at hwrite ⊢
    cases hvalue : db.workValue env szModule szSetting v with
    | none => simp [hvalue] at hwrite
    | some value => exact ⟨hc, value, rfl, rfl⟩

theorem GetContactSetting_of_plain (hc : c ≠ INVALID_CONTACT_ID)
    (hplain : ∀ pbVal, v ≠ .encrypted pbVal)
    (h : db.cached c (GetCachedSetting szModule szSetting) = some v)
    : db.GetContactSetting env c szModule szSetting = some (utf8ToWide v) := by
  unfold GetContactSetting GetContactSettingWorker
  dsimp only
  rw [if_neg hc, findValue_of_cached h]
  cases v with
  | encrypted pbVal => exact absurd rfl (hplain pbVal)
  | _ => rfl

theorem workValue_string {pszVal : CStr} (hcrypto : db.m_crypto = crypt.engine)
    (hv : v = .asciiz (some pszVal) ∨ v = .utf8 (some pszVal))
    (hvalue : db.workValue env szModule szSetting v = some value)
    : ¬db.Encrypts crypt szModule szSetting pszVal ∧ value = v ∨
      db.Encrypts crypt szModule szSetting pszVal ∧ ∃ result,
        (crypt.encodeString env.tmpBuf (some pszVal)).2 = some result ∧
          value = .encrypted (some (.cast result)) := by
  have hengine : db.m_crypto.encodeString env.tmpBuf (some pszVal) =
      (crypt.encodeString env.tmpBuf (some pszVal)).2 := by
    rw [hcrypto]
    rfl
  have hwork : (if db.m_bEncrypted ∨ IsSettingEncrypted szModule szSetting then
        some (((db.m_crypto.encodeString env.tmpBuf (some pszVal)).map fun p => .encrypted (some (.cast p))).getD v)
      else
        some v) = some value := by
    rw [← hvalue]
    rcases hv with rfl | rfl
    all_goals
      unfold workValue
      dsimp only
      cases db.m_crypto.encodeString env.tmpBuf (some pszVal) <;> rfl
  unfold Encrypts
  rw [← CStdCrypt.encodeString_eq_none_iff env.tmpBuf]
  rw [hengine] at hwork
  by_cases hmode : db.m_bEncrypted ∨ IsSettingEncrypted szModule szSetting
  . rw [if_pos hmode] at hwork
    cases hresult : (crypt.encodeString env.tmpBuf (some pszVal)).2 with
    | none =>
      rw [hresult] at hwork
      exact .inl ⟨by simp, (Option.some.inj hwork).symm⟩
    | some result =>
      rw [hresult] at hwork
      exact .inr ⟨⟨hmode, by simp⟩, result, rfl, (Option.some.inj hwork).symm⟩
  . rw [if_neg hmode] at hwork
    exact .inl ⟨fun h => hmode h.1, (Option.some.inj hwork).symm⟩

theorem GetContactSetting_of_encrypted {pbVal : Blob} (hcrypto : db.m_crypto = crypt.engine)
    (hc : c ≠ INVALID_CONTACT_ID)
    (h : db.cached c (GetCachedSetting szModule szSetting) = some (.encrypted (some pbVal)))
    : db.GetContactSetting env c szModule szSetting =
        (crypt.decodeString env.heap (some pbVal.bytes)).2.map
          (fun decoded => utf8ToWide (.utf8 (some (.ofMem decoded)))) := by
  have hdecode : db.m_crypto.decodeString env.heap (some pbVal.bytes) =
      (crypt.decodeString env.heap (some pbVal.bytes)).2 := by
    rw [hcrypto]
    rfl
  unfold GetContactSetting GetContactSettingWorker
  dsimp only
  rw [if_neg hc, findValue_of_cached h]
  dsimp only [Option.map_some]
  rw [hdecode]
  cases (crypt.decodeString env.heap (some pbVal.bytes)).2 <;> rfl

theorem GetContactSetting_of_encoded {scratch : Nat → UInt8} {pszVal : CStr} {result : List UInt8}
    (hcrypto : db.m_crypto = crypt.engine) (hinv : crypt.m_aes.Inverts)
    (hc : c ≠ INVALID_CONTACT_ID) (hlen : pszVal.strlen ≤ 65517)
    (hresult : (crypt.encodeString scratch (some pszVal)).2 = some result)
    (h : db.cached c (GetCachedSetting szModule szSetting) =
      some (.encrypted (some (.cast result))))
    : db.GetContactSetting env c szModule szSetting =
        some (utf8ToWide (.utf8 (some pszVal))) := by
  rw [GetContactSetting_of_encrypted hcrypto hc h,
    Blob.cast_bytes (length_encodeString hlen hresult),
    CStdCrypt.decodeString_encodeString hinv hresult]
  have : CStr.ofMem pszVal.toMem = pszVal := by simpa using CStr.ofMem_toMem_append pszVal []
  rw [Option.map_some, this]

theorem get_write (hcrypto : db.m_crypto = crypt.engine) (hinv : crypt.m_aes.Inverts)
    (hcontact : c = 0 ∨ c ∈ db.m_cache) (hv : Storable v)
    (hlen : ∀ pszVal, v = .asciiz (some pszVal) ∨ v = .utf8 (some pszVal) →
      db.Encrypts crypt szModule szSetting pszVal → pszVal.strlen ≤ 65517)
    (hsame : ∀ value p, db.workValue env szModule szSetting v = some value →
      db.cached c (GetCachedSetting szModule szSetting) = some p →
        bIsIdentical env p value = true → p = value)
    (hwrite : (db.WriteContactSetting env c szModule szSetting v).2 = true)
    : (db.WriteContactSetting env c szModule szSetting v).1.GetContactSetting env' c szModule
        szSetting = db.readBack crypt env' szModule szSetting v := by
  obtain ⟨hc, value, hvalue, heq⟩ := WriteContactSetting_eq hv hwrite
  have hplace : db.hasValues c := by simpa [hasValues] using hcontact
  have hcached := cached_storeValue hplace (hsame value · hvalue)
  have htouch := Touches.WriteContactSetting db env c szModule szSetting (some v)
  have hcrypto' := htouch.m_crypto.trans hcrypto
  rw [heq] at hcrypto' ⊢
  generalize (db.storeValue env c szModule szSetting value).1 = db' at hcached hcrypto'
  have hread (h : value = v) (hplain : ∀ pbVal, v ≠ .encrypted pbVal)
      : db'.GetContactSetting env' c szModule szSetting = some (utf8ToWide v) := by
    subst h
    exact GetContactSetting_of_plain hc hplain hcached
  cases v with
  | byte | word | dword => exact hread (by simpa [workValue] using hvalue.symm) (by simp)
  | blob pbVal =>
    cases pbVal with
    | none => cases hvalue
    | some pbVal => exact hread (Option.some.inj hvalue).symm (by simp)
  | encrypted pbVal =>
    cases pbVal with
    | none => cases hvalue
    | some pbVal =>
      rw [← Option.some.inj hvalue] at hcached
      exact GetContactSetting_of_encrypted hcrypto' hc hcached
  | asciiz pszVal =>
    cases pszVal with
    | none => cases hvalue
    | some pszVal =>
      unfold readBack
      dsimp only
      rcases workValue_string hcrypto (.inl rfl) hvalue with ⟨hno, h⟩ | ⟨hyes, result, hresult, h⟩
      . rw [if_neg hno]
        exact hread h (by simp)
      . rw [if_pos hyes]
        rw [h] at hcached
        exact GetContactSetting_of_encoded hcrypto' hinv hc (hlen _ (.inl rfl) hyes) hresult hcached
  | utf8 pszVal =>
    cases pszVal with
    | none => cases hvalue
    | some pszVal =>
      rcases workValue_string hcrypto (.inr rfl) hvalue with ⟨hno, h⟩ | ⟨hyes, result, hresult, h⟩
      . exact hread h (by simp)
      . rw [h] at hcached
        exact GetContactSetting_of_encoded hcrypto' hinv hc (hlen _ (.inr rfl) hyes) hresult hcached
  | deleted | byteHidden | wchar | other => simp [Storable] at hv

theorem get_write_asciiz
    : ((create (Inhabited.default : CStdCrypt).engine true).WriteContactSetting {} 0
        (some ⟨[77], by decide⟩) (some ⟨[115], by decide⟩)
        (some (.asciiz (some ⟨[65], by decide⟩)))).1.GetContactSetting {} 0
        (some ⟨[77], by decide⟩) (some ⟨[115], by decide⟩) =
      (create (Inhabited.default : CStdCrypt).engine true).readBack (Inhabited.default : CStdCrypt)
        {} ⟨[77], by decide⟩ ⟨[115], by decide⟩ (.asciiz (some ⟨[65], by decide⟩)) :=
  get_write rfl (fun _ => rfl) (.inl rfl) rfl
    (by
      intro pszVal _ hencrypts
      exact absurd (.inl rfl) hencrypts.2)
    (by
      intro value p _ hcached
      cases hcached)
    (by decide)

end Database
end Dbx
