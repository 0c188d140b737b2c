import MirandaNG.Crypt.MasterPassword

/-!
This module proves which passwords open a profile.
-/

namespace Crypt

variable {env : Cipher} {crypt : KeyedCrypt} {key : Key} {password : CStr} {mem : List UInt8}

structure Ideal (env : Cipher) (P : Set CStr) : Prop where
  injective : Set.InjOn env.slow_hash P
  noMatch : ∀ p ∈ P, ∀ q ∈ P, env.slow_hash p ≠ env.slow_hash q → ∀ key slack mem,
    ((env.passwordAes p).Encrypt (ExternalKey.toMem ⟨key, checksum p, slack⟩)).2 = some mem →
    ∀ plain ∈ ((env.passwordAes q).Decrypt mem).2, (ExternalKey.ofMem plain).m_crc32 ≠ checksum q

def HasPassword (last : Option WStr) : Prop := last.elim 0 WStr.wcslen ≠ 0

instance (last : Option WStr) : Decidable (HasPassword last) := inferInstanceAs (Decidable (_ ≠ _))

def utf8 (last : Option WStr) : Option CStr := last.bind fun ws => Utf.mir_utf8encodeW ws.chars

def IsPassword (last : Option WStr) (q : Option CStr) : Prop :=
  if HasPassword last then q ≠ none ∧ q = utf8 last else q.elim 0 CStr.strlen = 0

structure Decodes (crypt crypt' : KeyedCrypt) : Prop where
  buffer : ∀ scratch heap src result, (crypt.encodeBuffer scratch (some src)).2 = some result →
    (crypt'.decodeBuffer heap (some result)).2 = some src
  string : ∀ scratch heap src result, (crypt.encodeString scratch (some src)).2 = some result →
    (crypt'.decodeString heap (some result)).2 = some src.toMem

namespace MDatabaseCommon

def create (env : Cipher) (key : Key) (slack : Slack) (pKey : List UInt8) : MDatabaseCommon :=
  (InitCrypt env ⟨none, false, none⟩ (some (some .fresh)) (some key) slack pKey []).2

def changePassword (env : Cipher) (db : MDatabaseCommon) (change : Option WStr × Slack × List UInt8)
    : MDatabaseCommon :=
  (db.SetPassword env change.1 change.2.1).StoreCryptoKey change.2.2

def openAgain (env : Cipher) (stored : List UInt8) (random : Option Key) (slack : Slack)
    (pKey : List UInt8) (entries : List WStr)
    : InitResult :=
  (InitCrypt env ⟨none, false, some stored⟩ (some (some .fresh)) random slack pKey entries).1

structure PasswordLaw (env : Cipher) (P : Set CStr) (last : Option WStr) (q : Option CStr)
    (stored : List UInt8) (crypt : KeyedCrypt)
    : Prop where
  accepted : (KeyedCrypt.fresh.setKey env q stored).1 = true ↔ IsPassword last q
  decodes : (KeyedCrypt.fresh.setKey env q stored).1 = true →
    Decodes crypt (KeyedCrypt.fresh.setKey env q stored).2
  locked : HasPassword last → ∀ random slack pKey entries,
    (∀ ws ∈ entries, effective (utf8 (some ws)) ∈ P) →
      openAgain env stored random slack pKey entries = .returned 0 →
        ∃ ws ∈ entries, IsPassword last (utf8 (some ws))

def KeepsLaw (env : Cipher) (P : Set CStr) (db : MDatabaseCommon) (last : Option WStr)
    (q : Option CStr)
    : Prop :=
  ∃ stored crypt, db.storedKey = some stored ∧ db.m_crypto = some crypt ∧
    PasswordLaw env P last q stored crypt

def Safe (last : Option WStr) (q : Option CStr) : Prop :=
  if HasPassword last then utf8 last ≠ none ∧ utf8 last ≠ some reserved else q ≠ some reserved

end MDatabaseCommon

theorem effective_of_strlen (h : password.strlen ≠ 0) : effective (some password) = password :=
  if_neg h

theorem strlen_reserved : reserved.strlen ≠ 0 := by decide

theorem effective_eq_iff (h : password.strlen ≠ 0) (hreserved : password ≠ reserved)
    (q : Option CStr)
    : effective q = password ↔ q = some password := by
  cases q with
  | none => exact iff_of_false (fun heq => hreserved heq.symm) nofun
  | some q =>
    unfold effective
    simp only [Option.some.injEq]
    split
    . next hempty =>
      refine iff_of_false (fun heq => hreserved heq.symm) ?_
      rintro rfl
      exact h hempty
    . rfl

theorem effective_eq_reserved_iff (q : Option CStr)
    : effective q = reserved ↔ q.elim 0 CStr.strlen = 0 ∨ q = some reserved := by
  cases q with
  | none => exact iff_of_true rfl (.inl rfl)
  | some q =>
    unfold effective
    simp only [Option.some.injEq, Option.elim_some]
    split
    . next hempty => exact iff_of_true rfl (.inl hempty)
    . next hne => exact (or_iff_right hne).symm

theorem ofNat_or_ne_zero {n : Nat} (m : Nat) (h : n.testBit 7 = true)
    : UInt8.ofNat (n ||| m) ≠ 0 := by
  intro hzero
  have hmod := congrArg UInt8.toNat hzero
  rw [UInt8.toNat_ofNat'] at hmod
  have hbit : ((n ||| m) % 2 ^ 8).testBit 7 = false := by
    rw [hmod]
    rfl
  rw [Nat.testBit_mod_two_pow, Nat.testBit_or, h] at hbit
  cases hbit

theorem ofMem_cons_strlen {b : UInt8} {bs : List UInt8} (h : b ≠ 0)
    : (CStr.ofMem (b :: bs)).strlen ≠ 0 := by
  unfold CStr.ofMem CStr.strlen
  simp [h]

theorem map_eq_ok {α β ε : Type} {f : α → β} {x : Except ε α} {y : β} (h : x.map f = .ok y)
    : ∃ a, y = f a := by
  cases x with
  | error e => cases h
  | ok a =>
    injection h with h
    exact ⟨a, h.symm⟩

theorem Ucs2toUtf8_cons {ch : UInt16} {src : List UInt16} {n : Nat} {result : List UInt8}
    (hch : ch ≠ 0) (h : Utf.Ucs2toUtf8 (ch :: src) n = .ok result)
    : ∃ b bs, result = b :: bs ∧ b ≠ 0 := by
  unfold Utf.Ucs2toUtf8 at h
  split at h
  . next hlt =>
    split at h
    . cases h
    . obtain ⟨bs, rfl⟩ := map_eq_ok h
      refine ⟨_, bs, rfl, ?_⟩
      intro hzero
      apply hch
      have hnat := congrArg UInt8.toNat hzero
      have hlt := UInt16.lt_iff_toNat_lt.1 hlt
      have h80 : (0x80 : UInt16).toNat = 128 := rfl
      rw [UInt16.toNat_toUInt8, UInt8.toNat_zero] at hnat
      rw [← UInt16.toNat_inj, UInt16.toNat_zero]
      omega
  . split at h
    . split at h
      . cases h
      . obtain ⟨bs, rfl⟩ := map_eq_ok h
        exact ⟨_, _, rfl, ofNat_or_ne_zero _ (by decide)⟩
    . simp only [] at h
      split at h
      . cases h
      . split at h
        . split at h
          . cases h
          . obtain ⟨bs, rfl⟩ := map_eq_ok h
            exact ⟨_, _, rfl, ofNat_or_ne_zero _ (by decide)⟩
        . split at h
          . cases h
          . split at h
            . cases h
            . obtain ⟨bs, rfl⟩ := map_eq_ok h
              exact ⟨_, _, rfl, ofNat_or_ne_zero _ (by decide)⟩

theorem strlen_utf8 {last : Option WStr} (hlast : HasPassword last)
    (h : utf8 last = some password)
    : password.strlen ≠ 0 := by
  obtain ⟨ws, rfl, hutf⟩ := Option.bind_eq_some_iff.1 h
  obtain ⟨chars, hnul⟩ := ws
  cases chars with
  | nil => exact absurd rfl hlast
  | cons ch src =>
    have hch : ch ≠ 0 := by
      rintro rfl
      exact hnul (List.mem_cons_self ..)
    unfold Utf.mir_utf8encodeW at hutf
    rw [List.takeWhile_cons_of_pos (by simpa using hch)] at hutf
    simp only [] at hutf
    split at hutf
    . cases hutf
    . split at hutf
      . next result hresult =>
        obtain ⟨b, bs, rfl, hb⟩ := Ucs2toUtf8_cons hch hresult
        injection hutf with hutf
        rw [← hutf]
        exact ofMem_cons_strlen hb
      . cases hutf

def Stored (env : Cipher) (key : Key) (password : CStr) (mem : List UInt8) : Prop :=
  ∃ slack, ((env.passwordAes password).Encrypt
    (ExternalKey.toMem ⟨key, checksum password, slack⟩)).2 = some mem

theorem Encrypt_toMem (env : Cipher) (password : CStr) (tmp : ExternalKey)
    : ∃ mem, ((env.passwordAes password).Encrypt tmp.toMem).2 = some mem := by
  have hlen := tmp.length_toMem
  unfold CRijndael.Encrypt
  rw [if_neg (by simp [Cipher.passwordAes, Cipher.MakeKey]), if_neg (by rw [hlen]; decide)]
  exact ⟨_, rfl⟩

theorem Stored.length (h : Stored env key password mem) : mem.length = ExternalKey.sizeof := by
  obtain ⟨slack, h⟩ := h
  rw [CRijndael.length_Encrypt h, ExternalKey.length_toMem]

namespace KeyedCrypt

structure HasKey (env : Cipher) (crypt : KeyedCrypt) (key : Key) (password : CStr) : Prop where
  valid : crypt.m_valid = true
  isKey : crypt.m_key = key
  aes : crypt.m_aes = env.MakeKey key (literal "Miranda")
  stored : Stored env key password crypt.m_extKey

theorem key2ext_eq (env : Cipher) (crypt : KeyedCrypt) (pszPassword : Option CStr) (slack : Slack)
    : ∃ mem, crypt.key2ext env pszPassword slack = { crypt with m_extKey := mem } ∧
        Stored env crypt.m_key (effective pszPassword) mem := by
  obtain ⟨mem, hmem⟩ := Encrypt_toMem env (effective pszPassword)
    ⟨crypt.m_key, checksum (effective pszPassword), slack⟩
  refine ⟨mem, ?_, slack, hmem⟩
  unfold key2ext
  simp only [hmem]

theorem HasKey.setPassword (h : HasKey env crypt key password) (pszPassword : Option CStr)
    (slack : Slack)
    : HasKey env (crypt.setPassword env pszPassword slack) key (effective pszPassword) := by
  obtain ⟨mem, heq, hstored⟩ := key2ext_eq env crypt pszPassword slack
  unfold KeyedCrypt.setPassword
  rw [heq]
  exact ⟨h.valid, h.isKey, h.aes, h.isKey ▸ hstored⟩

theorem hasKey_generateKey (env : Cipher) (crypt : KeyedCrypt) (key : Key) (slack : Slack)
    : (crypt.generateKey env (some key) slack).1 = true ∧
        HasKey env (crypt.generateKey env (some key) slack).2 key reserved := by
  obtain ⟨mem, heq, hstored⟩ := key2ext_eq env
    { crypt with m_key := key, m_aes := env.MakeKey key (literal "Miranda") } none slack
  unfold generateKey
  simp only [heq]
  exact ⟨trivial, rfl, rfl, rfl, hstored⟩

theorem checkKey_same (h : Stored env key password mem) {q : Option CStr}
    (hq : effective q = password) (tmp : ExternalKey)
    : (checkKey env q mem tmp).1 = true ∧ (checkKey env q mem tmp).2.m_key = key := by
  obtain ⟨slack, h⟩ := h
  have hinv : (env.passwordAes password).Inverts := env.inverts (env.slow_hash password)
  unfold checkKey
  rw [hq]
  simp only [CRijndael.Decrypt_Encrypt hinv h, ExternalKey.ofMem_toMem]
  exact ⟨decide_eq_true trivial, trivial⟩

theorem checkKey_other {P : Set CStr} (hideal : Ideal env P) (h : Stored env key password mem)
    {q : Option CStr} (hpassword : password ∈ P) (hq : effective q ∈ P)
    (hne : effective q ≠ password) (tmp : ExternalKey)
    : (checkKey env q mem tmp).1 = false := by
  have hhash : env.slow_hash password ≠ env.slow_hash (effective q) := by
    intro heq
    exact hne (hideal.injective hq hpassword heq.symm)
  have hlength := h.length
  obtain ⟨slack, h⟩ := h
  have hmatch := hideal.noMatch password hpassword (effective q) hq hhash key slack mem h
  unfold checkKey
  simp only []
  split
  . next plain hplain => exact decide_eq_false (hmatch plain hplain)
  . next hnone =>
    unfold CRijndael.Decrypt at hnone
    rw [if_neg (by simp [Cipher.passwordAes, Cipher.MakeKey]), if_neg (by rw [hlength]; decide)] at hnone
    cases hnone

theorem setKey_same (h : Stored env key password mem) {q : Option CStr}
    (hq : effective q = password) (crypt : KeyedCrypt)
    : (crypt.setKey env q mem).1 = true ∧ HasKey env (crypt.setKey env q mem).2 key password := by
  obtain ⟨hcheck, hkey⟩ := checkKey_same h hq .zero
  unfold setKey
  rw [if_neg (not_not_intro h.length)]
  split
  . next tmp heq =>
    rw [heq] at hcheck
    cases hcheck
  . next tmp heq =>
    rw [heq] at hkey
    exact ⟨rfl, rfl, hkey, congrArg (env.MakeKey · (literal "Miranda")) hkey, h⟩

theorem setKey_other {P : Set CStr} (hideal : Ideal env P) (h : Stored env key password mem)
    {q : Option CStr} (hpassword : password ∈ P) (hq : effective q ∈ P)
    (hne : effective q ≠ password) (crypt : KeyedCrypt)
    : crypt.setKey env q mem = (false, crypt) := by
  have hcheck := checkKey_other hideal h hpassword hq hne .zero
  unfold setKey
  rw [if_neg (not_not_intro h.length)]
  split
  . rfl
  . next tmp heq =>
    rw [heq] at hcheck
    cases hcheck

theorem setKey_iff {P : Set CStr} (hideal : Ideal env P) (h : Stored env key password mem)
    {q : Option CStr} (hpassword : password ∈ P) (hq : effective q ∈ P) (crypt : KeyedCrypt)
    : (crypt.setKey env q mem).1 = true ↔ effective q = password := by
  constructor
  . intro haccepted
    by_contra hne
    rw [setKey_other hideal h hpassword hq hne crypt] at haccepted
    cases haccepted
  . intro heq
    exact (setKey_same h heq crypt).1

theorem HasKey.decodes {crypt' : KeyedCrypt} {password' : CStr} (h : HasKey env crypt key password)
    (h' : HasKey env crypt' key password')
    : Decodes crypt crypt' := by
  have hengine : crypt'.toCStdCrypt.engine = crypt.toCStdCrypt.engine := by
    apply CStdCrypt.engine_congr
    . rw [h.valid, h'.valid]
    . rw [h.aes, h'.aes]
  have hinv : crypt.m_aes.Inverts := by
    rw [h.aes]
    exact env.inverts key
  constructor
  . intro scratch heap src result hencode
    rw [← CStdCrypt.decodeBuffer_encodeBuffer hinv heap hencode]
    exact congrFun (congrFun (congrArg MICryptoEngine.decodeBuffer hengine) heap) (some result)
  . intro scratch heap src result hencode
    rw [← CStdCrypt.decodeString_encodeString hinv hencode]
    exact congrFun (congrFun (congrArg MICryptoEngine.decodeString hengine) heap) (some result)

end KeyedCrypt
namespace MDatabaseCommon

variable {db : MDatabaseCommon}

structure IsProfile (env : Cipher) (db : MDatabaseCommon) (crypt : KeyedCrypt) (key : Key)
    (password : CStr)
    : Prop where
  crypto : db.m_crypto = some crypt
  hasKey : KeyedCrypt.HasKey env crypt key password
  storedKey : db.storedKey = some crypt.m_extKey

theorem getKey_eq (h : KeyedCrypt.HasKey env crypt key password)
    : crypt.getKey KeyedCrypt.getKeyLength = some crypt.m_extKey := by
  unfold KeyedCrypt.getKey
  rw [h.valid, if_neg (by decide)]

theorem isProfile_StoreCryptoKey (hcrypto : db.m_crypto = some crypt)
    (h : KeyedCrypt.HasKey env crypt key password) (pKey : List UInt8)
    : IsProfile env (db.StoreCryptoKey pKey) crypt key password := by
  refine ⟨hcrypto, h, ?_⟩
  unfold StoreCryptoKey
  rw [hcrypto, Option.map_some, getKey_eq h, Option.getD_some]

theorem isProfile_create (env : Cipher) (key : Key) (slack : Slack) (pKey : List UInt8)
    : ∃ crypt, IsProfile env (create env key slack pKey) crypt key reserved := by
  obtain ⟨hok, hkey⟩ := KeyedCrypt.hasKey_generateKey env .fresh key slack
  refine ⟨(KeyedCrypt.fresh.generateKey env (some key) slack).2, ?_⟩
  exact isProfile_StoreCryptoKey rfl hkey pKey

theorem SetPassword_crypto (hcrypto : db.m_crypto = some crypt) (last : Option WStr) (slack : Slack)
    : ∃ q, (db.SetPassword env last slack).m_crypto = some (crypt.setPassword env q slack) ∧
        q = if HasPassword last then utf8 last else none := by
  unfold SetPassword
  split
  . next hempty =>
    refine ⟨none, ?_, (if_neg (not_not_intro hempty)).symm⟩
    rw [hcrypto]
    rfl
  . next hne =>
    refine ⟨utf8 last, ?_, (if_pos hne).symm⟩
    rw [hcrypto]
    rfl

def stands (last : Option WStr) : CStr := effective (if HasPassword last then utf8 last else none)

theorem isProfile_changePassword (h : IsProfile env db crypt key password)
    (change : Option WStr × Slack × List UInt8)
    : ∃ crypt', IsProfile env (changePassword env db change) crypt' key (stands change.1) := by
  obtain ⟨q, hcrypto, rfl⟩ := @SetPassword_crypto env crypt db h.crypto change.1 change.2.1
  exact ⟨_, isProfile_StoreCryptoKey hcrypto (h.hasKey.setPassword _ change.2.1) change.2.2⟩

def lastPassword (changes : List (Option WStr × Slack × List UInt8)) : Option WStr :=
  changes.getLast?.bind Prod.fst

theorem isProfile_changes (h : IsProfile env db crypt key (stands none))
    (changes : List (Option WStr × Slack × List UInt8))
    : ∃ crypt', IsProfile env (changes.foldl (changePassword env) db) crypt' key
        (stands (lastPassword changes)) := by
  rcases List.eq_nil_or_concat changes with rfl | ⟨init, change, rfl⟩
  . exact ⟨crypt, h⟩
  . rw [List.concat_eq_append, List.foldl_append, lastPassword, List.getLast?_concat]
    have hinit : ∃ crypt' password', IsProfile env (init.foldl (changePassword env) db) crypt' key
        password' := by
      clear change
      induction init using List.reverseRecOn with
      | nil => exact ⟨crypt, _, h⟩
      | append_singleton init change ih =>
        obtain ⟨crypt', password', hprofile⟩ := ih
        rw [List.foldl_append]
        obtain ⟨crypt'', hchanged⟩ := isProfile_changePassword hprofile change
        exact ⟨crypt'', _, hchanged⟩
    obtain ⟨crypt', password', hprofile⟩ := hinit
    exact isProfile_changePassword hprofile change

theorem stands_of_utf8 {last : Option WStr} (hlast : HasPassword last)
    (hutf : utf8 last = some password)
    : stands last = password := by
  unfold stands
  rw [if_pos hlast, hutf]
  exact effective_of_strlen (strlen_utf8 hlast hutf)

theorem stands_of_not {last : Option WStr} (h : HasPassword last → utf8 last = none)
    : stands last = reserved := by
  unfold stands
  split
  . next hlast =>
    rw [h hlast]
    rfl
  . rfl

theorem enterPassword_some {P : Set CStr} (hideal : Ideal env P) (h : Stored env key password mem)
    (hpassword : password ∈ P) {entries : List WStr}
    (hentries : ∀ ws ∈ entries, effective (utf8 (some ws)) ∈ P) {m_wrongPass : Nat}
    {crypt crypt' : KeyedCrypt} (henter : enterPassword env mem entries m_wrongPass crypt = some crypt')
    : ∃ ws ∈ entries, effective (utf8 (some ws)) = password := by
  induction entries generalizing m_wrongPass crypt with
  | nil => cases henter
  | cons ws entries ih =>
    unfold enterPassword at henter
    split at henter
    . cases henter
    . split at henter
      . next opened hset =>
        have haccepted : (crypt.setKey env (utf8 (some ws)) mem).1 = true := congrArg Prod.fst hset
        exact ⟨ws, List.mem_cons_self ..,
          (KeyedCrypt.setKey_iff hideal h hpassword (hentries ws (List.mem_cons_self ..)) crypt).1
            haccepted⟩
      . obtain ⟨ws', hmem, heq⟩ := ih (fun ws hws => hentries ws (List.mem_cons_of_mem _ hws)) henter
        exact ⟨ws', List.mem_cons_of_mem _ hmem, heq⟩

theorem filter_stored (h : Stored env key password mem)
    : (some mem).filter (·.length = KeyedCrypt.getKeyLength) = some mem := by
  rw [Option.filter_some, if_pos]
  exact decide_eq_true h.length

theorem open_reserved (h : Stored env key reserved mem) (random : Option Key) (slack : Slack)
    (pKey : List UInt8) (entries : List WStr)
    : openAgain env mem random slack pKey entries = .returned 0 := by
  have haccepted := (KeyedCrypt.setKey_same h (q := none) rfl .fresh).1
  unfold openAgain InitCrypt
  simp only [filter_stored h, Option.isSome_none, Bool.false_eq_true, if_false]
  split
  . rfl
  . next crypt hset =>
    rw [hset] at haccepted
    cases haccepted

theorem open_entries {P : Set CStr} (hideal : Ideal env P) (h : Stored env key password mem)
    (hpassword : password ∈ P) (hreserved : reserved ∈ P) (hne : password ≠ reserved)
    {random : Option Key} {slack : Slack} {pKey : List UInt8} {entries : List WStr}
    (hentries : ∀ ws ∈ entries, effective (utf8 (some ws)) ∈ P)
    (hopen : openAgain env mem random slack pKey entries = .returned 0)
    : ∃ ws ∈ entries, effective (utf8 (some ws)) = password := by
  have hrefused := KeyedCrypt.setKey_other hideal h (q := none) hpassword hreserved
    (fun heq => hne heq.symm) .fresh
  unfold openAgain InitCrypt at hopen
  simp only [filter_stored h, Option.isSome_none, Bool.false_eq_true, if_false, hrefused] at hopen
  split at hopen
  . next crypt hopened => exact enterPassword_some hideal h hpassword hentries hopened
  . cases hopen

variable {P : Set CStr} {last : Option WStr} {q : Option CStr}

theorem isPassword_iff (hsafe : Safe last q)
    : effective q = stands last ↔ IsPassword last q := by
  unfold Safe at hsafe
  unfold IsPassword
  split
  . next hlast =>
    rw [if_pos hlast] at hsafe
    obtain ⟨password, hutf⟩ := Option.ne_none_iff_exists'.1 hsafe.1
    rw [stands_of_utf8 hlast hutf, hutf]
    rw [effective_eq_iff (strlen_utf8 hlast hutf) (fun heq => hsafe.2 (heq ▸ hutf))]
    exact ⟨fun heq => ⟨heq ▸ nofun, heq⟩, And.right⟩
  . next hlast =>
    rw [if_neg hlast] at hsafe
    rw [stands_of_not (fun h => absurd h hlast), effective_eq_reserved_iff]
    exact or_iff_left hsafe

theorem safe_entries (hlast : HasPassword last) (hsafe : Safe last q) (q' : Option CStr)
    : Safe last q' := by
  unfold Safe at hsafe ⊢
  rw [if_pos hlast] at hsafe ⊢
  exact hsafe

theorem law_iff (hideal : Ideal env P) (hprofile : IsProfile env db crypt key (stands last))
    (hreserved : reserved ∈ P) (hlastP : stands last ∈ P) (hq : effective q ∈ P)
    : KeepsLaw env P db last q ↔ Safe last q := by
  have hstored := hprofile.hasKey.stored
  constructor
  . rintro ⟨stored, crypt', hkey, hcrypto, hlaw⟩
    have heq : crypt.m_extKey = stored := Option.some.inj (hprofile.storedKey.symm.trans hkey)
    rw [heq] at hstored
    have hnot : HasPassword last → stands last ≠ reserved := by
      intro hlast hstands
      rw [hstands] at hstored
      obtain ⟨ws, hws, -⟩ := hlaw.locked hlast none (.replicate _ 0) [] [] nofun
        (open_reserved hstored none _ [] [])
      cases hws
    unfold Safe
    split
    . next hlast =>
      constructor
      . intro hnone
        exact hnot hlast (stands_of_not fun _ => hnone)
      . intro heq
        exact hnot hlast (stands_of_utf8 hlast heq)
    . next hlast =>
      rintro rfl
      have hstands : stands last = reserved := stands_of_not fun h => absurd h hlast
      rw [hstands] at hstored
      have haccepted := (KeyedCrypt.setKey_same hstored (q := some reserved)
        (effective_of_strlen strlen_reserved) .fresh).1
      have hpassword := hlaw.accepted.1 haccepted
      unfold IsPassword at hpassword
      rw [if_neg hlast] at hpassword
      exact strlen_reserved hpassword
  . intro hsafe
    refine ⟨crypt.m_extKey, crypt, hprofile.storedKey, hprofile.crypto, ?_, ?_, ?_⟩
    . rw [KeyedCrypt.setKey_iff hideal hstored hlastP hq]
      exact isPassword_iff hsafe
    . intro haccepted
      have heq := (KeyedCrypt.setKey_iff hideal hstored hlastP hq .fresh).1 haccepted
      exact hprofile.hasKey.decodes (KeyedCrypt.setKey_same hstored heq .fresh).2
    . intro hlast random slack pKey entries hentries hopen
      have hne : stands last ≠ reserved := by
        intro hstands
        have hboth := (isPassword_iff (safe_entries hlast hsafe none)).1 hstands.symm
        unfold IsPassword at hboth
        rw [if_pos hlast] at hboth
        exact hboth.1 rfl
      obtain ⟨ws, hmem, heq⟩ := open_entries hideal hstored hlastP hreserved hne hentries hopen
      exact ⟨ws, hmem, (isPassword_iff (safe_entries hlast hsafe _)).1 heq⟩

def profile (env : Cipher) (key : Key) (slack : Slack) (pKey : List UInt8)
    (changes : List (Option WStr × Slack × List UInt8))
    : MDatabaseCommon :=
  changes.foldl (changePassword env) (create env key slack pKey)

theorem keepsLaw_iff (hideal : Ideal env P) (key : Key) (slack : Slack) (pKey : List UInt8)
    (changes : List (Option WStr × Slack × List UInt8)) (hreserved : reserved ∈ P)
    (hlast : stands (lastPassword changes) ∈ P) (hq : effective q ∈ P)
    : KeepsLaw env P (profile env key slack pKey changes) (lastPassword changes) q ↔
        Safe (lastPassword changes) q := by
  obtain ⟨crypt, hcreate⟩ := isProfile_create env key slack pKey
  obtain ⟨crypt', hprofile⟩ := isProfile_changes (by exact hcreate) changes
  exact law_iff hideal hprofile hreserved hlast hq

end MDatabaseCommon

namespace CRijndael

variable {aes aes' : CRijndael} {d : Block} {pin mem : List UInt8}

theorem Xor_comm (b d : Block) : Xor b d = Xor d b := by
  ext i hi
  simp only [Xor, Vector.getElem_zipWith]
  rw [UInt8.xor_comm]

theorem Xor_assoc (b d e : Block) : Xor (Xor b d) e = Xor b (Xor d e) := by
  ext i hi
  simp only [Xor, Vector.getElem_zipWith]
  rw [UInt8.xor_assoc]

theorem decryptBlocks_other (hchain : aes'.m_chain = aes.m_chain)
    (hdiff : ∀ b, aes'.DecryptBlock (aes.EncryptBlock b) = Xor b d) (blocks : List Block)
    : (aes'.decryptBlocks (aes.encryptBlocks blocks).2).2 = blocks.map (Xor · d) := by
  induction blocks generalizing aes aes' with
  | nil => rfl
  | cons pin rest ih =>
    simp only [encryptBlocks, decryptBlocks, List.map_cons]
    rw [hdiff, hchain, Xor_assoc aes.m_chain, Xor_Xor]
    congr 1
    apply ih
    . rfl
    . exact hdiff

theorem ofBlocks_third (x y z : Block) : (ofBlocks [x, y, z]).getD 32 0 = z[0] := by
  have hx : x.toList.length = 16 := Vector.length_toList
  have hy : y.toList.length = 16 := Vector.length_toList
  have hz : 0 < z.toList.length := by
    rw [Vector.length_toList]
    decide
  have hthird : 32 = x.toList.length + y.toList.length + 0 := by rw [hx, hy]
  have heq : ofBlocks [x, y, z] = x.toList ++ y.toList ++ z.toList := by
    unfold ofBlocks
    rw [List.flatMap_cons, List.flatMap_cons, List.flatMap_singleton, List.append_assoc]
  rw [heq, hthird, ExternalKey.getD_thd hz, Vector.getElem_toList]

theorem Decrypt_other (hchain : aes'.m_chain = aes.m_chain)
    (hdiff : ∀ b, aes'.DecryptBlock (aes.EncryptBlock b) = Xor b d) (hlen : pin.length = 48)
    (h : (aes.Encrypt pin).2 = some mem) {plain : List UInt8}
    (hplain : (aes'.Decrypt mem).2 = some plain)
    : plain.getD 32 0 = pin.getD 32 0 ^^^ d[0] := by
  have hmem := length_Encrypt h
  unfold Encrypt at h
  unfold Decrypt at hplain
  split at h
  . cases h
  . split at h
    . cases h
    . split at hplain
      . cases hplain
      . split at hplain
        . cases hplain
        . injection h with h
          injection hplain with hplain
          have hblocks : (aes.encryptBlocks (toBlocks pin 3)).2.length = 3 := by
            rw [length_encryptBlocks, length_toBlocks]
          rw [hmem, hlen, ← h, hlen] at hplain
          simp only [show 48 / BLOCK_SIZE = 3 from rfl] at hplain
          rw [toBlocks_ofBlocks hblocks, decryptBlocks_other hchain hdiff] at hplain
          rw [← hplain]
          unfold toBlocks toBlocks toBlocks toBlocks
          rw [List.map_cons, List.map_cons, List.map_cons, List.map_nil, ofBlocks_third]
          unfold Xor
          rw [Vector.getElem_zipWith, Vector.getElem_ofFn, List.drop_drop]
          congr 1
          rw [List.getD_eq_getElem?_getD, List.getElem?_drop, List.getD_eq_getElem?_getD]
          rfl

end CRijndael

def keyBlock (key : Key) : Block := .ofFn fun i => key.toList.getD i 0

def toyCipher : Cipher where
  slow_hash password := .ofFn fun i => password.bytes.getD i 0
  EncryptBlock key b := CRijndael.Xor b (keyBlock key)
  DecryptBlock key b := CRijndael.Xor b (keyBlock key)
  inverts key b := by rw [CRijndael.Xor_comm b, CRijndael.Xor_Xor]

theorem keyBlock_slow_hash (p : CStr)
    : (keyBlock (toyCipher.slow_hash p))[0] = p.bytes.getD 0 0 := by
  have hlen : (toyCipher.slow_hash p).toList.length = KEY_LENGTH := Vector.length_toList
  have hpos : 0 < (toyCipher.slow_hash p).toList.length := by
    rw [hlen]
    decide
  unfold keyBlock
  rw [Vector.getElem_ofFn]
  change (toyCipher.slow_hash p).toList.getD 0 0 = _
  rw [List.getD_eq_getElem _ _ hpos, Vector.getElem_toList]
  exact Vector.getElem_ofFn _

theorem toyCipher_other {p q : CStr} {pin mem plain : List UInt8} (hlen : pin.length = 48)
    (h : ((toyCipher.passwordAes p).Encrypt pin).2 = some mem)
    (hplain : ((toyCipher.passwordAes q).Decrypt mem).2 = some plain)
    : plain.getD 32 0 = pin.getD 32 0 ^^^ (p.bytes.getD 0 0 ^^^ q.bytes.getD 0 0) := by
  have hempty : ∀ p, (toyCipher.passwordAes p).m_chain = .ofFn fun i => CStr.empty.bytes.getD i 0 :=
    fun _ => rfl
  have hchain : (toyCipher.passwordAes q).m_chain = (toyCipher.passwordAes p).m_chain := by
    rw [hempty, hempty]
  have hdiff : ∀ b, (toyCipher.passwordAes q).DecryptBlock ((toyCipher.passwordAes p).EncryptBlock b) =
      CRijndael.Xor b (CRijndael.Xor (keyBlock (toyCipher.slow_hash p))
        (keyBlock (toyCipher.slow_hash q))) :=
    fun b => CRijndael.Xor_assoc b _ _
  have hzero : (CRijndael.Xor (keyBlock (toyCipher.slow_hash p))
      (keyBlock (toyCipher.slow_hash q)))[0] = p.bytes.getD 0 0 ^^^ q.bytes.getD 0 0 := by
    rw [← keyBlock_slow_hash p, ← keyBlock_slow_hash q]
    exact Vector.getElem_zipWith _
  rw [← hzero]
  exact CRijndael.Decrypt_other hchain hdiff hlen h hplain

theorem lowByte (a b c d : UInt8)
    : UInt8.ofNat (UInt32.ofNat
        (a.toNat + b.toNat * 2 ^ 8 + c.toNat * 2 ^ 16 + d.toNat * 2 ^ 24)).toNat = a := by
  have hlt := a.toNat_lt
  rw [← UInt8.toNat_inj, UInt8.toNat_ofNat', UInt32.toNat_ofNat']
  omega

theorem crc32_low (mem : List UInt8)
    : UInt8.ofNat (ExternalKey.ofMem mem).m_crc32.toNat = mem.getD 32 0 := by
  have hcrc : (ExternalKey.ofMem mem).m_crc32 = UInt32.ofNat ((mem.getD 32 0).toNat +
      (mem.getD 33 0).toNat * 2 ^ 8 + (mem.getD 34 0).toNat * 2 ^ 16 +
      (mem.getD 35 0).toNat * 2 ^ 24) := rfl
  rw [hcrc, lowByte]

def abc : CStr := literal "abc"

theorem ideal_toyCipher : Ideal toyCipher {reserved, abc} := by
  have hhash : toyCipher.slow_hash reserved ≠ toyCipher.slow_hash abc := by decide
  constructor
  . intro p hp q hq heq
    rcases hp with rfl | rfl <;> rcases hq with rfl | rfl
    . rfl
    . exact absurd heq hhash
    . exact absurd heq.symm hhash
    . rfl
  . intro p hp q hq hne key slack mem hmem plain hplain heq
    have hother := toyCipher_other (ExternalKey.length_toMem _) hmem hplain
    have hlow := crc32_low plain
    rw [heq, hother] at hlow
    have hpin : (ExternalKey.toMem ⟨key, checksum p, slack⟩).getD 32 0 =
        UInt8.ofNat (checksum p).toNat := by
      have := crc32_low (ExternalKey.toMem ⟨key, checksum p, slack⟩)
      rw [ExternalKey.ofMem_toMem] at this
      exact this.symm
    rw [hpin] at hlow
    have hreserved : UInt8.ofNat (checksum reserved).toNat = 0x9B := by decide +kernel
    have habc : UInt8.ofNat (checksum abc).toNat = 0x59 := by decide +kernel
    rcases hp with rfl | rfl <;> rcases hq with rfl | rfl
    . exact hne rfl
    . rw [hreserved, habc] at hlow
      exact absurd hlow (by decide)
    . rw [hreserved, habc] at hlow
      exact absurd hlow (by decide)
    . exact hne rfl

namespace MDatabaseCommon

def toyProfile (last : Option WStr) : MDatabaseCommon :=
  profile toyCipher (.replicate _ 1) (.replicate _ 2) [] [(last, .replicate _ 3, [])]

theorem keepsLaw_abc
    : KeepsLaw toyCipher {reserved, abc} (toyProfile (some (WStr.lit "abc")))
        (some (WStr.lit "abc")) (some abc) := by
  have hutf : utf8 (some (WStr.lit "abc")) = some abc := by decide
  have hlast : HasPassword (some (WStr.lit "abc")) := by decide
  have hstands : stands (some (WStr.lit "abc")) = abc := stands_of_utf8 hlast hutf
  have habc : effective (some abc) = abc := effective_of_strlen (by decide)
  apply (keepsLaw_iff (q := some abc) ideal_toyCipher (.replicate _ 1) (.replicate _ 2) []
    [(some (WStr.lit "abc"), .replicate _ 3, [])] (.inl rfl) (.inr hstands) (.inr habc)).2
  change Safe (some (WStr.lit "abc")) (some abc)
  unfold Safe
  rw [if_pos hlast, hutf]
  exact ⟨nofun, by decide⟩

-- The password is the one that stands for no password, and the profile opens without it.
theorem not_keepsLaw_Miranda
    : ¬ KeepsLaw toyCipher {reserved, abc} (toyProfile (some (WStr.lit "Miranda")))
        (some (WStr.lit "Miranda")) none := by
  rintro ⟨stored, crypt, hkey, -, hlaw⟩
  have hutf : utf8 (some (WStr.lit "Miranda")) = some reserved := by decide +kernel
  have hlast : HasPassword (some (WStr.lit "Miranda")) := by decide
  obtain ⟨crypt', hcreate⟩ := isProfile_create toyCipher (.replicate _ 1) (.replicate _ 2) []
  obtain ⟨crypt'', hprofile⟩ :=
    isProfile_changePassword hcreate (some (WStr.lit "Miranda"), .replicate _ 3, [])
  have heq : crypt''.m_extKey = stored := Option.some.inj (hprofile.storedKey.symm.trans hkey)
  have hstored := hprofile.hasKey.stored
  rw [heq, stands_of_utf8 hlast hutf] at hstored
  obtain ⟨ws, hws, -⟩ := hlaw.locked hlast none (.replicate _ 0) [] [] nofun
    (open_reserved hstored none _ [] [])
  cases hws

end MDatabaseCommon
end Crypt
