import Mathlib.Logic.Equiv.Basic
import MirandaNG.Data.Decimal
import MirandaNG.Dbx.Settings.WriteRead

/-!
This module contains `Meta_SwapContacts`, which exchanges two slots of a metacontact setting by setting, and proves when
the slots are exchanged.
-/

namespace Dbx
namespace Database

open Kv Crypt

def slotSetting (szSetting : CStr) (n : Nat) : CStr where
  bytes := szSetting.bytes ++ Decimal.print n
  nul_notMem := by
    rw [List.mem_append, not_or]
    exact ⟨szSetting.nul_notMem, fun h => absurd (Decimal.print_isDigit n 0 h) (by decide)⟩

def szProtocol : CStr := ⟨[80, 114, 111, 116, 111, 99, 111, 108], by decide⟩
def szStatus : CStr := ⟨[83, 116, 97, 116, 117, 115], by decide⟩
def szStatusString : CStr := ⟨[83, 116, 97, 116, 117, 115, 83, 116, 114, 105, 110, 103], by decide⟩
def szLogin : CStr := ⟨[76, 111, 103, 105, 110], by decide⟩
def szNick : CStr := ⟨[78, 105, 99, 107], by decide⟩
def szCListName : CStr := ⟨[67, 76, 105, 115, 116, 78, 97, 109, 101], by decide⟩
def szHandle : CStr := ⟨[72, 97, 110, 100, 108, 101], by decide⟩

def slotSettings : List CStr := [szProtocol, szStatus, szStatusString, szLogin, szNick, szCListName, szHandle]

structure SwapEnv where
  get : CStr → SettingEnv
  set : CStr → SettingEnv

def db_get (db : Database) (env : SettingEnv) (hContact : MCONTACT) (szSetting : CStr) : Option DBVARIANT :=
  db.GetContactSetting env hContact (some META_PROTO) (some szSetting)

/--
`db_set`; a value that could not be read is not written.
-/
def db_set (db : Database) (env : SettingEnv) (hContact : MCONTACT) (szSetting : CStr) (dbv : Option DBVARIANT) : Database :=
  (db.WriteContactSetting env hContact (some META_PROTO) (some szSetting) dbv).1

def SwapValues (env : SwapEnv) (hContact : MCONTACT) (n1 n2 : Nat) (db : Database) (szSetting : CStr) : Database :=
  let buf1 := slotSetting szSetting n1
  let buf2 := slotSetting szSetting n2
  let dbv1 := db.db_get (env.get buf1) hContact buf1
  let dbv2 := db.db_get (env.get buf2) hContact buf2
  let db := db.db_set (env.set buf2) hContact buf2 dbv1
  db.db_set (env.set buf1) hContact buf1 dbv2

/--
`cc` is the cached contact itself.
-/
def exchangeSubs (db : Database) (hContact : MCONTACT) (n1 n2 : Nat) : Database :=
  match db.m_cache.get? hContact with
  | none => db
  | some cc =>
    let pSubs := (cc.pSubs.set n1 (cc.pSubs.getD n2 0)).set n2 (cc.pSubs.getD n1 0)
    { db with m_cache := db.m_cache.put hContact { cc with pSubs } }

def Meta_SwapContacts (db : Database) (env : SwapEnv) (hContact : MCONTACT) (n1 n2 : Nat) : Database :=
  (slotSettings.foldl (SwapValues env hContact n1 n2) db).exchangeSubs hContact n1 n2

variable {db db' : Database} {c c' : MCONTACT} {n n' n1 n2 : Nat} {s s' szModule szModule' : CStr} {env : SwapEnv}

def own (db : Database) (hContact : MCONTACT) (szSetting : CStr) : Option DBVARIANT :=
  db.cached hContact (GetCachedSetting META_PROTO szSetting)

structure Exchanged (c : MCONTACT) (n1 n2 : Nat) (db db' : Database) : Prop where
  first : ∀ s ∈ slotSettings, db'.own c (slotSetting s n1) = db.own c (slotSetting s n2)
  second : ∀ s ∈ slotSettings, db'.own c (slotSetting s n2) = db.own c (slotSetting s n1)
  others : ∀ c' f, (∀ s ∈ slotSettings, ∀ n ∈ [n1, n2], ¬(c' = c ∧ f = GetCachedSetting META_PROTO (slotSetting s n))) →
    db'.cached c' f = db.cached c' f
  subs : ∀ cc ∈ db.m_cache.get? c, ∃ cc' ∈ db'.m_cache.get? c,
    cc' = { cc with pSubs := cc'.pSubs } ∧ ∀ k : Nat, cc'.pSubs[k]? = cc.pSubs[Equiv.swap n1 n2 k]?
  contacts : ∀ c' ≠ c, db'.m_cache.get? c' = db.m_cache.get? c'

structure Restored (db db' : Database) : Prop where
  cached : ∀ c f, db'.cached c f = db.cached c f
  contacts : ∀ c, db'.m_cache.get? c = db.m_cache.get? c

def SwapsSlots (db : Database) (c : MCONTACT) (n1 n2 : Nat) : Prop :=
  ∀ env env', Exchanged c n1 n2 db (db.Meta_SwapContacts env c n1 n2) ∧
    Restored db ((db.Meta_SwapContacts env c n1 n2).Meta_SwapContacts env' c n1 n2)

def answerTo (db : Database) (env : SettingEnv) : DBVARIANT → Option DBVARIANT
  | .encrypted pbVal => (db.m_crypto.decodeString env.heap (pbVal.map (·.bytes))).map fun decoded =>
      utf8ToWide (.utf8 (some (.ofMem decoded)))
  | v => some (utf8ToWide v)

def accepted (db : Database) (env : SettingEnv) (name : CStr) (dbv : Option DBVARIANT) : Option DBVARIANT :=
  (dbv.bind notifValue).bind (db.workValue env META_PROTO name)

/--
A value that is read and written over another one is there afterwards.
-/
def Returns (db : Database) (name : CStr) (v old : DBVARIANT) : Prop :=
  ∀ env env', match db.accepted env' name (db.answerTo env v) with
    | none => old = v
    | some w => if bIsIdentical env' old w then old = v else w = v

/--
`db_get` finds nothing for one setting that `db_set` would store under the other one.
-/
def Unanswered (db : Database) (c : MCONTACT) (szSetting name : CStr) : Prop :=
  ∀ env env', db.accepted env' name (db.db_get env c szSetting) = none

/--
A setting is in both slots and survives being read and written, or it is in none, also not for `db_get`, which goes on
to the default contact: the one there is, and the one there is after the exchange.
-/
def Swappable (db : Database) (c : MCONTACT) (s1 s2 : CStr) (n1 n2 : Nat) : Prop :=
  match db.own c s1, db.own c s2 with
  | some v1, some v2 =>
    (db.Returns s2 v1 v2 ∧ db.Returns s1 v2 v1) ∧ (db.Returns s2 v2 v1 ∧ db.Returns s1 v1 v2)
  | none, none =>
    (db.Unanswered c s1 s2 ∧ db.Unanswered c s2 s1) ∧
      ((db.exchangeSubs c n1 n2).Unanswered c s1 s2 ∧ (db.exchangeSubs c n1 n2).Unanswered c s2 s1)
  | _, _ => False

theorem slotSetting_bytes (s : CStr) (n : Nat) : (slotSetting s n).bytes = s.bytes ++ Decimal.print n := rfl

theorem slotSetting_inj (hs : ∀ b ∈ s.bytes, Decimal.isDigit b = false) (hs' : ∀ b ∈ s'.bytes, Decimal.isDigit b = false)
    (h : slotSetting s n = slotSetting s' n')
    : s = s' ∧ n = n' := by
  have hsplit : ∀ (t : CStr) (k : Nat), (∀ b ∈ t.bytes, Decimal.isDigit b = false) →
      ((slotSetting t k).bytes.takeWhile (fun b => !Decimal.isDigit b) = t.bytes ∧
        (slotSetting t k).bytes.dropWhile (fun b => !Decimal.isDigit b) = Decimal.print k) := by
    intro t k ht
    have hletters : ∀ b ∈ t.bytes, (!Decimal.isDigit b) = true := fun b hb => by rw [ht b hb]; rfl
    rw [slotSetting_bytes, List.takeWhile_append_of_pos hletters, List.dropWhile_append_of_pos hletters]
    cases hp : Decimal.print k with
    | nil => exact absurd hp (Decimal.print_ne_nil k)
    | cons d p =>
      have hd : (!Decimal.isDigit d) = false := by
        rw [Decimal.print_isDigit k d (hp ▸ List.mem_cons_self)]
        rfl
      rw [List.takeWhile_cons, List.dropWhile_cons, hd]
      exact ⟨List.append_nil _, rfl⟩
  obtain ⟨htake, hdrop⟩ := hsplit s n hs
  obtain ⟨htake', hdrop'⟩ := hsplit s' n' hs'
  rw [h] at htake hdrop
  refine ⟨CStr.ext_bytes (htake.symm.trans htake'), ?_⟩
  rw [← Decimal.value_print n, ← Decimal.value_print n', ← hdrop, ← hdrop']

theorem slotSettings_letters : ∀ s ∈ slotSettings, ∀ b ∈ s.bytes, Decimal.isDigit b = false := by
  have hall : (slotSettings.all fun s => s.bytes.all fun b => !Decimal.isDigit b) = true := by decide
  simpa using hall

theorem slotSettings_nodup : slotSettings.Nodup := by decide

theorem slash_notMem (hs : s ∈ slotSettings) (n : Nat) : 47 ∉ (slotSetting s n).bytes := by
  have hletters : ∀ s ∈ slotSettings, 47 ∉ s.bytes := by decide
  rw [slotSetting_bytes, List.mem_append, not_or]
  exact ⟨hletters s hs, fun h => absurd (Decimal.print_isDigit n 47 h) (by decide)⟩

theorem GetCachedSetting_setting (hs : 47 ∉ s.bytes) (hs' : 47 ∉ s'.bytes)
    (h : GetCachedSetting szModule s = GetCachedSetting szModule' s')
    : s = s' := by
  have hbytes : (szModule.bytes ++ 47 :: s.bytes).reverse = (szModule'.bytes ++ 47 :: s'.bytes).reverse :=
    congrArg List.reverse (congrArg CStr.bytes h)
  have hback : ∀ m t : CStr, 47 ∉ t.bytes →
      ((m.bytes ++ 47 :: t.bytes).reverse.takeWhile (· ≠ 47)).reverse = t.bytes := by
    intro m t ht
    have hall : ∀ b ∈ t.bytes.reverse, decide (b ≠ 47) = true := by
      intro b hb
      refine decide_eq_true ?_
      rintro rfl
      exact ht (List.mem_reverse.1 hb)
    rw [List.reverse_append, List.reverse_cons, List.append_assoc, List.takeWhile_append_of_pos hall]
    simp
  apply CStr.ext_bytes
  rw [← hback szModule s hs, hbytes, hback szModule' s' hs']

structure Agrees (s : CStr) (db db' : Database) : Prop where
  cached : ∀ c szModule, db'.cached c (GetCachedSetting szModule s) = db.cached c (GetCachedSetting szModule s)
  m_cache : db'.m_cache = db.m_cache
  m_crypto : db'.m_crypto = db.m_crypto
  m_bEncrypted : db'.m_bEncrypted = db.m_bEncrypted
  g_bMetaEnabled : db'.g_bMetaEnabled = db.g_bMetaEnabled
  baseAccountName : db'.baseAccountName = db.baseAccountName

theorem Agrees.seek (h : Agrees s db db') (k : Nat) (c : MCONTACT) (szModule : CStr)
    : db'.seek s k c szModule = db.seek s k c szModule := by
  induction k generalizing c szModule with
  | zero => rfl
  | succ k ih =>
    have hlookup : db'.lookupDefault c szModule s = db.lookupDefault c szModule s := by
      unfold Database.lookupDefault db_mc_getDefault CheckMeta Meta_GetContactHandle
      rw [h.m_cache, h.g_bMetaEnabled, h.baseAccountName]
    unfold Database.seek
    rw [h.cached, hlookup]
    simp only [ih]

theorem Agrees.db_get (h : Agrees s db db') (e : SettingEnv) (c : MCONTACT) : db'.db_get e c s = db.db_get e c s := by
  unfold Database.db_get GetContactSetting GetContactSettingWorker findValue
  rw [h.m_crypto, h.m_cache]
  simp only [h.seek]

theorem Agrees.own (h : Agrees s db db') (c : MCONTACT) : db'.own c s = db.own c s := h.cached c META_PROTO

theorem db_get_own {v : DBVARIANT} (hc : c ≠ INVALID_CONTACT_ID) (h : db.own c s = some v) (e : SettingEnv)
    : db.db_get e c s = db.answerTo e v := by
  unfold Database.db_get GetContactSetting GetContactSettingWorker
  dsimp only
  rw [if_neg hc, findValue_of_cached h]
  cases v with
  | encrypted pbVal =>
    unfold answerTo
    dsimp only
    cases db.m_crypto.decodeString e.heap (pbVal.map (·.bytes)) with
    | none => rfl
    | some decoded => rfl
  | _ => rfl

def settle (db : Database) (e : SettingEnv) (name : CStr) (dbv old : Option DBVARIANT) : Option DBVARIANT :=
  match db.accepted e name dbv, old with
  | none, old => old
  | some w, none => some w
  | some w, some p => if bIsIdentical e p w then some p else some w

theorem accepted_congr (hcrypto : db'.m_crypto = db.m_crypto) (hencrypted : db'.m_bEncrypted = db.m_bEncrypted)
    (e : SettingEnv) (name : CStr) (dbv : Option DBVARIANT)
    : db'.accepted e name dbv = db.accepted e name dbv := by
  unfold accepted workValue
  rw [hcrypto, hencrypted]

theorem own_db_set (hplace : db.hasValues c) (hc : c ≠ INVALID_CONTACT_ID) (e : SettingEnv) (s : CStr)
    (dbv : Option DBVARIANT)
    : (db.db_set e c s dbv).own c s = db.settle e s dbv (db.own c s) := by
  unfold Database.db_set settle accepted
  cases dbv with
  | none => rfl
  | some dbv =>
    unfold WriteContactSetting
    dsimp only
    rw [if_neg hc, Option.bind_some]
    cases (notifValue dbv).bind (db.workValue e META_PROTO s) with
    | none => rfl
    | some w =>
      dsimp only
      unfold Database.own
      rcases storeValue_cases db e c META_PROTO s w with ⟨p, hcached, hidentical, heq⟩ | ⟨hnew, heq⟩
      . rw [heq, hcached]
        dsimp only
        rw [if_pos hidentical]
      . rw [heq, cached_save, cached_SetCachedVariant, if_pos ⟨hplace, rfl, rfl⟩]
        cases hcached : db.cached c (GetCachedSetting META_PROTO s) with
        | none => rfl
        | some p =>
          dsimp only
          rw [hnew p hcached]
          rfl

theorem touches_db_set (db : Database) (e : SettingEnv) (c : MCONTACT) (s : CStr) (dbv : Option DBVARIANT)
    : Touches c (GetCachedSetting META_PROTO s) db (db.db_set e c s dbv) :=
  Touches.WriteContactSetting db e c META_PROTO s dbv

theorem settle_settle (db : Database) (e : SettingEnv) (name : CStr) (dbv old : Option DBVARIANT)
    : db.settle e name dbv (db.settle e name dbv old) = db.settle e name dbv old := by
  unfold settle
  cases db.accepted e name dbv with
  | none => rfl
  | some w =>
    cases old with
    | none =>
      dsimp only
      rw [ite_self]
    | some p =>
      by_cases h : bIsIdentical e p w
      . simp only [if_pos h]
      . simp only [if_neg h, ite_self]

def Settles (db : Database) (c : MCONTACT) (s1 s2 : CStr) : Prop :=
  ∀ e e', db.settle e' s2 (db.db_get e c s1) (db.own c s2) = db.own c s1 ∧
    db.settle e' s1 (db.db_get e c s2) (db.own c s1) = db.own c s2

theorem settles_iff (hc : c ≠ INVALID_CONTACT_ID) (s1 s2 : CStr)
    : db.Settles c s1 s2 ↔
        match db.own c s1, db.own c s2 with
        | some v1, some v2 => db.Returns s2 v1 v2 ∧ db.Returns s1 v2 v1
        | none, none => db.Unanswered c s1 s2 ∧ db.Unanswered c s2 s1
        | _, _ => False := by
  have hreturns : ∀ (name : CStr) (v old : DBVARIANT),
      (∀ e e', db.settle e' name (db.answerTo e v) (some old) = some v) ↔ db.Returns name v old := by
    intro name v old
    unfold settle Returns
    apply forall_congr'
    intro e
    apply forall_congr'
    intro e'
    cases db.accepted e' name (db.answerTo e v) with
    | none => exact Option.some_inj
    | some w =>
      dsimp only
      split
      . exact Option.some_inj
      . exact Option.some_inj
  have hunanswered : ∀ (t name : CStr),
      (∀ e e', db.settle e' name (db.db_get e c t) none = none) ↔ db.Unanswered c t name := by
    intro t name
    unfold settle Unanswered
    apply forall_congr'
    intro e
    apply forall_congr'
    intro e'
    cases db.accepted e' name (db.db_get e c t) with
    | none => exact iff_of_true rfl rfl
    | some w => exact iff_of_false nofun nofun
  have hstays : ∀ (e : SettingEnv) (name : CStr) (dbv : Option DBVARIANT) (v : DBVARIANT),
      db.settle e name dbv (some v) ≠ none := by
    intro e name dbv v
    unfold settle
    cases db.accepted e name dbv with
    | none => exact nofun
    | some w =>
      dsimp only
      split
      . exact nofun
      . exact nofun
  unfold Settles
  cases h1 : db.own c s1 with
  | none =>
    cases h2 : db.own c s2 with
    | none =>
      dsimp only
      rw [← hunanswered, ← hunanswered, ← forall_and]
      simp only [forall_and]
    | some v2 =>
      refine iff_of_false (fun h => ?_) id
      exact hstays {} s2 _ v2 (h {} {}).1
  | some v1 =>
    cases h2 : db.own c s2 with
    | none =>
      refine iff_of_false (fun h => ?_) id
      exact hstays {} s1 _ v1 (h {} {}).2
    | some v2 =>
      dsimp only
      simp only [db_get_own hc h1, db_get_own hc h2]
      rw [← hreturns, ← hreturns]
      simp only [forall_and]

/--
`db'` differs from `db` in these settings of the two slots, in the records and in the module names only.
-/
structure SlotsTouched (c : MCONTACT) (n1 n2 : Nat) (l : List CStr) (db db' : Database) : Prop where
  cached : ∀ c' f, (∀ s ∈ l, ∀ n ∈ [n1, n2], ¬(c' = c ∧ f = GetCachedSetting META_PROTO (slotSetting s n))) →
    db'.cached c' f = db.cached c' f
  m_cache : db'.m_cache = db.m_cache
  m_crypto : db'.m_crypto = db.m_crypto
  m_bEncrypted : db'.m_bEncrypted = db.m_bEncrypted
  g_bMetaEnabled : db'.g_bMetaEnabled = db.g_bMetaEnabled
  baseAccountName : db'.baseAccountName = db.baseAccountName

theorem SlotsTouched.trans {db'' : Database} {l l' : List CStr} (h : SlotsTouched c n1 n2 l db db')
    (h' : SlotsTouched c n1 n2 l' db' db'')
    : SlotsTouched c n1 n2 (l ++ l') db db'' where
  cached c' f hnot := by
    rw [h'.cached c' f fun s hs => hnot s (List.mem_append_right l hs),
      h.cached c' f fun s hs => hnot s (List.mem_append_left l' hs)]
  m_cache := h'.m_cache.trans h.m_cache
  m_crypto := h'.m_crypto.trans h.m_crypto
  m_bEncrypted := h'.m_bEncrypted.trans h.m_bEncrypted
  g_bMetaEnabled := h'.g_bMetaEnabled.trans h.g_bMetaEnabled
  baseAccountName := h'.baseAccountName.trans h.baseAccountName

theorem SlotsTouched.swapValues (env : SwapEnv) (c : MCONTACT) (n1 n2 : Nat) (db : Database) (s : CStr)
    : SlotsTouched c n1 n2 [s] db (SwapValues env c n1 n2 db s) := by
  have htouched : ∀ (db : Database) (n : Nat) (e : SettingEnv) (dbv : Option DBVARIANT), n ∈ [n1, n2] →
      SlotsTouched c n1 n2 [s] db (db.db_set e c (slotSetting s n) dbv) := by
    intro db n e dbv hn
    have h := touches_db_set db e c (slotSetting s n) dbv
    refine ⟨?_, h.m_cache, h.m_crypto, h.m_bEncrypted, h.g_bMetaEnabled, h.baseAccountName⟩
    exact fun c' f hnot => h.cached c' f (hnot s List.mem_cons_self n hn)
  have hboth := (htouched db n2 (env.set (slotSetting s n2)) (db.db_get (env.get (slotSetting s n1)) c (slotSetting s n1))
    (by simp)).trans (htouched _ n1 (env.set (slotSetting s n1)) (db.db_get (env.get (slotSetting s n2)) c (slotSetting s n2))
    (by simp))
  refine { hboth with cached := ?_ }
  exact fun c' f hnot => hboth.cached c' f fun t ht => hnot t (by simpa using ht)

theorem SlotsTouched.foldl (env : SwapEnv) (c : MCONTACT) (n1 n2 : Nat) (l : List CStr) (db : Database)
    : SlotsTouched c n1 n2 l db (l.foldl (SwapValues env c n1 n2) db) := by
  induction l generalizing db with
  | nil => exact ⟨fun _ _ _ => rfl, rfl, rfl, rfl, rfl, rfl⟩
  | cons s l ih => exact (swapValues env c n1 n2 db s).trans (ih _)

theorem SlotsTouched.agrees {l : List CStr} (h : SlotsTouched c n1 n2 l db db') (hl : ∀ t ∈ l, t ∈ slotSettings)
    (hs : s ∈ slotSettings) (hnot : s ∉ l) (n : Nat)
    : Agrees (slotSetting s n) db db' := by
  refine ⟨?_, h.m_cache, h.m_crypto, h.m_bEncrypted, h.g_bMetaEnabled, h.baseAccountName⟩
  intro c' szModule
  apply h.cached
  rintro t ht k hk ⟨-, heq⟩
  have hname := GetCachedSetting_setting (slash_notMem hs n) (slash_notMem (hl t ht) k) heq
  have hst := (slotSetting_inj (slotSettings_letters s hs) (slotSettings_letters t (hl t ht)) hname).1
  exact hnot (hst ▸ ht)

theorem GetCachedSetting_ne (hs : s ∈ slotSettings) (hne : n ≠ n')
    : GetCachedSetting META_PROTO (slotSetting s n) ≠ GetCachedSetting META_PROTO (slotSetting s n') := by
  intro heq
  have hname := GetCachedSetting_setting (slash_notMem hs n) (slash_notMem hs n') heq
  exact hne (slotSetting_inj (slotSettings_letters s hs) (slotSettings_letters s hs) hname).2

theorem own_SwapValues (n1 n2 : Nat) (hplace : db.hasValues c) (hc : c ≠ INVALID_CONTACT_ID) (hs : s ∈ slotSettings)
    (env : SwapEnv)
    : let s1 := slotSetting s n1
      let s2 := slotSetting s n2
      (SwapValues env c n1 n2 db s).own c s1 = db.settle (env.set s1) s1 (db.db_get (env.get s2) c s2) (db.own c s1) ∧
        (SwapValues env c n1 n2 db s).own c s2 = db.settle (env.set s2) s2 (db.db_get (env.get s1) c s1) (db.own c s2) := by
  intro s1 s2
  have hsecond := touches_db_set db (env.set s2) c s2 (db.db_get (env.get s1) c s1)
  have hset := own_db_set hplace hc (env.set s2) s2 (db.db_get (env.get s1) c s1)
  have hplace' : (db.db_set (env.set s2) c s2 (db.db_get (env.get s1) c s1)).hasValues c := by
    rw [hsecond.hasValues]
    exact hplace
  have hfirst := own_db_set hplace' hc (env.set s1) s1 (db.db_get (env.get s2) c s2)
  have hsettle : ∀ old, (db.db_set (env.set s2) c s2 (db.db_get (env.get s1) c s1)).settle (env.set s1) s1
      (db.db_get (env.get s2) c s2) old = db.settle (env.set s1) s1 (db.db_get (env.get s2) c s2) old := by
    intro old
    unfold settle
    rw [accepted_congr hsecond.m_crypto hsecond.m_bEncrypted]
  rw [hsettle] at hfirst
  have hswap : SwapValues env c n1 n2 db s = (db.db_set (env.set s2) c s2 (db.db_get (env.get s1) c s1)).db_set (env.set s1)
      c s1 (db.db_get (env.get s2) c s2) := rfl
  rw [hswap]
  by_cases hne : n1 = n2
  . -- the one slot is written with its value twice
    have heq : s1 = s2 := congrArg (slotSetting s) hne
    rw [← heq] at hset hfirst ⊢
    rw [hset, settle_settle] at hfirst
    exact ⟨hfirst, hfirst⟩
  . have hkept : (db.db_set (env.set s2) c s2 (db.db_get (env.get s1) c s1)).own c s1 = db.own c s1 :=
      hsecond.cached c _ fun h => GetCachedSetting_ne hs hne h.2
    rw [hkept] at hfirst
    refine ⟨hfirst, ?_⟩
    have hlast := touches_db_set (db.db_set (env.set s2) c s2 (db.db_get (env.get s1) c s1)) (env.set s1) c s1
      (db.db_get (env.get s2) c s2)
    exact (hlast.cached c _ fun h => GetCachedSetting_ne hs (Ne.symm hne) h.2).trans hset

theorem own_foldl (n1 n2 : Nat) {l : List CStr} (hl : ∀ t ∈ l, t ∈ slotSettings) (hnodup : l.Nodup)
    (hplace : db.hasValues c) (hc : c ≠ INVALID_CONTACT_ID) (hs : s ∈ l) (env : SwapEnv)
    : (l.foldl (SwapValues env c n1 n2) db).own c (slotSetting s n1) =
          (SwapValues env c n1 n2 db s).own c (slotSetting s n1) ∧
        (l.foldl (SwapValues env c n1 n2) db).own c (slotSetting s n2) =
          (SwapValues env c n1 n2 db s).own c (slotSetting s n2) := by
  induction l generalizing db with
  | nil => cases hs
  | cons t l ih =>
    have hl' : ∀ t ∈ l, t ∈ slotSettings := fun t ht => hl t (List.mem_cons_of_mem _ ht)
    obtain ⟨ht, hnodup'⟩ := List.nodup_cons.1 hnodup
    have htouched := SlotsTouched.swapValues env c n1 n2 db t
    rw [List.foldl_cons]
    rcases List.mem_cons.1 hs with rfl | hs'
    . have hrest := SlotsTouched.foldl env c n1 n2 l (SwapValues env c n1 n2 db s)
      have hagrees := hrest.agrees hl' (hl s List.mem_cons_self) ht
      exact ⟨(hagrees n1).own c, (hagrees n2).own c⟩
    . have hne : s ∉ [t] := by
        rw [List.mem_singleton]
        rintro rfl
        exact ht hs'
      have hagrees := htouched.agrees (fun t' ht' => List.mem_singleton.1 ht' ▸ hl t List.mem_cons_self) (hl' s hs') hne
      have hplace' : (SwapValues env c n1 n2 db t).hasValues c := by
        unfold hasValues
        rw [htouched.m_cache]
        exact hplace
      obtain ⟨h1, h2⟩ := ih hl' hnodup' hplace' hs'
      obtain ⟨ht1, ht2⟩ := own_SwapValues n1 n2 hplace' hc (hl' s hs') env
      obtain ⟨hs1, hs2⟩ := own_SwapValues n1 n2 hplace hc (hl' s hs') env
      have hsettle : ∀ e name dbv old, (SwapValues env c n1 n2 db t).settle e name dbv old = db.settle e name dbv old := by
        intro e name dbv old
        unfold settle
        rw [accepted_congr htouched.m_crypto htouched.m_bEncrypted]
      rw [hsettle, (hagrees n2).db_get, (hagrees n1).own] at ht1
      rw [hsettle, (hagrees n1).db_get, (hagrees n2).own] at ht2
      exact ⟨h1.trans (ht1.trans hs1.symm), h2.trans (ht2.trans hs2.symm)⟩

theorem getElem?_exchange {α : Type} (l : List α) (d : α) (h1 : n1 < l.length) (h2 : n2 < l.length) (k : Nat)
    : ((l.set n1 (l.getD n2 d)).set n2 (l.getD n1 d))[k]? = l[Equiv.swap n1 n2 k]? := by
  have hget1 : l[n1]? = some (l.getD n1 d) := by simp [h1]
  have hget2 : l[n2]? = some (l.getD n2 d) := by simp [h2]
  rw [List.getElem?_set, List.getElem?_set, Equiv.swap_apply_def, List.length_set]
  by_cases hk2 : n2 = k
  . subst hk2
    rw [if_pos rfl, if_pos h2]
    by_cases hk1 : n2 = n1
    . rw [if_pos hk1, ← hk1, hget2]
    . rw [if_neg hk1, if_pos rfl, hget1]
  . rw [if_neg hk2]
    by_cases hk1 : n1 = k
    . subst hk1
      rw [if_pos rfl, if_pos h1, if_pos rfl, hget2]
    . rw [if_neg hk1, if_neg (Ne.symm hk1), if_neg (Ne.symm hk2)]

variable {cc : DBCachedContact}

theorem exchangeSubs_eq (hcc : db.m_cache.get? c = some cc)
    : db.exchangeSubs c n1 n2 = { db with
        m_cache := db.m_cache.put c { cc with
          pSubs := (cc.pSubs.set n1 (cc.pSubs.getD n2 0)).set n2 (cc.pSubs.getD n1 0) } } := by
  unfold exchangeSubs
  rw [hcc]

theorem hasValues_of_get? (hcc : db.m_cache.get? c = some cc) : db.hasValues c := by
  unfold hasValues
  exact decide_eq_true (.inr (Table.mem_iff_exists.2 ⟨cc, hcc⟩))

theorem cached_exchangeSubs (hcc : db.m_cache.get? c = some cc) (c' : MCONTACT) (f : CStr)
    : (db.exchangeSubs c n1 n2).cached c' f = db.cached c' f := by
  have hmem : ∀ x, x ∈ db.m_cache.put c { cc with
      pSubs := (cc.pSubs.set n1 (cc.pSubs.getD n2 0)).set n2 (cc.pSubs.getD n1 0) } ↔ x ∈ db.m_cache := by
    intro x
    rw [Table.mem_put]
    constructor
    . rintro (rfl | h)
      . exact Table.mem_iff_exists.2 ⟨cc, hcc⟩
      . exact h
    . exact .inr
  rw [exchangeSubs_eq hcc]
  unfold cached hasValues
  simp only [hmem]

theorem own_exchangeSubs (hcc : db.m_cache.get? c = some cc) (s : CStr)
    : (db.exchangeSubs c n1 n2).own c s = db.own c s :=
  cached_exchangeSubs hcc c _

theorem exchanged_of_own (hcc : db.m_cache.get? c = some cc) (h1 : n1 < cc.pSubs.length) (h2 : n2 < cc.pSubs.length)
    (hfirst : ∀ s ∈ slotSettings, (db.Meta_SwapContacts env c n1 n2).own c (slotSetting s n1) = db.own c (slotSetting s n2))
    (hsecond : ∀ s ∈ slotSettings, (db.Meta_SwapContacts env c n1 n2).own c (slotSetting s n2) = db.own c (slotSetting s n1))
    : Exchanged c n1 n2 db (db.Meta_SwapContacts env c n1 n2) := by
  have htouched := SlotsTouched.foldl env c n1 n2 slotSettings db
  have hcc' : (slotSettings.foldl (SwapValues env c n1 n2) db).m_cache.get? c = some cc := by rw [htouched.m_cache, hcc]
  refine ⟨hfirst, hsecond, ?_, ?_, ?_⟩
  . intro c' f hnot
    unfold Meta_SwapContacts
    rw [cached_exchangeSubs hcc', htouched.cached c' f hnot]
  . intro cc'' hcc''
    rw [hcc] at hcc''
    cases hcc''
    unfold Meta_SwapContacts
    rw [exchangeSubs_eq hcc']
    refine ⟨_, Table.get?_put_self _ _ _, rfl, ?_⟩
    exact fun k => getElem?_exchange cc.pSubs 0 h1 h2 k
  . intro c' hne
    unfold Meta_SwapContacts
    rw [exchangeSubs_eq hcc']
    dsimp only
    rw [Table.get?_put_ne _ _ hne, htouched.m_cache]

theorem own_Meta_SwapContacts (n1 n2 : Nat) (hc : c ≠ INVALID_CONTACT_ID) (hcc : db.m_cache.get? c = some cc)
    (hs : s ∈ slotSettings) (env : SwapEnv)
    : let s1 := slotSetting s n1
      let s2 := slotSetting s n2
      (db.Meta_SwapContacts env c n1 n2).own c s1 =
          db.settle (env.set s1) s1 (db.db_get (env.get s2) c s2) (db.own c s1) ∧
        (db.Meta_SwapContacts env c n1 n2).own c s2 =
          db.settle (env.set s2) s2 (db.db_get (env.get s1) c s1) (db.own c s2) := by
  intro s1 s2
  have hcc' : (slotSettings.foldl (SwapValues env c n1 n2) db).m_cache.get? c = some cc := by
    rw [(SlotsTouched.foldl env c n1 n2 slotSettings db).m_cache, hcc]
  obtain ⟨hfold1, hfold2⟩ := own_foldl n1 n2 (fun _ ht => ht) slotSettings_nodup (hasValues_of_get? hcc) hc hs
    env
  obtain ⟨hone1, hone2⟩ := own_SwapValues n1 n2 (hasValues_of_get? hcc) hc hs env
  unfold Meta_SwapContacts
  rw [own_exchangeSubs hcc', own_exchangeSubs hcc']
  exact ⟨hfold1.trans hone1, hfold2.trans hone2⟩

theorem exchanged_iff (hc : c ≠ INVALID_CONTACT_ID) (hcc : db.m_cache.get? c = some cc) (h1 : n1 < cc.pSubs.length)
    (h2 : n2 < cc.pSubs.length)
    : (∀ env, Exchanged c n1 n2 db (db.Meta_SwapContacts env c n1 n2)) ↔
        ∀ s ∈ slotSettings, db.Settles c (slotSetting s n1) (slotSetting s n2) := by
  constructor
  . intro h s hs e e'
    have henv := h ⟨fun _ => e, fun _ => e'⟩
    obtain ⟨hown1, hown2⟩ := own_Meta_SwapContacts n1 n2 hc hcc hs ⟨fun _ => e, fun _ => e'⟩
    exact ⟨hown2.symm.trans (henv.second s hs), hown1.symm.trans (henv.first s hs)⟩
  . intro h env
    refine exchanged_of_own hcc h1 h2 ?_ ?_
    . intro s hs
      exact (own_Meta_SwapContacts n1 n2 hc hcc hs env).1.trans (h s hs _ _).2
    . intro s hs
      exact (own_Meta_SwapContacts n1 n2 hc hcc hs env).2.trans (h s hs _ _).1

theorem Exchanged.restored {db'' : Database} (hcc : db.m_cache.get? c = some cc) (h : Exchanged c n1 n2 db db')
    (h' : Exchanged c n1 n2 db' db'')
    : Restored db db'' := by
  constructor
  . intro c' f
    by_cases hslot : ∃ s ∈ slotSettings, ∃ n ∈ [n1, n2], c' = c ∧ f = GetCachedSetting META_PROTO (slotSetting s n)
    . obtain ⟨s, hs, n, hn, rfl, rfl⟩ := hslot
      rcases List.mem_cons.1 hn with rfl | hn
      . exact (h'.first s hs).trans (h.second s hs)
      . obtain rfl := List.mem_singleton.1 hn
        exact (h'.second s hs).trans (h.first s hs)
    . have hnot : ∀ s ∈ slotSettings, ∀ n ∈ [n1, n2], ¬(c' = c ∧ f = GetCachedSetting META_PROTO (slotSetting s n)) :=
        fun s hs n hn heq => hslot ⟨s, hs, n, hn, heq⟩
      rw [h'.others c' f hnot, h.others c' f hnot]
  . intro c'
    by_cases hc' : c' = c
    . subst hc'
      obtain ⟨cc', hcc', heq', hsubs'⟩ := h.subs cc hcc
      obtain ⟨cc'', hcc'', heq'', hsubs''⟩ := h'.subs cc' hcc'
      have hpSubs : cc''.pSubs = cc.pSubs := by
        apply List.ext_getElem?
        intro k
        rw [hsubs'', hsubs', Equiv.swap_apply_self]
      rw [Option.mem_def.1 hcc'', hcc, heq'', heq', hpSubs]
    . rw [h'.contacts c' hc', h.contacts c' hc']

theorem Returns.congr (hcrypto : db'.m_crypto = db.m_crypto) (hencrypted : db'.m_bEncrypted = db.m_bEncrypted) (name : CStr)
    (v old : DBVARIANT)
    : db'.Returns name v old ↔ db.Returns name v old := by
  have hanswer : ∀ e, db'.answerTo e v = db.answerTo e v := by
    intro e
    unfold answerTo
    rw [hcrypto]
  unfold Returns
  simp only [hanswer, accepted_congr hcrypto hencrypted]

theorem swappable_iff (hc : c ≠ INVALID_CONTACT_ID) (hcc : db.m_cache.get? c = some cc)
    (h : Exchanged c n1 n2 db (db.Meta_SwapContacts env c n1 n2)) (hs : s ∈ slotSettings)
    : db.Settles c (slotSetting s n1) (slotSetting s n2) ∧
          (db.Meta_SwapContacts env c n1 n2).Settles c (slotSetting s n1) (slotSetting s n2) ↔
        db.Swappable c (slotSetting s n1) (slotSetting s n2) n1 n2 := by
  have htouched := SlotsTouched.foldl env c n1 n2 slotSettings db
  have hcc' : (slotSettings.foldl (SwapValues env c n1 n2) db).m_cache.get? c = some cc := by rw [htouched.m_cache, hcc]
  have hcrypto : (db.Meta_SwapContacts env c n1 n2).m_crypto = db.m_crypto := by
    unfold Meta_SwapContacts
    rw [exchangeSubs_eq hcc']
    exact htouched.m_crypto
  have hencrypted : (db.Meta_SwapContacts env c n1 n2).m_bEncrypted = db.m_bEncrypted := by
    unfold Meta_SwapContacts
    rw [exchangeSubs_eq hcc']
    exact htouched.m_bEncrypted
  rw [settles_iff hc, settles_iff hc, h.first s hs, h.second s hs]
  unfold Swappable
  cases hown1 : db.own c (slotSetting s n1) with
  | none =>
    cases hown2 : db.own c (slotSetting s n2) with
    | some v2 => exact and_self_iff
    | none =>
      dsimp only
      have hagrees : ∀ n ∈ [n1, n2], Agrees (slotSetting s n) (db.exchangeSubs c n1 n2) (db.Meta_SwapContacts env c n1 n2) := by
        intro n hn
        have hnone : db.own c (slotSetting s n) = none := by
          rcases List.mem_cons.1 hn with rfl | hn
          . exact hown1
          . rw [List.mem_singleton.1 hn, hown2]
        have hnone' : (db.Meta_SwapContacts env c n1 n2).own c (slotSetting s n) = none := by
          rcases List.mem_cons.1 hn with rfl | hn
          . rw [h.first s hs, hown2]
          . rw [List.mem_singleton.1 hn, h.second s hs, hown1]
        refine ⟨?_, ?_, ?_, ?_, ?_, ?_⟩
        . intro c' szModule
          rw [cached_exchangeSubs hcc]
          by_cases hslot : c' = c ∧ GetCachedSetting szModule (slotSetting s n) =
              GetCachedSetting META_PROTO (slotSetting s n)
          . rw [hslot.1, hslot.2]
            exact hnone'.trans hnone.symm
          . apply h.others
            rintro t ht k - ⟨hc', heq⟩
            have hname := GetCachedSetting_setting (slash_notMem hs n) (slash_notMem ht k) heq
            rw [← hname] at heq
            exact hslot ⟨hc', heq⟩
        . unfold Meta_SwapContacts
          rw [exchangeSubs_eq hcc, exchangeSubs_eq hcc']
          dsimp only
          rw [htouched.m_cache]
        . rw [hcrypto, exchangeSubs_eq hcc]
        . rw [hencrypted, exchangeSubs_eq hcc]
        . unfold Meta_SwapContacts
          rw [exchangeSubs_eq hcc, exchangeSubs_eq hcc']
          exact htouched.g_bMetaEnabled
        . unfold Meta_SwapContacts
          rw [exchangeSubs_eq hcc, exchangeSubs_eq hcc']
          exact htouched.baseAccountName
      have hunanswered : ∀ n ∈ [n1, n2], ∀ name, (db.Meta_SwapContacts env c n1 n2).Unanswered c (slotSetting s n) name ↔
          (db.exchangeSubs c n1 n2).Unanswered c (slotSetting s n) name := by
        intro n hn name
        have ha := hagrees n hn
        unfold Unanswered
        simp only [ha.db_get, accepted_congr ha.m_crypto ha.m_bEncrypted]
      rw [hunanswered n1 (by simp), hunanswered n2 (by simp)]
  | some v1 =>
    cases hown2 : db.own c (slotSetting s n2) with
    | none => exact and_self_iff
    | some v2 =>
      dsimp only
      rw [Returns.congr hcrypto hencrypted, Returns.congr hcrypto hencrypted]

theorem swapsSlots_iff (hc : c ≠ INVALID_CONTACT_ID) (hcc : db.m_cache.get? c = some cc)
    (hsubs : cc.nSubs ≤ cc.pSubs.length) (h1 : n1 < cc.nSubs) (h2 : n2 < cc.nSubs)
    : db.SwapsSlots c n1 n2 ↔ ∀ s ∈ slotSettings, db.Swappable c (slotSetting s n1) (slotSetting s n2) n1 n2 := by
  have hn1 : n1 < cc.pSubs.length := by omega
  have hn2 : n2 < cc.pSubs.length := by omega
  have hagain : ∀ env, Exchanged c n1 n2 db (db.Meta_SwapContacts env c n1 n2) →
      ∃ cc', (db.Meta_SwapContacts env c n1 n2).m_cache.get? c = some cc' ∧ n1 < cc'.pSubs.length ∧
        n2 < cc'.pSubs.length := by
    intro env h
    obtain ⟨cc', hcc', -, hget⟩ := h.subs cc hcc
    have hlength : ∀ k, Equiv.swap n1 n2 k < cc.pSubs.length → k < cc'.pSubs.length := by
      intro k hk
      by_contra hle
      have hnone := hget k
      rw [List.getElem?_eq_none (Nat.le_of_not_lt hle), List.getElem?_eq_getElem hk] at hnone
      cases hnone
    refine ⟨cc', hcc', hlength n1 ?_, hlength n2 ?_⟩
    . rw [Equiv.swap_apply_left]
      exact hn2
    . rw [Equiv.swap_apply_right]
      exact hn1
  constructor
  . intro h s hs
    have hexchanged : ∀ env, Exchanged c n1 n2 db (db.Meta_SwapContacts env c n1 n2) := fun env => (h env env).1
    let env : SwapEnv := ⟨fun _ => {}, fun _ => {}⟩
    obtain ⟨cc', hcc', hn1', hn2'⟩ := hagain env (hexchanged env)
    rw [← swappable_iff hc hcc (hexchanged env) hs]
    refine ⟨(exchanged_iff hc hcc hn1 hn2).1 hexchanged s hs, ?_⟩
    refine (exchanged_iff hc hcc' hn1' hn2').1 ?_ s hs
    intro env'
    have hrestored := (h env env').2
    refine exchanged_of_own hcc' hn1' hn2' ?_ ?_
    . exact fun t ht => (hrestored.cached c _).trans ((hexchanged env).second t ht).symm
    . exact fun t ht => (hrestored.cached c _).trans ((hexchanged env).first t ht).symm
  . intro h env env'
    have hboth : ∀ env'', Exchanged c n1 n2 db (db.Meta_SwapContacts env'' c n1 n2) := by
      refine (exchanged_iff hc hcc hn1 hn2).2 fun s hs => ?_
      rw [settles_iff hc]
      have hswappable := h s hs
      unfold Swappable at hswappable
      split at hswappable
      . exact hswappable.1
      . exact hswappable.1
      . exact hswappable
    obtain ⟨cc', hcc', hn1', hn2'⟩ := hagain env (hboth env)
    have hsecond := (exchanged_iff hc hcc' hn1' hn2').2 fun s hs => ((swappable_iff hc hcc (hboth env) hs).2 (h s hs)).2
    exact ⟨hboth env, (hboth env).restored hcc (hsecond env')⟩

def twoSubs (s : CStr) (v : DBVARIANT) : Database :=
  let db := create default false
  let db := { db with m_cache := db.m_cache.put 1 { nSubs := 2, pSubs := [2, 3] } }
  db.SetCachedVariant 1 (GetCachedSetting META_PROTO (slotSetting s 0)) v

-- The setting of the second slot is "Handle" as well.
theorem swapsSlots_handles
    : ((twoSubs szHandle (.dword 2)).SetCachedVariant 1 (GetCachedSetting META_PROTO (slotSetting szHandle 1))
        (.dword 3)).SwapsSlots 1 0 1 := by
  have hcc : ((twoSubs szHandle (.dword 2)).SetCachedVariant 1 (GetCachedSetting META_PROTO (slotSetting szHandle 1))
      (.dword 3)).m_cache.get? 1 = some { nSubs := 2, pSubs := [2, 3] } := by decide
  refine (swapsSlots_iff (by decide) hcc (by decide) (by decide) (by decide)).2 ?_
  have hreturns : ∀ (db : Database) (name : CStr) (v old : UInt32), db.Returns name (.dword v) (.dword old) := by
    intro db name v old env env'
    change if decide (old = v) then DBVARIANT.dword old = .dword v else DBVARIANT.dword v = .dword v
    split
    . next h => rw [of_decide_eq_true h]
    . rfl
  intro s hs
  simp only [slotSettings, List.mem_cons, List.not_mem_nil, or_false] at hs
  rcases hs with rfl | rfl | rfl | rfl | rfl | rfl | rfl
  all_goals first
    | exact ⟨⟨hreturns _ _ _ _, hreturns _ _ _ _⟩, hreturns _ _ _ _, hreturns _ _ _ _⟩
    | exact ⟨⟨fun _ _ => rfl, fun _ _ => rfl⟩, fun _ _ => rfl, fun _ _ => rfl⟩

theorem not_swapsSlots_absent : ¬(twoSubs szNick (.byte 65)).SwapsSlots 1 0 1 := by
  intro h
  have hfirst := (h ⟨fun _ => {}, fun _ => {}⟩ ⟨fun _ => {}, fun _ => {}⟩).1.first szNick (by decide)
  exact absurd hfirst (by decide)

end Database
end Dbx
