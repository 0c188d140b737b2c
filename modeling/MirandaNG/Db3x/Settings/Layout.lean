import MirandaNG.Db3x.Settings.File

/-!
This module contains how the settings of a contact are read from the file, and what the loops over a list of settings come to.

It also contains the profiles whose file is in order. Each byte of the file has an owner, so that a
write can only harm what belongs to the owners of the bytes it touches, and the settings that are
read from the file are those of its groups.
-/

namespace Mmap

open Flat CDb3Mmap
open Dbx (MCONTACT)

def DBVARIANT.read (m : Nat → UInt8) (ofs : Nat) : Option DBVARIANT :=
  if m ofs = DBVT_BYTE then some (.byte (m (ofs + 1)))
  else if m ofs = DBVT_WORD then some (.word (UInt16.ofNat (readLE m 2 (ofs + 1))))
  else if m ofs = DBVT_DWORD then some (.dword (UInt32.ofNat (readLE m 4 (ofs + 1))))
  else
    let contents := Flat.read m (ofs + 3) (readLE m 2 (ofs + 1))
    let pbVal : Blob := ⟨contents, by rw [length_read]; exact readLE_lt m 2 (ofs + 1)⟩
    if m ofs = DBVT_ASCIIZ then some (.asciiz contents)
    else if m ofs = DBVT_UTF8 then some (.utf8 contents)
    else if m ofs = DBVT_BLOB then some (.blob pbVal)
    else if m ofs = DBVT_ENCRYPTED then some (.encrypted pbVal)
    else none

def parseList (m : Nat → UInt8) (limit : Nat) : Nat → Nat → Option (List (List UInt8 × DBVARIANT))
  | 0, _ => none
  | n + 1, ofs =>
    if limit ≤ ofs then none
    else if m ofs = 0 then some []
    else do
      let ofsValue := ofs + ((m ofs).toNat + 1)
      let value ← DBVARIANT.read m ofsValue
      let rest ← parseList m limit n (ofsValue + (1 + GetSettingValueLength m ofsValue))
      return (Flat.read m (ofs + 1) (m ofs).toNat, value) :: rest

def parseModuleName (m : Nat → UInt8) (ofs : Nat) : Option (List UInt8) :=
  let dbmn := DBModuleName.read m ofs
  if dbmn.signature ≠ DBModuleName.DBMODULENAME_SIGNATURE then none
  else some (Flat.read m (ofs + DBModuleName.nameOfs) dbmn.cbName.toNat)

def parseGroups (m : Nat → UInt8) (fileSize : Nat)
    : Nat → Nat → Option (List ((List UInt8 × List UInt8) × DBVARIANT))
  | 0, _ => none
  | n + 1, ofs =>
    if ofs = 0 then some []
    else
      let dbcs := DBContactSettings.read m ofs
      let ofsBlob := ofs + DBContactSettings.blobOfs
      if dbcs.signature ≠ DBContactSettings.DBCONTACTSETTINGS_SIGNATURE then none
      else do
        let szModule ← parseModuleName m dbcs.ofsModuleName
        let settings ← parseList m (ofsBlob + dbcs.cbBlob) (fileSize + 1) ofsBlob
        let rest ← parseGroups m fileSize n dbcs.ofsNext
        return settings.map (fun x => ((szModule, x.1), x.2)) ++ rest

def CDb3Mmap.settings (db : CDb3Mmap) (contactID : MCONTACT)
    : Option (List ((List UInt8 × List UInt8) × DBVARIANT)) :=
  parseGroups db.DBRead db.m_dwFileSize (db.m_dbHeader.ofsFileEnd + 1)
    (DBContact.read db.DBRead (db.GetContactOffset contactID)).ofsFirstSettings

variable {m : Nat → UInt8} {ofs n limit : Nat}

def DBVARIANT.Fits : DBVARIANT → Prop
  | .asciiz pszVal => pszVal.length < 2 ^ 16
  | .utf8 pszVal => pszVal.length < 2 ^ 16
  | _ => True

namespace DBVARIANT

def bytes (value : DBVARIANT) : List UInt8 := value.parts.flatten

theorem counted_eq {pszVal : List UInt8} (h : pszVal.length < 2 ^ 16) : counted pszVal = pszVal := by
  unfold counted
  rw [Nat.mod_eq_of_lt h, List.take_length]

theorem length_counted_lt (pszVal : List UInt8) : (counted pszVal).length < 2 ^ 16 := by
  unfold counted
  rw [List.length_take]
  omega

theorem length_bytes (value : DBVARIANT) : value.bytes.length = value.bytesRequired := by
  cases value with
  | byte bVal => rfl
  | word wVal => rfl
  | dword dVal => rfl
  | asciiz pszVal => simp [bytes, parts, bytesRequired, hasLength, Nat.add_comm]
  | utf8 pszVal => simp [bytes, parts, bytesRequired, hasLength, Nat.add_comm]
  | blob pbVal => simp [bytes, parts, bytesRequired, hasLength, Nat.add_comm]
  | encrypted pbVal => simp [bytes, parts, bytesRequired, hasLength, Nat.add_comm]

theorem length_contents_lt (value : DBVARIANT) : value.contents.length < 2 ^ 16 := by
  cases value with
  | byte bVal => exact Nat.lt_of_le_of_lt (le_of_eq rfl) (by decide : 1 < 2 ^ 16)
  | word wVal => rw [contents, length_leBytes]; decide
  | dword dVal => rw [contents, length_leBytes]; decide
  | asciiz pszVal => exact length_counted_lt pszVal
  | utf8 pszVal => exact length_counted_lt pszVal
  | blob pbVal => exact pbVal.2
  | encrypted pbVal => exact pbVal.2

theorem at_bytes {value : DBVARIANT} (hvalue : value.hasLength = true) (h : At m ofs value.bytes)
    : readLE m 2 ofs = value.contents.length ∧ At m (ofs + 2) value.contents := by
  unfold bytes parts at h
  rw [if_pos hvalue, List.flatten_cons, List.flatten_singleton, at_append, length_leBytes] at h
  exact ⟨readLE_eq h.1 value.length_contents_lt, h.2⟩

theorem variableLength_iff (value : DBVARIANT) : value.type &&& DBVTF_VARIABLELENGTH ≠ 0 ↔ value.hasLength = true := by
  cases value with
  | byte bVal => exact iff_of_false (not_not.2 (by decide : DBVT_BYTE &&& DBVTF_VARIABLELENGTH = 0)) nofun
  | word wVal => exact iff_of_false (not_not.2 (by decide : DBVT_WORD &&& DBVTF_VARIABLELENGTH = 0)) nofun
  | dword dVal => exact iff_of_false (not_not.2 (by decide : DBVT_DWORD &&& DBVTF_VARIABLELENGTH = 0)) nofun
  | asciiz pszVal => exact iff_of_true (by decide : DBVT_ASCIIZ &&& DBVTF_VARIABLELENGTH ≠ 0) rfl
  | utf8 pszVal => exact iff_of_true (by decide : DBVT_UTF8 &&& DBVTF_VARIABLELENGTH ≠ 0) rfl
  | blob pbVal => exact iff_of_true (by decide : DBVT_BLOB &&& DBVTF_VARIABLELENGTH ≠ 0) rfl
  | encrypted pbVal => exact iff_of_true (by decide : DBVT_ENCRYPTED &&& DBVTF_VARIABLELENGTH ≠ 0) rfl

theorem GetSettingValueLength_eq {value : DBVARIANT} (h : At m ofs (value.type :: value.bytes))
    : GetSettingValueLength m ofs = value.bytes.length := by
  obtain ⟨htype, hbytes⟩ := at_cons.1 h
  unfold GetSettingValueLength
  rw [length_bytes, htype]
  unfold bytesRequired
  by_cases hvalue : value.hasLength = true
  . rw [if_pos ((variableLength_iff value).2 hvalue), if_pos hvalue, (at_bytes hvalue hbytes).1, Nat.add_comm]
  . rw [if_neg fun h => hvalue ((variableLength_iff value).1 h), if_neg hvalue]

theorem read_eq {value : DBVARIANT} (hfits : value.Fits) (h : At m ofs (value.type :: value.bytes))
    : DBVARIANT.read m ofs = some value := by
  obtain ⟨htype, hbytes⟩ := at_cons.1 h
  have hcontents : value.hasLength = true →
      Flat.read m (ofs + 3) (readLE m 2 (ofs + 1)) = value.contents := by
    intro hvalue
    obtain ⟨hlength, hcontents⟩ := at_bytes hvalue hbytes
    rw [hlength]
    exact hcontents
  unfold DBVARIANT.read
  rw [htype]
  cases value with
  | byte bVal => exact congrArg (fun b => some (DBVARIANT.byte b)) (at_cons.1 hbytes).1
  | word wVal =>
    have hword : At m (ofs + 1) (leBytes 2 wVal.toNat) := by
      simpa [bytes, parts, hasLength, contents] using hbytes
    have hread : UInt16.ofNat (readLE m 2 (ofs + 1)) = wVal := by
      rw [readLE_eq hword wVal.toNat_lt, UInt16.ofNat_toNat]
    exact congrArg (fun w => some (DBVARIANT.word w)) hread
  | dword dVal =>
    have hdword : At m (ofs + 1) (leBytes 4 dVal.toNat) := by
      simpa [bytes, parts, hasLength, contents] using hbytes
    have hread : UInt32.ofNat (readLE m 4 (ofs + 1)) = dVal := by
      rw [readLE_eq hdword dVal.toNat_lt, UInt32.ofNat_toNat]
    exact congrArg (fun d => some (DBVARIANT.dword d)) hread
  | asciiz pszVal => exact congrArg (fun s => some (DBVARIANT.asciiz s)) ((hcontents rfl).trans (counted_eq hfits))
  | utf8 pszVal => exact congrArg (fun s => some (DBVARIANT.utf8 s)) ((hcontents rfl).trans (counted_eq hfits))
  | blob pbVal => exact congrArg (fun b => some (DBVARIANT.blob b)) (Subtype.ext (hcontents rfl))
  | encrypted pbVal => exact congrArg (fun b => some (DBVARIANT.encrypted b)) (Subtype.ext (hcontents rfl))

end DBVARIANT

structure Setting where
  szSetting : List UInt8
  value : DBVARIANT
  szSetting_ne : szSetting ≠ []
  szSetting_lt : szSetting.length < 2 ^ 8
  fits : value.Fits

def Setting.bytes (s : Setting) : List UInt8 :=
  UInt8.ofNat s.szSetting.length :: (s.szSetting ++ s.value.type :: s.value.bytes)

def listBytes (l : List Setting) : List UInt8 := l.flatMap Setting.bytes

variable {s : Setting} {l pre post : List Setting} {szSetting : List UInt8}

theorem Setting.length_bytes (s : Setting) : s.bytes.length = s.szSetting.length + s.value.bytes.length + 2 := by
  unfold Setting.bytes
  rw [List.length_cons, List.length_append, List.length_cons]
  omega

@[simp]
theorem listBytes_nil : listBytes [] = [] := rfl

theorem listBytes_cons (s : Setting) (l : List Setting) : listBytes (s :: l) = s.bytes ++ listBytes l := rfl

@[simp]
theorem listBytes_append (l l' : List Setting) : listBytes (l ++ l') = listBytes l ++ listBytes l' :=
  List.flatMap_append

theorem length_le_listBytes (l : List Setting) : l.length ≤ (listBytes l).length := by
  induction l with
  | nil => exact Nat.zero_le _
  | cons s l ih =>
    rw [listBytes_cons, List.length_append, List.length_cons, s.length_bytes]
    omega

namespace Setting

theorem at_bytes (h : At m ofs s.bytes)
    : (m ofs).toNat = s.szSetting.length ∧ Flat.read m (ofs + 1) s.szSetting.length = s.szSetting ∧
        At m (ofs + (s.szSetting.length + 1)) (s.value.type :: s.value.bytes) := by
  obtain ⟨hlength, hrest⟩ := at_cons.1 h
  obtain ⟨hname, hvalue⟩ := at_append.1 hrest
  refine ⟨?_, hname, ?_⟩
  . rw [hlength, UInt8.toNat_ofNat']
    exact Nat.mod_eq_of_lt s.szSetting_lt
  . rw [Nat.add_comm s.szSetting.length, ← Nat.add_assoc]
    exact hvalue

theorem ne_zero (h : At m ofs s.bytes) : m ofs ≠ 0 := by
  intro hzero
  have hlength := (at_bytes h).1
  rw [hzero] at hlength
  exact s.szSetting_ne (List.length_eq_zero_iff.1 hlength.symm)

theorem next_eq (h : At m ofs s.bytes)
    : ofs + ((m ofs).toNat + 1) + (1 + GetSettingValueLength m (ofs + ((m ofs).toNat + 1))) =
        ofs + s.bytes.length := by
  obtain ⟨hlength, -, hvalue⟩ := at_bytes h
  rw [hlength, DBVARIANT.GetSettingValueLength_eq hvalue, s.length_bytes]
  omega

end Setting

theorem endOfList_eq (h : At m ofs (listBytes l ++ [0])) (hn : l.length ≤ n)
    : endOfList m n ofs = ofs + (listBytes l).length := by
  induction l generalizing ofs n with
  | nil =>
    have hzero := (at_cons.1 h).1
    cases n with
    | zero => rfl
    | succ n => exact if_pos hzero
  | cons s l ih =>
    obtain ⟨k, rfl⟩ := Nat.exists_eq_add_of_le' (Nat.one_le_of_lt hn)
    rw [listBytes_cons, List.append_assoc] at h
    obtain ⟨hs, hrest⟩ := at_append.1 h
    rw [endOfList, if_neg (Setting.ne_zero hs)]
    dsimp only
    rw [Setting.next_eq hs, ih hrest (Nat.le_of_succ_le_succ hn), listBytes_cons, List.length_append, Nat.add_assoc]

theorem findSetting_eq (h : At m ofs (listBytes (pre ++ post) ++ [0])) (hpre : ∀ s ∈ pre, s.szSetting ≠ szSetting)
    (hpost : ∀ s ∈ post.head?, s.szSetting = szSetting) (hn : pre.length ≤ n)
    : findSetting m szSetting n ofs = ofs + (listBytes pre).length := by
  induction pre generalizing ofs n with
  | nil =>
    cases n with
    | zero => rfl
    | succ n =>
      cases post with
      | nil => exact if_pos (at_cons.1 h).1
      | cons s post =>
        rw [List.nil_append, listBytes_cons, List.append_assoc] at h
        have hs := (at_append.1 h).1
        obtain ⟨hlength, hname, -⟩ := Setting.at_bytes hs
        rw [hpost s rfl] at hlength hname
        rw [findSetting, if_neg (Setting.ne_zero hs), if_pos ⟨hlength, hname⟩]
        rfl
  | cons s pre ih =>
    obtain ⟨k, rfl⟩ := Nat.exists_eq_add_of_le' (Nat.one_le_of_lt hn)
    rw [List.cons_append, listBytes_cons, List.append_assoc] at h
    obtain ⟨hs, hrest⟩ := at_append.1 h
    obtain ⟨hlength, hname, -⟩ := Setting.at_bytes hs
    have hother : ¬((m ofs).toNat = szSetting.length ∧ Flat.read m (ofs + 1) szSetting.length = szSetting) := by
      rintro ⟨hlength', hname'⟩
      apply hpre s List.mem_cons_self
      rw [← hname, ← hlength, hlength', hname']
    rw [findSetting, if_neg (Setting.ne_zero hs), if_neg hother]
    dsimp only
    rw [Setting.next_eq hs, ih hrest (fun s' hmem => hpre s' (List.mem_cons_of_mem s hmem)) (Nat.le_of_succ_le_succ hn),
      listBytes_cons, List.length_append, Nat.add_assoc]

theorem parseList_eq (h : At m ofs (listBytes l ++ [0])) (hlimit : ofs + (listBytes l).length < limit)
    (hn : l.length < n)
    : parseList m limit n ofs = some (l.map fun s => (s.szSetting, s.value)) := by
  induction l generalizing ofs n with
  | nil =>
    obtain ⟨k, rfl⟩ := Nat.exists_eq_add_of_le' (Nat.one_le_of_lt hn)
    rw [parseList, if_neg (Nat.not_le.2 (Nat.lt_of_le_of_lt (Nat.le_add_right _ _) hlimit)), if_pos (at_cons.1 h).1]
    rfl
  | cons s l ih =>
    obtain ⟨k, rfl⟩ := Nat.exists_eq_add_of_le' (Nat.one_le_of_lt hn)
    rw [listBytes_cons, List.append_assoc] at h
    obtain ⟨hs, hrest⟩ := at_append.1 h
    obtain ⟨hlength, hname, hvalue⟩ := Setting.at_bytes hs
    rw [listBytes_cons, List.length_append] at hlimit
    rw [parseList, if_neg (by omega), if_neg (Setting.ne_zero hs)]
    dsimp only
    rw [Setting.next_eq hs, ih hrest (by omega) (Nat.lt_of_succ_lt_succ hn), hlength, hname,
      DBVARIANT.read_eq s.fits hvalue]
    rfl

end Mmap

namespace Mmap

open Flat CDb3Mmap
open Dbx (MCONTACT)

inductive Owner where
  | free
  | header
  | pointer (contactID : MCONTACT)
  | group (contactID : MCONTACT) (ofsModuleName : Nat)
  | other
deriving DecidableEq

def Owner.Of (contactID : MCONTACT) : Owner → Prop
  | free => False
  | header => False
  | pointer c => c = contactID
  | group c _ => c = contactID
  | other => True

structure Group where
  ofs : Nat
  szModule : List UInt8
  ofsModuleName : Nat
  cbBlob : Nat
  settings : List Setting

namespace Group

def dbcs (g : Group) (ofsNext : Nat) : DBContactSettings where
  signature := DBContactSettings.DBCONTACTSETTINGS_SIGNATURE
  ofsNext := ofsNext
  ofsModuleName := g.ofsModuleName
  cbBlob := g.cbBlob

@[simp]
theorem dbcs_signature (g : Group) (ofsNext : Nat)
    : (g.dbcs ofsNext).signature = DBContactSettings.DBCONTACTSETTINGS_SIGNATURE := rfl

@[simp]
theorem dbcs_ofsNext (g : Group) (ofsNext : Nat) : (g.dbcs ofsNext).ofsNext = ofsNext := rfl

@[simp]
theorem dbcs_ofsModuleName (g : Group) (ofsNext : Nat) : (g.dbcs ofsNext).ofsModuleName = g.ofsModuleName := rfl

@[simp]
theorem dbcs_cbBlob (g : Group) (ofsNext : Nat) : (g.dbcs ofsNext).cbBlob = g.cbBlob := rfl

def entries (g : Group) : List ((List UInt8 × List UInt8) × DBVARIANT) :=
  g.settings.map fun s => ((g.szModule, s.szSetting), s.value)

end Group

def entries (groups : List Group) : List ((List UInt8 × List UInt8) × DBVARIANT) := groups.flatMap Group.entries

def firstOfs (z : Nat) : List Group → Nat
  | [] => z
  | g :: _ => g.ofs

variable {P Q : Owner → Prop} {db db' db'' : CDb3Mmap} {owner owner' owner'' : Nat → Owner} {c : MCONTACT} {g : Group}
variable {gs pre post : List Group} {ofs n z : Nat} {s : List UInt8}

def CDb3Mmap.Stored (db : CDb3Mmap) (ofs : Nat) (s : List UInt8) : Prop :=
  At db.m_pDbCache ofs s ∧ ofs + s.length ≤ db.m_dwFileSize

theorem CDb3Mmap.Stored.read (h : db.Stored ofs s) : At db.DBRead ofs s := by
  apply h.1.congr
  intro a hle hlt
  have hsize := h.2
  exact if_pos (by omega)

theorem CDb3Mmap.Stored.congr (h : db.Stored ofs s) (hsize : db.m_dwFileSize ≤ db'.m_dwFileSize)
    (hsame : ∀ a, ofs ≤ a → a < ofs + s.length → db'.m_pDbCache a = db.m_pDbCache a)
    : db'.Stored ofs s :=
  ⟨h.1.congr hsame, h.2.trans hsize⟩

theorem stored_append {t : List UInt8} : db.Stored ofs (s ++ t) ↔ db.Stored ofs s ∧ db.Stored (ofs + s.length) t := by
  unfold CDb3Mmap.Stored
  rw [at_append, List.length_append]
  constructor
  . rintro ⟨⟨hs, ht⟩, hsize⟩
    exact ⟨⟨hs, by omega⟩, ht, by omega⟩
  . rintro ⟨⟨hs, -⟩, ht, hsize⟩
    exact ⟨⟨hs, ht⟩, by omega⟩

@[simp]
theorem DBContactSettings.length_bytes (dbcs : DBContactSettings) : dbcs.bytes.length = 16 := by
  simp [DBContactSettings.bytes]

@[simp]
theorem DBModuleName.length_bytes (dbmn : DBModuleName) : dbmn.bytes.length = 9 := by
  simp [DBModuleName.bytes]

theorem DBContactSettings.read_eq {m : Nat → UInt8} {dbcs : DBContactSettings} (h : At m ofs dbcs.bytes)
    (hsignature : dbcs.signature < 2 ^ 32) (hnext : dbcs.ofsNext < 2 ^ 32) (hmodule : dbcs.ofsModuleName < 2 ^ 32)
    (hblob : dbcs.cbBlob < 2 ^ 32)
    : DBContactSettings.read m ofs = dbcs := by
  unfold DBContactSettings.bytes at h
  simp only [at_append, List.length_append, length_leBytes] at h
  obtain ⟨⟨⟨h₁, h₂⟩, h₃⟩, h₄⟩ := h
  unfold DBContactSettings.read
  rw [readLE_eq h₁ hsignature, readLE_eq h₂ hnext, readLE_eq h₃ hmodule, readLE_eq h₄ hblob]

def Chained (db : CDb3Mmap) (z : Nat) : List Group → Prop
  | [] => True
  | g :: gs => db.Stored g.ofs (g.dbcs (firstOfs z gs)).bytes ∧ Chained db z gs

theorem firstOfs_append (z : Nat) (pre post : List Group)
    : firstOfs z (pre ++ post) = firstOfs (firstOfs z post) pre := by
  cases pre with
  | nil => rfl
  | cons g pre => rfl

theorem chained_append : Chained db z (pre ++ post) ↔ Chained db (firstOfs z post) pre ∧ Chained db z post := by
  induction pre with
  | nil => exact (and_iff_right trivial).symm
  | cons g pre ih => rw [List.cons_append, Chained, Chained, ih, firstOfs_append, and_assoc]

theorem Chained.congr (h : Chained db z gs) (hsize : db.m_dwFileSize ≤ db'.m_dwFileSize)
    (hsame : ∀ g ∈ gs, ∀ a, g.ofs ≤ a → a < g.ofs + 16 → db'.m_pDbCache a = db.m_pDbCache a)
    : Chained db' z gs := by
  induction gs with
  | nil => trivial
  | cons g gs ih =>
    constructor
    . apply h.1.congr hsize
      rw [DBContactSettings.length_bytes]
      exact hsame g List.mem_cons_self
    . exact ih h.2 fun g' hmem => hsame g' (List.mem_cons_of_mem g hmem)

structure Group.Sound (db : CDb3Mmap) (owner : Nat → Owner) (c : MCONTACT) (g : Group) : Prop where
  owns : ∀ a, g.ofs ≤ a → a < g.ofs + (16 + g.cbBlob) → owner a = .group c g.ofsModuleName
  list : db.Stored (g.ofs + 16) (listBytes g.settings ++ [0])
  fits : (listBytes g.settings).length < g.cbBlob
  nodup : (g.settings.map Setting.szSetting).Nodup
  named : (g.szModule, g.ofsModuleName) ∈ db.m_lMods

structure SoundModule (db : CDb3Mmap) (owner : Nat → Owner) (szModule : List UInt8) (ofs : Nat) : Prop where
  short : szModule.length < 2 ^ 8
  owns : ∀ a, ofs ≤ a → a < ofs + (9 + szModule.length) → owner a = .other
  record : ∃ ofsNext, db.Stored ofs
    (DBModuleName.bytes ⟨DBModuleName.DBMODULENAME_SIGNATURE, ofsNext, UInt8.ofNat szModule.length⟩ ++ szModule)

structure SoundRecord (db : CDb3Mmap) (owner : Nat → Owner) (c : MCONTACT) (ofs ofsFirstSettings : Nat) : Prop where
  size : ofs + 36 ≤ db.m_dwFileSize
  signature : db.Stored ofs (leBytes 4 DBContact.DBCONTACT_SIGNATURE)
  pointer : db.Stored (ofs + 8) (leBytes 4 ofsFirstSettings)
  owns : ∀ a, ofs + 8 ≤ a → a < ofs + 12 → owner a = .pointer c
  rest : ∀ a, ofs ≤ a → a < ofs + 36 → ¬(ofs + 8 ≤ a ∧ a < ofs + 12) → owner a = .other

structure SoundContact (db : CDb3Mmap) (owner : Nat → Owner) (c : MCONTACT) (ofs : Nat) (gs : List Group) : Prop where
  record : SoundRecord db owner c ofs (firstOfs 0 gs)
  chained : Chained db 0 gs
  groups : ∀ g ∈ gs, g.Sound db owner c
  nodup : (gs.map Group.ofsModuleName).Nodup
  count : gs.length ≤ db.m_dbHeader.ofsFileEnd

structure SoundFile (db : CDb3Mmap) (owner : Nat → Owner) : Prop where
  chunk_pos : 0 < db.m_ChunkSize
  size_le : 44 ≤ db.m_dwFileSize
  size_lt : db.m_dwFileSize < 2 ^ 32
  end_lt : db.m_dbHeader.ofsFileEnd < 2 ^ 32
  header : ∀ a, a < 44 → owner a = .header
  free : ∀ a, db.m_dbHeader.ofsFileEnd ≤ a → owner a = .free

structure CDb3Mmap.Sound (db : CDb3Mmap) (owner : Nat → Owner) (groups : MCONTACT → List Group) : Prop where
  file : SoundFile db owner
  modules : ∀ mn ∈ db.m_lMods, SoundModule db owner mn.1 mn.2
  modulesNodup : (db.m_lMods.map Prod.fst).Nodup ∧ (db.m_lMods.map Prod.snd).Nodup
  contacts : ∀ c, db.GetContactOffset c ≠ 0 → SoundContact db owner c (db.GetContactOffset c) (groups c)

theorem SoundFile.lt_end (h : SoundFile db owner) {a : Nat} (ha : owner a ≠ .free) : a < db.m_dbHeader.ofsFileEnd := by
  by_contra hle
  exact ha (h.free a (Nat.le_of_not_lt hle))

theorem SoundFile.le_of_owner (h : SoundFile db owner) {a : Nat} (ha : owner a ≠ .header) : 44 ≤ a := by
  by_contra hlt
  exact ha (h.header a (Nat.lt_of_not_le hlt))

theorem Group.Sound.bounds (h : g.Sound db owner c) (hfile : SoundFile db owner)
    : 44 ≤ g.ofs ∧ g.ofs + (16 + g.cbBlob) ≤ db.m_dbHeader.ofsFileEnd := by
  have hfirst := h.owns g.ofs le_rfl (by omega)
  have hlast := h.owns (g.ofs + (15 + g.cbBlob)) (Nat.le_add_right _ _) (by omega)
  have hlt := hfile.lt_end (a := g.ofs + (15 + g.cbBlob)) (by rw [hlast]; nofun)
  exact ⟨hfile.le_of_owner (by rw [hfirst]; nofun), by omega⟩

theorem SoundModule.bounds {szModule : List UInt8} (h : SoundModule db owner szModule ofs) (hfile : SoundFile db owner)
    : 44 ≤ ofs ∧ ofs < db.m_dbHeader.ofsFileEnd := by
  have hfirst := h.owns ofs le_rfl (by omega)
  exact ⟨hfile.le_of_owner (by rw [hfirst]; nofun), hfile.lt_end (by rw [hfirst]; nofun)⟩

theorem firstOfs_lt (hfile : SoundFile db owner) (hgroups : ∀ g ∈ gs, g.Sound db owner c) : firstOfs 0 gs < 2 ^ 32 := by
  cases gs with
  | nil => exact Nat.two_pow_pos 32
  | cons g gs =>
    have hbounds := (hgroups g List.mem_cons_self).bounds hfile
    have hend := hfile.end_lt
    rw [firstOfs]
    omega

theorem Group.Sound.read_dbcs (h : g.Sound db owner c) (hfile : SoundFile db owner) (hmodule : g.ofsModuleName < 2 ^ 32)
    (hz : z < 2 ^ 32) (hstored : db.Stored g.ofs (g.dbcs z).bytes)
    : DBContactSettings.read db.DBRead g.ofs = g.dbcs z := by
  have hend := hfile.end_lt
  have hbounds := h.bounds hfile
  apply DBContactSettings.read_eq hstored.read (by rw [g.dbcs_signature]; decide) hz hmodule
  rw [g.dbcs_cbBlob]
  omega

namespace CDb3Mmap.Sound

variable {groups : MCONTACT → List Group}

theorem module_lt (h : db.Sound owner groups) (hg : g.Sound db owner c) : g.ofsModuleName < 2 ^ 32 :=
  ((h.modules _ hg.named).bounds h.file).2.trans h.file.end_lt

theorem read_dbcs (h : db.Sound owner groups) (hg : g.Sound db owner c) (hz : z < 2 ^ 32)
    (hstored : db.Stored g.ofs (g.dbcs z).bytes)
    : DBContactSettings.read db.DBRead g.ofs = g.dbcs z :=
  hg.read_dbcs h.file (h.module_lt hg) hz hstored

theorem parseModuleName_eq {szModule : List UInt8} (h : SoundModule db owner szModule ofs)
    : parseModuleName db.DBRead ofs = some szModule := by
  obtain ⟨ofsNext, hstored⟩ := h.record
  have hat := hstored.read
  unfold DBModuleName.bytes at hat
  simp only [at_append, List.length_append, length_leBytes, List.length_singleton] at hat
  obtain ⟨⟨⟨hsignature, -⟩, hlength⟩, hname⟩ := hat
  have hcb : (db.DBRead (ofs + 8)).toNat = szModule.length := by
    rw [(at_cons.1 hlength).1, UInt8.toNat_ofNat']
    exact Nat.mod_eq_of_lt h.short
  unfold parseModuleName DBModuleName.read DBModuleName.nameOfs
  dsimp only
  rw [readLE_eq hsignature (by decide), if_neg (not_not.2 rfl), hcb]
  exact congrArg some hname

theorem parseGroups_eq (h : db.Sound owner groups) (hgroups : ∀ g ∈ gs, g.Sound db owner c) (hchained : Chained db 0 gs)
    (hn : gs.length < n)
    : parseGroups db.DBRead db.m_dwFileSize n (firstOfs 0 gs) = some (entries gs) := by
  induction gs generalizing n with
  | nil =>
    obtain ⟨k, rfl⟩ := Nat.exists_eq_add_of_le' (Nat.one_le_of_lt hn)
    exact if_pos rfl
  | cons g gs ih =>
    obtain ⟨k, rfl⟩ := Nat.exists_eq_add_of_le' (Nat.one_le_of_lt hn)
    have hg := hgroups g List.mem_cons_self
    have hrest : ∀ g' ∈ gs, g'.Sound db owner c := fun g' hmem => hgroups g' (List.mem_cons_of_mem g hmem)
    have hofs := (hg.bounds h.file).1
    have hlist := length_le_listBytes g.settings
    have hsize := hg.list.2
    have hfits := hg.fits
    rw [List.length_append, List.length_singleton] at hsize
    rw [parseGroups, firstOfs, if_neg (by omega)]
    dsimp only
    rw [h.read_dbcs hg (firstOfs_lt h.file hrest) hchained.1]
    rw [if_neg (not_not.2 (g.dbcs_signature _)), g.dbcs_ofsModuleName, g.dbcs_cbBlob, g.dbcs_ofsNext]
    unfold DBContactSettings.blobOfs
    rw [parseModuleName_eq (h.modules _ hg.named), parseList_eq hg.list.read (by omega) (by omega),
      ih hrest hchained.2 (Nat.lt_of_succ_lt_succ hn)]
    simp [entries, Group.entries]

theorem settings_eq (h : db.Sound owner groups) (hc : db.GetContactOffset c ≠ 0)
    : db.settings c = some (entries (groups c)) := by
  have hcontact := h.contacts c hc
  unfold CDb3Mmap.settings DBContact.read
  dsimp only
  rw [readLE_eq hcontact.record.pointer.read (firstOfs_lt h.file hcontact.groups)]
  exact h.parseGroups_eq hcontact.groups hcontact.chained (Nat.lt_succ_of_le hcontact.count)

end CDb3Mmap.Sound

end Mmap
