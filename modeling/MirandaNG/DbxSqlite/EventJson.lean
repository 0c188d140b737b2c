import MirandaNG.Core.Utf
import MirandaNG.Data.WStr
import MirandaNG.DbxSqlite.Blob

/-!
This module contains `SetEventJson` for one member of an event's blob: the member is set by the `json_set` of SQLite, with a
path and a value that are bound to the statement.
-/

namespace DbxSqlite.EventJson

open Blob CInt

inductive SqlValue where
  | int (n : Int)
  | text (s : List UInt8)

inductive Json where
  | int (n : Int)
  | text (s : List UInt8)
  | other (json : List UInt8)

def SqlValue.json : SqlValue → Json
  | int n => .int n
  | text s => .text s

abbrev Object := List UInt8 → Option Json

inductive DBVARIANT where
  | BYTE (bVal : UInt8)
  | WORD (wVal : UInt16)
  | DWORD (dVal : UInt32)
  | ASCIIZ (pszVal : CStr)
  | UTF8 (pszVal : CStr)
  | WCHAR (pwszVal : WStr)
  | other (type : UInt8)

def DBVARIANT.meant : DBVARIANT → Option SqlValue
  | BYTE bVal => some (.int bVal.toNat)
  | WORD wVal => some (.int wVal.toNat)
  | DWORD dVal => some (.int dVal.toNat)
  | ASCIIZ pszVal | UTF8 pszVal => some (.text pszVal.bytes)
  | WCHAR pwszVal => some (.text ((Utf.mir_utf8encodeW pwszVal.chars).getD .empty).bytes)
  | other _ => none

def jsonPath (szSetting : CStr) : List UInt8 := 0x24 :: 0x2E :: szSetting.bytes

def str2json (str : List UInt8) : List UInt8 := str.flatMap fun c => if c = 0x5C then [0x5C, 0x5C] else [c]

/-
The path is bound as the buffer of `tmp`, without a copy. `tmp` takes the value then: in the same block if it has room,
which is exactly that for the path; otherwise, and for no text, the block is given back, and `stale` stands there.
-/
def boundPath (stale : Nat → UInt8) (path str : List UInt8) : List UInt8 :=
  if str = [] ∨ path.length < (str2json str).length then
    (List.range path.length).map stale
  else
    (str2json str ++ 0 :: path.drop ((str2json str).length + 1)).take path.length

def bind (stale : Nat → UInt8) (path : List UInt8) : DBVARIANT → Option (List UInt8 × SqlValue)
  | .BYTE bVal => some (path, .int bVal.toNat)
  | .WORD wVal => some (path, .int wVal.toNat)
  | .DWORD dVal => some (path, .int (int32 dVal.toNat))
  | .ASCIIZ pszVal | .UTF8 pszVal => some (boundPath stale path pszVal.bytes, .text (str2json pszVal.bytes))
  | .WCHAR pwszVal =>
    let tmp := ((Utf.mir_utf8encodeW pwszVal.chars).getD .empty).bytes
    some (boundPath stale path tmp, .text (str2json tmp))
  | .other _ => none

section
variable (json_set : List UInt8 → List UInt8 → SqlValue → Option (List UInt8)) (stale : Nat → UInt8) (heap : Int → UInt8)

-- `UPDATE events SET data=json_set(cast(data as text), ?, ?) WHERE id = ?`; an error is only logged.
def update (db : CDbxSQLite) (hDbEvent : Nat) (path : List UInt8) (value : SqlValue) : CDbxSQLite :=
  match db.events hDbEvent with
  | none => db
  | some row =>
    match row.data.bind fun data => json_set data path value with
    | none => db
    | some data => { db with events := Function.update db.events hDbEvent (some { row with data := some data }) }

def SetEventJson (db : CDbxSQLite) (hDbEvent : Nat) (szSetting : CStr) (dbv : Option DBVARIANT) : Nat × CDbxSQLite :=
  match dbv with
  | none => (1, db)
  | some dbv =>
    if hDbEvent = 0 then
      (1, db)
    else
      match bind stale (jsonPath szSetting) dbv with
      | none => (2, db)
      | some (path, value) => (0, update json_set db hDbEvent path value)

def blob (db : CDbxSQLite) (hDbEvent : Nat) : Option (List UInt8) :=
  (db.GetEvent heap hDbEvent (-1) none).bind fun got => got.pBlob.map (·.take got.cbBlob.toNat)

end

def IsLabel (name : List UInt8) : Prop :=
  name ≠ [] ∧ ∀ c ∈ name, (0x61 ≤ c ∧ c ≤ 0x7A) ∨ (0x41 ≤ c ∧ c ≤ 0x5A) ∨ (0x30 ≤ c ∧ c ≤ 0x39)

/-
`json_set` for one document, one name and one value: it fails for what is no JSON, it sets the member that its path names, and
a path that is not longer names no other way the same member. A text of SQLite has less than 2^31 bytes.
-/
structure Documented (isJson : List UInt8 → Prop) (parse : List UInt8 → Option Object)
    (json_set : List UInt8 → List UInt8 → SqlValue → Option (List UInt8)) (data : List UInt8) (szSetting : CStr)
    (value : SqlValue) : Prop where
  malformed : ∀ path, ¬isJson data → json_set data path value = none
  size : ∀ path res, json_set data path value = some res → res.length < 2 ^ 31
  sets : ∀ object, parse data = some object → IsLabel szSetting.bytes → ∃ res,
    json_set data (jsonPath szSetting) value = some res ∧
      parse res = some (Function.update object szSetting.bytes (some value.json))
  elsewhere : ∀ object path res object', parse data = some object → path.length ≤ (jsonPath szSetting).length →
    path ≠ jsonPath szSetting → json_set data path value = some res → parse res = some object' →
    object' szSetting.bytes = object szSetting.bytes

section
variable (isJson : List UInt8 → Prop) (parse : List UInt8 → Option Object)
  (json_set : List UInt8 → List UInt8 → SqlValue → Option (List UInt8)) (stale : Nat → UInt8) (heap : Int → UInt8)

def Right (db : CDbxSQLite) (hDbEvent : Nat) (object : Object) (szSetting : CStr) (dbv : DBVARIANT) : Prop :=
  match SetEventJson json_set stale db hDbEvent szSetting (some dbv) with
  | (0, db') => ∃ value res, dbv.meant = some value ∧ blob heap db' hDbEvent = some res ∧
      parse res = some (Function.update object szSetting.bytes (some value.json))
  | (_, db') => db' = db

structure Stored (db : CDbxSQLite) (hDbEvent : Nat) (row : Row) (data old : List UInt8) (object : Object) (szSetting : CStr)
    (dbv : DBVARIANT) : Prop where
  found : db.events hDbEvent = some row
  stored : row.data = some data
  small : data.length < 2 ^ 31
  read : blob heap db hDbEvent = some old
  parsed : parse old = some object
  label : IsLabel szSetting.bytes
  cipher : row.flags &&& DBEF_ENCRYPTED ≠ 0 → ¬isJson data
  documented : ∀ path value, bind stale (jsonPath szSetting) dbv = some (path, value) →
    Documented isJson parse json_set data szSetting value

def TextFits (stale : Nat → UInt8) (path str : List UInt8) : Prop :=
  0x5C ∉ str ∧ if str = [] ∨ path.length < str.length then (List.range path.length).map stale = path else str = path

def Fits (stale : Nat → UInt8) (path : List UInt8) : DBVARIANT → Prop
  | .BYTE _ | .WORD _ | .other _ => True
  | .DWORD dVal => dVal.toNat < 2 ^ 31
  | .ASCIIZ pszVal | .UTF8 pszVal => TextFits stale path pszVal.bytes
  | .WCHAR pwszVal => TextFits stale path ((Utf.mir_utf8encodeW pwszVal.chars).getD .empty).bytes

end

theorem str2json_eq_self_iff (str : List UInt8) : str2json str = str ↔ 0x5C ∉ str := by
  constructor
  . intro h hmem
    have hlen : ∀ s : List UInt8, s.length + s.count 0x5C = (str2json s).length := by
      intro s
      induction s with
      | nil => rfl
      | cons c s ih =>
        rw [str2json, List.flatMap_cons, List.length_append, ← str2json, ← ih, List.count_cons, List.length_cons]
        by_cases hc : c = 0x5C
        . rw [if_pos hc, hc]
          simp
          omega
        . rw [if_neg hc]
          simp [hc]
          omega
    have hpos := List.count_pos_iff.2 hmem
    have hstr := hlen str
    rw [h] at hstr
    omega
  . intro hmem
    induction str with
    | nil => rfl
    | cons c s ih =>
      obtain ⟨hc, hs⟩ := not_or.1 (mt List.mem_cons.2 hmem)
      rw [str2json, List.flatMap_cons, if_neg (Ne.symm hc), ← str2json, ih hs]
      rfl

theorem nul_notMem_jsonPath (szSetting : CStr) : 0 ∉ jsonPath szSetting := by
  simp [jsonPath, szSetting.nul_notMem]

theorem length_boundPath (stale : Nat → UInt8) (path str : List UInt8) : (boundPath stale path str).length = path.length := by
  unfold boundPath
  split
  next => rw [List.length_map, List.length_range]
  next h =>
    rw [List.length_take, List.length_append, List.length_cons, List.length_drop]
    omega

theorem textFits_iff {stale : Nat → UInt8} {path str : List UInt8} (hpath : 0 ∉ path)
    : TextFits stale path str ↔ boundPath stale path str = path ∧ str2json str = str := by
  rw [TextFits, ← str2json_eq_self_iff, and_comm]
  refine and_congr_left fun hstr => ?_
  rw [boundPath, hstr]
  split
  next => rfl
  next h =>
    have hle := Nat.not_lt.1 (not_or.1 h).2
    constructor
    . intro heq
      rw [heq, List.take_append_of_le_length (Nat.le_refl _), List.take_length]
    . intro heq
      by_cases hlt : str.length < path.length
      . refine absurd ?_ hpath
        rw [← heq]
        refine List.mem_of_getElem? (i := str.length) ?_
        rw [List.getElem?_take, if_pos hlt, List.getElem?_append_right (Nat.le_refl _), Nat.sub_self]
        rfl
      . have hlen : str.length = path.length := by omega
        rwa [← hlen, List.take_append_of_le_length (Nat.le_refl _), List.take_length] at heq

section
variable {isJson : List UInt8 → Prop} {parse : List UInt8 → Option Object}
  {json_set : List UInt8 → List UInt8 → SqlValue → Option (List UInt8)} {stale : Nat → UInt8} {heap : Int → UInt8}
  {db : CDbxSQLite} {hDbEvent : Nat} {row : Row} {data old : List UInt8} {object : Object} {szSetting : CStr} {dbv : DBVARIANT}

theorem bind_eq {path bound : List UInt8} {value : SqlValue} (h : bind stale path dbv = some (bound, value))
    : bound.length = path.length ∧ ∃ meant, dbv.meant = some meant ∧
      (0 ∉ path → (Fits stale path dbv ↔ bound = path ∧ value = meant)) := by
  have htext : ∀ str : List UInt8, 0 ∉ path → (TextFits stale path str ↔ boundPath stale path str = path ∧
      SqlValue.text (str2json str) = .text str) := by
    intro str hpath
    rw [textFits_iff hpath, SqlValue.text.injEq]
  cases dbv with
  | BYTE bVal =>
    cases h
    exact ⟨rfl, _, rfl, fun _ => iff_of_true trivial ⟨rfl, rfl⟩⟩
  | WORD wVal =>
    cases h
    exact ⟨rfl, _, rfl, fun _ => iff_of_true trivial ⟨rfl, rfl⟩⟩
  | DWORD dVal =>
    cases h
    refine ⟨rfl, _, rfl, fun _ => ?_⟩
    rw [SqlValue.int.injEq, and_iff_right rfl]
    constructor
    . exact fun hlt => int32_of_small hlt
    . intro heq
      have hrange : int32 dVal.toNat < 2 ^ 31 := by
        have := Int.bmod_lt (x := (dVal.toNat : Int)) (m := 2 ^ 32) (by decide)
        unfold int32
        omega
      rw [heq] at hrange
      exact_mod_cast hrange
  | ASCIIZ pszVal =>
    cases h
    exact ⟨length_boundPath .., _, rfl, htext _⟩
  | UTF8 pszVal =>
    cases h
    exact ⟨length_boundPath .., _, rfl, htext _⟩
  | WCHAR pwszVal =>
    cases h
    exact ⟨length_boundPath .., _, rfl, htext _⟩
  | other type => cases h

theorem blob_eq (hrow : db.events hDbEvent = some row)
    (hblob : blob heap db hDbEvent = some old) : hDbEvent ≠ 0 ∧ row.module ∈ db.m_modules := by
  unfold blob CDbxSQLite.GetEvent at hblob
  split at hblob
  next => cases hblob
  next h =>
    rw [hrow] at hblob
    dsimp only at hblob
    split at hblob
    next hmodule => exact ⟨fun h0 => h (.inl h0), hmodule⟩
    next => cases hblob

variable (heap row) in
theorem blob_plain (hDb : hDbEvent ≠ 0) (hmodule : row.module ∈ db.m_modules) (hrow : db.events hDbEvent = some row)
    (hsize : (row.data.getD []).length < 2 ^ 31) (hplain : row.flags &&& DBEF_ENCRYPTED = 0)
    : blob heap db hDbEvent = some (row.data.getD []) := by
  unfold blob CDbxSQLite.GetEvent
  rw [if_neg (by simp [hDb]), hrow]
  dsimp only
  rw [if_pos hmodule, get_allocated hsize, Row.getInto]
  split
  next hnil =>
    rw [List.length_eq_zero_iff] at hnil
    rw [hnil]
    rfl
  next =>
    rw [copyBlob, if_neg (by simp [hplain])]
    simp

variable (row) in
theorem update_none {path : List UInt8} {value : SqlValue} (hrow : db.events hDbEvent = some row)
    (h : row.data.bind (fun data => json_set data path value) = none) : update json_set db hDbEvent path value = db := by
  rw [update, hrow]
  dsimp only
  rw [h]

theorem update_some {path res : List UInt8} {value : SqlValue} (hrow : db.events hDbEvent = some row)
    (h : row.data.bind (fun data => json_set data path value) = some res)
    : update json_set db hDbEvent path value
        =
      { db with events := Function.update db.events hDbEvent (some { row with data := some res }) } := by
  rw [update, hrow]
  dsimp only
  rw [h]

variable (parse json_set stale heap db hDbEvent object szSetting dbv) in
/-
The member has the value already, and the statement, with the path and the value that it finds, fails or changes nothing.
-/
def Already : Prop :=
  ∃ path value meant, bind stale (jsonPath szSetting) dbv = some (path, value) ∧ dbv.meant = some meant ∧
    object szSetting.bytes = some meant.json ∧ ∀ row res, db.events hDbEvent = some row →
      row.data.bind (fun data => json_set data path value) = some res →
      ∃ new, blob heap { db with events := Function.update db.events hDbEvent (some { row with data := some res }) } hDbEvent
        = some new ∧ parse new = some object

theorem json_inj {value value' : SqlValue} (h : value.json = value'.json) : value = value' := by
  cases value <;> cases value' <;> cases h <;> rfl

theorem right_other {type : UInt8} (hDb : hDbEvent ≠ 0)
    : Right parse json_set stale heap db hDbEvent object szSetting (.other type) := by
  unfold Right SetEventJson
  dsimp only
  rw [if_neg hDb]
  rfl

theorem right_of_bind {path : List UInt8} {value : SqlValue} (hDb : hDbEvent ≠ 0)
    (h : bind stale (jsonPath szSetting) dbv = some (path, value))
    : Right parse json_set stale heap db hDbEvent object szSetting dbv ↔
        ∃ meant res, dbv.meant = some meant ∧ blob heap (update json_set db hDbEvent path value) hDbEvent = some res ∧
          parse res = some (Function.update object szSetting.bytes (some meant.json)) := by
  unfold Right SetEventJson
  dsimp only
  rw [if_neg hDb, h]
  exact Iff.rfl

theorem right_iff_fits (h : Stored isJson parse json_set stale heap db hDbEvent row data old object szSetting dbv)
    : Right parse json_set stale heap db hDbEvent object szSetting dbv ↔
        (∃ type, dbv = .other type) ∨
        (row.flags &&& DBEF_ENCRYPTED = 0 ∧ Fits stale (jsonPath szSetting) dbv ∧ ∀ type, dbv ≠ .other type) ∨
        Already parse json_set stale heap db hDbEvent object szSetting dbv := by
  obtain ⟨hrow, hdata, hsize, hblob, hparse, hname, hcipher, hdocumented⟩ := h
  have hsize' : (row.data.getD []).length < 2 ^ 31 := by rwa [hdata]
  obtain ⟨hDb, hmodule⟩ := blob_eq hrow hblob
  cases hbind : bind stale (jsonPath szSetting) dbv with
  | none =>
    cases dbv with
    | other type => exact iff_of_true (right_other hDb) (.inl ⟨type, rfl⟩)
    | _ => cases hbind
  | some bound =>
    obtain ⟨path, value⟩ := bound
    have hdocumented := hdocumented path value hbind
    obtain ⟨hlen, meant, hmeant, hfits⟩ := bind_eq hbind
    have hfits := hfits (nul_notMem_jsonPath szSetting)
    have hother : ∀ type, dbv ≠ .other type := by
      rintro type rfl
      cases hbind
    rw [right_of_bind hDb hbind]
    have hres : row.data.bind (fun data => json_set data path value) = json_set data path value := by
      rw [hdata]
      rfl
    have hplain : row.flags &&& DBEF_ENCRYPTED = 0 → old = data := by
      intro h
      have heq := blob_plain heap row hDb hmodule hrow hsize' h
      rw [hblob, hdata] at heq
      exact Option.some.inj heq
    have hnew : ∀ res, json_set data path value = some res → row.flags &&& DBEF_ENCRYPTED = 0 →
        blob heap { db with events := Function.update db.events hDbEvent (some { row with data := some res }) } hDbEvent
          = some res := by
      intro res h hflag
      exact blob_plain heap { row with data := some res } hDb hmodule (Function.update_self ..)
        (hdocumented.size _ _ h) hflag
    constructor
    . rintro ⟨meant', res, hmeant', hblob', hparse'⟩
      cases hmeant.symm.trans hmeant'
      cases hset : json_set data path value with
      | none =>
        rw [update_none row hrow (hres.trans hset), hblob] at hblob'
        cases hblob'
        have hobject := Option.some.inj (hparse.symm.trans hparse')
        refine .inr (.inr ⟨path, value, meant, hbind, hmeant, ?_, ?_⟩)
        . rw [hobject, Function.update_self]
        . rintro row' res hrow' h
          cases hrow.symm.trans hrow'
          rw [hres, hset] at h
          cases h
      | some new =>
        have hflag : row.flags &&& DBEF_ENCRYPTED = 0 := by
          by_contra h
          rw [hdocumented.malformed _ (hcipher h)] at hset
          cases hset
        have hdata' := hparse
        rw [hplain hflag] at hdata'
        rw [update_some hrow (hres.trans hset), hnew _ hset hflag] at hblob'
        cases hblob'
        by_cases hpath : path = jsonPath szSetting
        . obtain ⟨res, hset', hparse''⟩ := hdocumented.sets _ hdata' hname
          rw [hpath, hset'] at hset
          cases hset
          have heq := congrFun (Option.some.inj (hparse''.symm.trans hparse')) szSetting.bytes
          rw [Function.update_self, Function.update_self] at heq
          exact .inr (.inl ⟨hflag, hfits.2 ⟨hpath, json_inj (Option.some.inj heq)⟩, hother⟩)
        . have hmember := hdocumented.elsewhere _ _ _ _ hdata' hlen.le hpath hset hparse'
          rw [Function.update_self] at hmember
          refine .inr (.inr ⟨path, value, meant, hbind, hmeant, hmember.symm, ?_⟩)
          rintro row' res hrow' h
          cases hrow.symm.trans hrow'
          rw [hres, hset] at h
          cases h
          refine ⟨_, hnew _ hset hflag, ?_⟩
          rw [hparse', hmember, Function.update_eq_self]
    . rintro (⟨type, rfl⟩ | ⟨hflag, hfit, -⟩ | ⟨path', value', meant', hbind', hmeant', hmember, hsame⟩)
      . exact absurd rfl (hother type)
      . obtain ⟨rfl, rfl⟩ := hfits.1 hfit
        have hdata' := hparse
        rw [hplain hflag] at hdata'
        obtain ⟨res, hset, hparse'⟩ := hdocumented.sets _ hdata' hname
        refine ⟨value, res, hmeant, ?_, hparse'⟩
        rw [update_some hrow (hres.trans hset), hnew _ hset hflag]
      . cases hbind.symm.trans hbind'
        cases hmeant.symm.trans hmeant'
        have hobject : Function.update object szSetting.bytes (some meant.json) = object := by
          rw [← hmember, Function.update_eq_self]
        cases hset : json_set data path value with
        | none =>
          refine ⟨meant, old, hmeant, ?_, by rw [hobject, hparse]⟩
          rw [update_none row hrow (hres.trans hset), hblob]
        | some new =>
          obtain ⟨res, hblob', hparse'⟩ := hsame row new hrow (hres.trans hset)
          refine ⟨meant, res, hmeant, ?_, by rw [hobject, hparse']⟩
          rw [update_some hrow (hres.trans hset), hblob']

def braces : List UInt8 := [0x7B, 0x7D]

def szFt : CStr := ⟨[0x66, 0x74], by decide⟩

def parseFt (after : List UInt8) (value : SqlValue) (text : List UInt8) : Option Object :=
  if text = braces then some fun _ => none
  else if text = after then some (Function.update (fun _ => none) szFt.bytes (some value.json))
  else none

def setFt (after data path : List UInt8) (_ : SqlValue) : Option (List UInt8) :=
  if data = braces ∧ path = jsonPath szFt then some after else none

def rowFt : Row := ⟨szFt, 1, 0, 0, some braces, none, none, none⟩

def dbFt : CDbxSQLite where
  m_bEncrypted := false
  m_crypto := withKey
  m_modules := [szFt]
  events := fun _ => some rowFt

theorem blob_dbFt (heap : Int → UInt8) : blob heap dbFt 1 = some braces :=
  blob_plain heap rowFt (by decide) (List.mem_singleton.2 rfl) rfl (by decide) (by decide)

variable (stale heap) in
theorem stored_braces (after : List UInt8) {value : SqlValue} (hafter : after ≠ braces) (hsize : after.length < 2 ^ 31)
    (hbind : ∀ path value', bind stale (jsonPath szFt) dbv = some (path, value') → value' = value)
    : Stored (fun text => text = braces ∨ text = after) (parseFt after value) (setFt after) stale heap
        dbFt 1 rowFt braces braces (fun _ => none) szFt dbv where
  found := rfl
  stored := rfl
  small := by decide
  read := blob_dbFt heap
  parsed := if_pos rfl
  label := ⟨by decide, by simp [szFt]⟩
  cipher := fun h => absurd rfl h
  documented := by
    rintro path value' h
    rw [hbind path value' h]
    refine ⟨fun path h => absurd (.inl rfl) h, fun path res h => ?_, fun object h _ => ⟨after, if_pos ⟨rfl, rfl⟩, ?_⟩,
      fun object path res object' _ _ hne h _ => ?_⟩
    . unfold setFt at h
      split at h <;> cases h
      exact hsize
    . unfold parseFt at h ⊢
      rw [if_pos rfl] at h
      cases h
      rw [if_neg hafter, if_pos rfl]
    . rw [setFt, if_neg fun h => hne h.2] at h
      cases h

def oneText : List UInt8 := [0x7B, 0x22, 0x66, 0x74, 0x22, 0x3A, 0x31, 0x7D]

theorem right_one : Right (parseFt oneText (.int 1)) (setFt oneText) (fun _ => 0) (fun _ => 0) dbFt 1 (fun _ => none) szFt
    (.DWORD 1) := by
  have hbind : ∀ path value, bind (fun _ => 0) (jsonPath szFt) (.DWORD 1) = some (path, value) → value = .int 1 := by
    rintro path value h
    have hsmall : int32 (1 : UInt32).toNat = 1 := by decide
    rw [← (Prod.mk.inj (Option.some.inj h)).2, hsmall]
  have hlt : (1 : UInt32).toNat < 2 ^ 31 := by decide
  exact (right_iff_fits (stored_braces _ _ _ (by decide) (by decide) hbind)).2 (.inr (.inl ⟨rfl, hlt, nofun⟩))

def aText : List UInt8 := [0x7B, 0x22, 0x66, 0x74, 0x22, 0x3A, 0x22, 0x61, 0x22, 0x7D]

theorem not_right_text : ¬∀ isJson parse json_set stale heap db hDbEvent row data old object szSetting dbv,
    Stored isJson parse json_set stale heap db hDbEvent row data old object szSetting dbv →
    Right parse json_set stale heap db hDbEvent object szSetting dbv := by
  intro h
  have hbind : ∀ path value, bind (fun _ => 0) (jsonPath szFt) (.UTF8 ⟨[0x61], by decide⟩) = some (path, value) →
      value = .text [0x61] := by
    rintro path value h
    cases h
    rfl
  have hright := h _ _ _ _ (fun _ => 0) _ _ _ _ _ _ _ _
    (stored_braces (fun _ => 0) (fun _ => 0) aText (by decide) (by decide) hbind)
  rw [right_of_bind (by decide) rfl] at hright
  obtain ⟨meant, res, -, hres, hparse⟩ := hright
  rw [update_none rowFt rfl rfl, blob_dbFt] at hres
  cases hres
  rw [parseFt, if_pos rfl] at hparse
  have hmember := congrFun (Option.some.inj hparse) szFt.bytes
  rw [Function.update_self] at hmember
  cases hmember

end
end DbxSqlite.EventJson
