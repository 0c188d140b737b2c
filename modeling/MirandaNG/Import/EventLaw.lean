import MirandaNG.Import.TextJson

/-!
This module contains what an event becomes when it is exported and read, and which events are met when the events of a
file are gone through.
-/

namespace Import

open LibJson

variable {env : Environment} {hContact : MCONTACT}

def fields (env : Environment) (dbei : DBEVENTINFO) : List (CStr × Option Built) :=
  [(szType, some (numberNode dbei.eventType.toNat)),
    (szModule, if dbei.szModule = env.Proto_GetBaseAccountName dbei.hContact then none else some (charNode dbei.szModule)),
    (szTimestamp, some (numberNode dbei.getUnixtime.toNat)),
    (szIsoTime, some (charNode (some (.ofMem (IsoTime.TimeZone_PrintTimeStamp dbei.getUnixtime))))),
    (szFlags, some (charNode (some (flagsText dbei.flags)))),
    (szBody, (dbei.getText env.toServices).map fun msg => charNode (T2Utf msg)),
    (szServerId, dbei.szId.map fun s => charNode (some s)),
    (szUserId, dbei.szUserId.map fun s => charNode (some s)),
    (szReplyId, dbei.szReplyId.map fun s => charNode (some s))]

def present (l : List (CStr × Option Built)) : List (CStr × Built) := l.flatMap fun c => c.2.toList.map fun v => (c.1, v)

theorem eventFields_eq (dbei : DBEVENTINFO) : eventFields env dbei = present (fields env dbei) := by
  have hmap : ∀ (name : CStr) (value : Option CStr),
      optional name value = (value.map fun s => charNode (some s)).toList.map fun v => (name, v) := by
    intro name value
    cases value <;> rfl
  have htext : ((dbei.getText env.toServices).toList.map fun msg => (szBody, charNode (T2Utf msg)))
      = ((dbei.getText env.toServices).map fun msg => charNode (T2Utf msg)).toList.map fun v => (szBody, v) := by
    cases dbei.getText env.toServices <;> rfl
  unfold eventFields fields present
  rw [hmap, hmap, hmap, htext]
  split <;> simp

theorem find_absent {l : List (CStr × Option Built)} {name : CStr} (h : name ∉ l.map (·.1))
    : (present l).find? (fun c => c.1.bytes = name.bytes) = none := by
  rw [List.find?_eq_none]
  intro c hc heq
  apply h
  unfold present at hc
  obtain ⟨d, hd, hmem⟩ := List.mem_flatMap.mp hc
  obtain ⟨v, _, hv⟩ := List.mem_map.mp hmem
  have hname : d.1 = name := by
    apply CStr.ext_bytes
    rw [← hv] at heq
    simpa using heq
  exact List.mem_map.mpr ⟨d, hd, hname⟩

theorem find_present {l : List (CStr × Option Built)} (hnodup : (l.map (·.1)).Nodup) {name : CStr}
    {value : Option Built} (h : (name, value) ∈ l)
    : (present l).find? (fun c => c.1.bytes = name.bytes) = value.map fun v => (name, v) := by
  induction l with
  | nil => cases h
  | cons c l ih =>
    obtain ⟨hnot, hnodup⟩ := List.nodup_cons.mp hnodup
    have hsplit : present (c :: l) = (c.2.toList.map fun v => (c.1, v)) ++ present l := List.flatMap_cons
    rw [hsplit, List.find?_append]
    cases h with
    | head =>
      cases value with
      | none => exact find_absent hnot
      | some v => simp
    | tail _ h =>
      have hne : c.1 ≠ name := by
        rintro rfl
        exact hnot (List.mem_map.mpr ⟨_, h, rfl⟩)
      have hskip : (c.2.toList.map fun v => (c.1, v)).find? (fun c => c.1.bytes = name.bytes) = none := by
        rw [List.find?_eq_none]
        intro d hd heq
        obtain ⟨v, _, rfl⟩ := List.mem_map.mp hd
        exact hne (CStr.ext_bytes (by simpa using heq))
      rw [hskip, Option.none_or, ih hnodup h]

def fieldNames : List CStr :=
  [szType, szModule, szTimestamp, szIsoTime, szFlags, szBody, szServerId, szUserId, szReplyId]

theorem fields_names (dbei : DBEVENTINFO) : (fields env dbei).map (·.1) = fieldNames := rfl

theorem fieldNames_nodup : fieldNames.Nodup := by decide

section

variable (dbei : DBEVENTINFO)

def nodeRead (env : Environment) : JSONNode := ⟨[], (eventNode env dbei).compact⟩

theorem at_field (name : CStr) (value : Option Built) (h : (name, value) ∈ fields env dbei)
    : (nodeRead dbei env).at_ name.bytes = (value.map fun v => ⟨name.bytes, v.compact⟩).getD nullNode := by
  have hnodup : ((fields env dbei).map (·.1)).Nodup := by
    rw [fields_names]
    exact fieldNames_nodup
  unfold nodeRead eventNode
  rw [JSONNode.at_ofList_eq, eventFields_eq, find_present hnodup h, Option.map_map]
  rfl

theorem at_missing (name : CStr) (h : name ∉ fieldNames) : (nodeRead dbei env).at_ name.bytes = nullNode := by
  rw [← fields_names dbei] at h
  unfold nodeRead eventNode
  rw [JSONNode.at_ofList_eq, eventFields_eq, find_absent h]
  rfl

theorem as_string_charNode (name : List UInt8) (s : Option CStr)
    : (⟨name, (charNode s).compact⟩ : JSONNode).as_string = (s.getD .empty).bytes :=
  JSONNode.as_string_string name _

theorem read_type (h : dbei.eventType < 0x80000000)
    : ((nodeRead dbei env).at_ szType.bytes).as_int = some (dbei.eventType.toNat : Int) := by
  have hlt : dbei.eventType.toNat < 2 ^ 31 := UInt32.lt_iff_toNat_lt.mp h
  rw [at_field dbei szType (some (numberNode dbei.eventType.toNat)) List.mem_cons_self]
  exact JSONNode.as_int_number szType.bytes hlt

theorem printed_ne_zero (ts : UInt32) : 0 ∉ IsoTime.TimeZone_PrintTimeStamp ts := by
  have hprint : ∀ n, 0 ∉ Decimal.print n := by
    intro n hmem
    exact absurd (Decimal.print_isDigit n 0 hmem) (by decide)
  have htwo : ∀ n, 0 ∉ IsoTime.printTwo n := by
    intro n
    unfold IsoTime.printTwo
    split <;> simp [hprint]
  unfold IsoTime.TimeZone_PrintTimeStamp IsoTime.FormatTime
  simp [hprint, htwo]

theorem ofMem_of_ne_zero {mem : List UInt8} (h : 0 ∉ mem) : (CStr.ofMem mem).bytes = mem := by
  apply List.takeWhile_eq_self_iff.mpr
  intro c hc
  have hne : c ≠ 0 := fun heq => h (heq ▸ hc)
  simpa using hne

theorem timeOf_printed (ts : UInt32)
    : timeOf IsoTime._mkgmtime (IsoTime.scanIsoTime (IsoTime.TimeZone_PrintTimeStamp ts)) = (ts.toNat : Int) := by
  have hback := IsoTime.mkgmtime_printed ts
  cases hscan : IsoTime.scanIsoTime (IsoTime.TimeZone_PrintTimeStamp ts) with
  | none =>
    rw [hscan] at hback
    cases hback
  | some st =>
    rw [hscan, Option.map_some, Option.some.injEq] at hback
    unfold timeOf
    simp only []
    rw [hback, if_neg (by omega)]

theorem read_time : readTime env (nodeRead dbei env) = some (dbei.getUnixtime.toNat : Int) := by
  have hisotime : ((nodeRead dbei env).at_ szIsoTime.bytes).as_string
      = IsoTime.TimeZone_PrintTimeStamp dbei.getUnixtime := by
    rw [at_field dbei szIsoTime (some (charNode (some (.ofMem (IsoTime.TimeZone_PrintTimeStamp dbei.getUnixtime)))))
      (by simp [fields]), Option.map_some, Option.getD_some, as_string_charNode, Option.getD_some,
      ofMem_of_ne_zero (printed_ne_zero _)]
  have hne : IsoTime.TimeZone_PrintTimeStamp dbei.getUnixtime ≠ [] := by
    unfold IsoTime.TimeZone_PrintTimeStamp IsoTime.FormatTime
    simp
  unfold readTime
  rw [at_missing dbei szTime (by decide), at_missing dbei szTimeStamp (by decide)]
  have hnil : ¬([] : List UInt8) ≠ [] := fun h => h rfl
  simp only []
  rw [hisotime, JSONNode.as_string_nullNode, if_neg hnil, if_pos hne, timeOf_printed]
  split
  . next hzero =>
    rw [hzero]
    rfl
  . rfl

theorem read_flags
    : readFlags ((nodeRead dbei env).at_ szFlags.bytes).as_string
        =
      { bSent := dbei.flags.bSent, bRead := dbei.flags.bRead } := by
  rw [at_field dbei szFlags (some (charNode (some (flagsText dbei.flags)))) (by simp [fields]), Option.map_some,
    Option.getD_some, as_string_charNode, Option.getD_some]
  unfold flagsText
  cases dbei.flags.bSent <;> cases dbei.flags.bRead <;> rfl

theorem as_string_optional {name : CStr} {s : Option CStr}
    (h : (name, s.map fun s => charNode (some s)) ∈ fields env dbei)
    : ((nodeRead dbei env).at_ name.bytes).as_string = (s.getD .empty).bytes := by
  rw [at_field dbei name _ h]
  cases s with
  | none => rfl
  | some s =>
    simp only [Option.map_some, Option.getD_some]
    exact as_string_charNode name.bytes (some s)

theorem read_module
    : CStr.ofMem ((nodeRead dbei env).at_ szModule.bytes).as_string
        =
      if dbei.szModule = env.Proto_GetBaseAccountName dbei.hContact then .empty else dbei.szModule.getD .empty := by
  rw [at_field dbei szModule (if dbei.szModule = env.Proto_GetBaseAccountName dbei.hContact then none
    else some (charNode dbei.szModule)) (by simp [fields])]
  split
  . rfl
  . rw [Option.map_some, Option.getD_some, as_string_charNode, CStr.ofMem_bytes]

end

def IsAscii (s : CStr) : Prop := ∀ c ∈ s.bytes, c < 0x80

theorem decode_ascii {s : CStr} (h : IsAscii s) : Utf.mir_utf8decodeW s = some (s.bytes.map UInt8.toUInt16) := by
  have hlow : ∀ c ∈ s.bytes, c ≠ 0 ∧ c < 0x80 := by
    intro c hc
    exact ⟨fun heq => s.nul_notMem (heq ▸ hc), h c hc⟩
  obtain ⟨hwell, hbytes⟩ := Utf.wide_of_ascii hlow
  exact Utf.decode_wellFormed hwell hbytes.symm

theorem as_mstring_ascii {node : JSONNode} {s : CStr} (h : IsAscii s) (hnode : node.as_string = s.bytes)
    : env.WideCharToMultiByte (as_mstring node) = s := by
  unfold as_mstring DBEVENTINFO.decodeW
  rw [hnode, CStr.ofMem_bytes, decode_ascii h, Option.map_some, Option.getD_some]
  exact env.ascii s h

def given (s : Option CStr) : Option CStr := s.bind nonEmpty

theorem nonEmpty_getD (s : Option CStr) : nonEmpty (s.getD .empty) = given s := by
  cases s <;> rfl

theorem read_id {dbei : DBEVENTINFO} {name : CStr} {s : Option CStr}
    (h : (name, s.map fun s => charNode (some s)) ∈ fields env dbei) (hascii : ∀ t ∈ s, IsAscii t)
    : nonEmpty (env.WideCharToMultiByte (as_mstring ((nodeRead dbei env).at_ name.bytes))) = given s := by
  have hall : IsAscii (s.getD .empty) := by
    cases s with
    | none => exact fun c hc => absurd hc List.not_mem_nil
    | some t => exact hascii t rfl
  rw [as_mstring_ascii hall (as_string_optional dbei h), nonEmpty_getD]

def shownText (env : Environment) (dbei : DBEVENTINFO) : Option CStr :=
  given ((dbei.getText env.toServices).bind T2Utf)

theorem as_string_body (dbei : DBEVENTINFO)
    : ((nodeRead dbei env).at_ szBody.bytes).as_string = ((shownText env dbei).getD .empty).bytes := by
  have hempty : ∀ s : CStr, s.bytes = ((nonEmpty s).getD .empty).bytes := by
    intro s
    unfold nonEmpty
    split
    . next hnil => exact hnil
    . rfl
  rw [at_field dbei szBody ((dbei.getText env.toServices).map fun msg => charNode (T2Utf msg)) (by simp [fields])]
  unfold shownText given
  cases dbei.getText env.toServices with
  | none => rfl
  | some msg =>
    rw [Option.map_some, Option.map_some, Option.getD_some, as_string_charNode, Option.bind_some]
    cases T2Utf msg with
    | none => rfl
    | some s => exact hempty s

structure IsText (env : Environment) (dbei : DBEVENTINFO) (text : CStr) : Prop where
  noService : env.textService dbei.szModule dbei.eventType = none
  noAuth : dbei.eventType ≠ EVENTTYPE_AUTHREQUEST ∧ dbei.eventType ≠ EVENTTYPE_ADDED
  noContacts : dbei.eventType ≠ EVENTTYPE_CONTACTS
  noFile : dbei.eventType ≠ EVENTTYPE_FILE
  noJson : dbei.flags.isJson = false
  bUtf : dbei.flags.bUtf = true
  pBlob : dbei.pBlob.map CStr.ofMem = some text
  isText : Utf.IsText text.bytes

theorem shownText_of_isText {dbei : DBEVENTINFO} {text : CStr} (h : IsText env dbei text)
    : shownText env dbei = nonEmpty text := by
  obtain ⟨w, hwell, hbytes⟩ := h.isText
  obtain ⟨t, hencode, ht⟩ := Utf.encode_wellFormed hwell
  have hsame : t = text := CStr.ext_bytes (ht.trans hbytes)
  rw [hsame] at hencode ht
  have hdecode := Utf.decode_wellFormed hwell ht
  obtain ⟨mem, hmem, hblob⟩ := Option.map_eq_some_iff.mp h.pBlob
  have hnul := Utf.nul_not_mem_of_wellFormed hwell
  have hwide : (WStr.ofMem w).chars = w := by
    apply List.takeWhile_eq_self_iff.mpr
    intro c hc
    have hne : c ≠ 0 := fun heq => hnul (heq ▸ hc)
    simpa using hne
  unfold shownText DBEVENTINFO.getText
  rw [h.noService, hmem]
  simp only []
  rw [if_neg (by simp [h.noAuth]), if_neg h.noContacts, if_neg h.noFile, h.noJson, h.bUtf, hblob]
  unfold DBEVENTINFO.decodeW given T2Utf
  rw [if_neg (by decide), if_pos rfl, hdecode, Option.map_some, Option.bind_some, hwide, hencode]
  rfl

theorem getUnixtime_seconds {dbei : DBEVENTINFO} (h : dbei.flags.bMsec = false) (hlt : dbei.iTimestamp < 0x100000000)
    : dbei.getUnixtime.toUInt64 = dbei.iTimestamp := by
  have hnat : dbei.iTimestamp.toNat < 2 ^ 32 := UInt64.lt_iff_toNat_lt.mp hlt
  unfold DBEVENTINFO.getUnixtime
  rw [h, if_neg (by decide)]
  apply UInt64.toNat_inj.mp
  rw [UInt32.toNat_toUInt64, UInt64.toNat_toUInt32, Nat.mod_eq_of_lt hnat]

theorem ofInt_toUInt64 (ts : UInt32) : UInt64.ofInt (ts.toNat : Int) = ts.toUInt64 := by
  have hlt := ts.toNat_lt
  apply UInt64.toNat_inj.mp
  rw [UInt32.toNat_toUInt64]
  simp [UInt64.ofInt]
  omega

theorem ofInt_type (n : UInt32) : UInt32.ofInt (n.toNat : Int) = n := by
  have hlt := n.toNat_lt
  have hmod : (n.toNat : Int) % 4294967296 = n.toNat := by omega
  simp [UInt32.ofInt, hmod]

structure ReadAs (env : Environment) (e old r : DBEVENTINFO) : Prop where
  eventType : r.eventType = e.eventType
  iTimestamp : r.iTimestamp = e.getUnixtime.toUInt64
  bSent : r.flags.bSent = e.flags.bSent
  bRead : r.flags.bRead = e.flags.bRead
  szModule :
    r.szModule =
      if e.szModule = env.Proto_GetBaseAccountName e.hContact then old.szModule else (given e.szModule).or old.szModule
  szId : r.szId = given e.szId
  szReplyId : r.szReplyId = given e.szReplyId
  pBlob :
    r.pBlob =
      match shownText env e with
      | none => old.pBlob
      | some text => some (List.replicate (bodyOffset e.eventType) 0 ++ text.bytes)
  bUtf : r.flags.bUtf = (shownText env e).isSome

theorem readBody_nodeRead {e dbei : DBEVENTINFO} (hfile : dbei.eventType ≠ EVENTTYPE_FILE)
    : readBody env (nodeRead e env) dbei
        =
      match shownText env e with
      | none => dbei
      | some text =>
        { dbei with
          flags := { dbei.flags with bUtf := true }
          pBlob := some (List.replicate (bodyOffset dbei.eventType) 0 ++ text.bytes) } := by
  unfold readBody
  rw [if_neg hfile]
  simp only []
  rw [as_string_body]
  cases htext : shownText env e with
  | none => rfl
  | some text =>
    have hne : text.bytes ≠ [] := by
      unfold shownText given at htext
      obtain ⟨s, _, hs⟩ := Option.bind_eq_some_iff.mp htext
      unfold nonEmpty at hs
      split at hs
      . cases hs
      . next hne =>
        cases hs
        exact hne
    rw [Option.getD_some, if_neg hne]

def afterRead (env : Environment) (e old : DBEVENTINFO) : DBEVENTINFO :=
  { old with
    eventType := e.eventType
    iTimestamp := e.getUnixtime.toUInt64
    flags := { bSent := e.flags.bSent, bRead := e.flags.bRead, bUtf := (shownText env e).isSome }
    szModule :=
      if e.szModule = env.Proto_GetBaseAccountName e.hContact then old.szModule else (given e.szModule).or old.szModule
    szId := given e.szId
    szReplyId := given e.szReplyId
    szUserId := if (given e.szReplyId).isSome then none else some .empty
    pBlob :=
      match shownText env e with
      | none => old.pBlob
      | some text => some (List.replicate (bodyOffset e.eventType) 0 ++ text.bytes) }

theorem module_or (s : CStr) (old : Option CStr) : (if s.bytes = [] then old else some s) = (nonEmpty s).or old := by
  unfold nonEmpty
  split <;> rfl

theorem userId_of_nonEmpty (s : CStr) : (if s.bytes = [] then some s else none)
    = if (nonEmpty s).isSome then none else some CStr.empty := by
  unfold nonEmpty
  split
  . next hnil => simpa using CStr.ext_bytes hnil
  . rfl

theorem GetEvent_nodeRead {db : CDbxJson} {iEvent : MEVENT} {e : DBEVENTINFO}
    (hnode : db.nodeOf iEvent = some (nodeRead e env)) (hfile : e.eventType ≠ EVENTTYPE_FILE)
    (htype : e.eventType < 0x80000000) (hid : ∀ s ∈ e.szId, IsAscii s) (hreply : ∀ s ∈ e.szReplyId, IsAscii s)
    (old : DBEVENTINFO)
    : db.GetEvent env iEvent old = some (afterRead env e old) := by
  have hszId := @read_id env e szServerId e.szId (by simp [fields]) hid
  have hszReplyId := @read_id env e szReplyId e.szReplyId (by simp [fields]) hreply
  have hmodule := module_or (CStr.ofMem ((nodeRead e env).at_ szModule.bytes).as_string) old.szModule
  have huser := userId_of_nonEmpty (env.WideCharToMultiByte (as_mstring ((nodeRead e env).at_ szReplyId.bytes)))
  rw [hszReplyId] at huser
  have hor : (nonEmpty (CStr.ofMem ((nodeRead e env).at_ szModule.bytes).as_string)).or old.szModule
      = if e.szModule = env.Proto_GetBaseAccountName e.hContact then old.szModule
        else (given e.szModule).or old.szModule := by
    rw [read_module]
    split
    . rfl
    . rw [nonEmpty_getD]
  unfold CDbxJson.GetEvent
  rw [hnode]
  simp only [Option.bind_eq_bind, Option.bind_some, Option.pure_def]
  rw [read_type e htype, read_time e]
  simp only [Option.bind_some]
  rw [hszId, hszReplyId, huser, hmodule, hor, read_flags, ofInt_type, ofInt_toUInt64, readBody_nodeRead]
  . unfold afterRead
    cases shownText env e with
    | none => rfl
    | some text => rfl
  . exact hfile

theorem readAs_afterRead (e old : DBEVENTINFO) : ReadAs env e old (afterRead env e old) where
  eventType := rfl
  iTimestamp := rfl
  bSent := rfl
  bRead := rfl
  szModule := rfl
  szId := rfl
  szReplyId := rfl
  pBlob := rfl
  bUtf := rfl

inductive Visits (step : MEVENT → MEVENT) : MEVENT → List MEVENT → Prop where
  | done : Visits step 0 []
  | event {iEvent : MEVENT} {rest : List MEVENT} (hne : iEvent ≠ 0) (h : Visits step (step iEvent) rest)
      : Visits step iEvent (iEvent :: rest)

theorem visits_next (db : CDbxJson) {k : Nat} (hk : k < db.GetEventCount)
    : Visits db.FindNextEvent (db.GetEventCount - k) (List.range' (db.GetEventCount - k) (k + 1)) := by
  induction k with
  | zero =>
    have hend : db.FindNextEvent db.GetEventCount = 0 := if_pos (Nat.le_refl _)
    apply Visits.event (Nat.sub_ne_zero_of_lt hk)
    rw [Nat.sub_zero, hend]
    exact .done
  | succ k ih =>
    have hstart : db.GetEventCount - (k + 1) + 1 = db.GetEventCount - k := by omega
    have hlt : ¬db.GetEventCount ≤ db.GetEventCount - (k + 1) := by omega
    have hnext : db.FindNextEvent (db.GetEventCount - (k + 1)) = db.GetEventCount - k := by
      unfold CDbxJson.FindNextEvent
      rw [if_neg hlt, hstart]
    rw [List.range'_succ]
    apply Visits.event (Nat.sub_ne_zero_of_lt hk)
    rw [hnext, hstart]
    exact ih (by omega)

theorem FindPrevEvent_succ (n : Nat) : CDbxJson.FindPrevEvent (n + 1) = n := by
  unfold CDbxJson.FindPrevEvent
  cases n with
  | zero => rfl
  | succ n => exact if_neg (Nat.not_le.mpr (Nat.succ_lt_succ n.succ_pos))

theorem visits_prev (n : Nat) : Visits CDbxJson.FindPrevEvent n (List.range' 1 n).reverse := by
  induction n with
  | zero => exact .done
  | succ n ih =>
    rw [List.range'_concat, List.reverse_append, Nat.one_mul, Nat.add_comm 1 n]
    apply Visits.event (Nat.succ_ne_zero n)
    rw [FindPrevEvent_succ]
    exact ih

def asciiPage (s : WStr) : CStr := .ofMem (s.chars.map fun c => if c < 0x80 then c.toUInt8 else 0x3F)

theorem asciiPage_ascii (s : CStr) (h : ∀ c ∈ s.bytes, c < 0x80)
    : asciiPage (.ofMem (s.bytes.map UInt8.toUInt16)) = s := by
  have hwide : (WStr.ofMem (s.bytes.map UInt8.toUInt16)).chars = s.bytes.map UInt8.toUInt16 := by
    apply List.takeWhile_eq_self_iff.mpr
    intro c hc
    obtain ⟨b, hb, rfl⟩ := List.mem_map.mp hc
    have hne : b.toUInt16 ≠ 0 := by
      intro heq
      have hzero : b = 0 := UInt8.toNat_inj.mp (by simpa using congrArg UInt16.toNat heq)
      exact s.nul_notMem (hzero ▸ hb)
    simpa using hne
  have hback : (s.bytes.map UInt8.toUInt16).map (fun c => if c < 0x80 then c.toUInt8 else 0x3F) = s.bytes := by
    rw [List.map_map, List.map_congr_left (g := id), List.map_id]
    intro c hc
    have hlow : c.toUInt16 < 0x80 := by
      have := UInt8.lt_iff_toNat_lt.mp (h c hc)
      apply UInt16.lt_iff_toNat_lt.mpr
      simpa using this
    simp only [Function.comp_apply, id_eq]
    rw [if_pos hlow]
    simp
  unfold asciiPage
  rw [hwide, hback, CStr.ofMem_bytes]

def sample : Environment where
  textService := fun _ _ => none
  fileText := fun _ => .lit ""
  Clist_GetContactDisplayName := fun _ => .lit "Alice"
  mir_a2u := fun s => .ofMem (s.bytes.map UInt8.toUInt16)
  mir_a2u_cp_acp := fun s => .ofMem (s.bytes.map UInt8.toUInt16)
  iswspace := fun c => c = 0x20
  authorizationRequest := fun who nick reason => .lit "Authorization request from " ++ who ++ nick ++ .lit ": " ++ reason
  youWereAdded := fun who nick => .lit "You were added by " ++ who ++ nick
  contacts := .lit "Contacts: "
  Proto_GetBaseAccountName := fun _ => some (key "JABBER")
  settings := fun _ _ => [(key "Nick", .utf8 (key "Alice"))]
  mktime := fun _ => -1
  WideCharToMultiByte := asciiPage
  readFileBlob := fun _ dbei => dbei
  ascii := asciiPage_ascii

def ownMessage : DBEVENTINFO where
  szModule := some (key "JABBER")
  iTimestamp := 1700000000
  flags := { bSent := true, bUtf := true }
  hContact := 1
  pBlob := some ((key "hello").bytes ++ [0])

def otherMessage : DBEVENTINFO where
  szModule := some (key "Weather")
  iTimestamp := 1700000060
  flags := { bRead := true, bUtf := true }
  hContact := 1
  pBlob := some (key "rain").bytes
  szId := some (key "17")
  szReplyId := some (key "16")

theorem read_of_exported {events : List DBEVENTINFO} {file : List UInt8} (h : Exported env hContact events file)
    : (Open file).GetEventCount = events.length
      ∧ (∀ i e, events[i]? = some e → e.eventType ≠ EVENTTYPE_FILE → e.eventType < 0x80000000
          → (∀ s ∈ e.szId, IsAscii s) → (∀ s ∈ e.szReplyId, IsAscii s)
          → ∀ old, ∃ r, (Open file).GetEvent env (i + 1) old = some r ∧ ReadAs env e old r
            ∧ (e.flags.bMsec = false → e.iTimestamp < 0x100000000 → r.iTimestamp = e.iTimestamp)
            ∧ ∀ text, IsText env e text → text.bytes ≠ [] → r.pBlob = some text.bytes)
      ∧ (events ≠ []
          → Visits (Open file).FindNextEvent CDbxJson.FindFirstEvent (List.range' 1 events.length))
      ∧ Visits CDbxJson.FindPrevEvent events.length (List.range' 1 events.length).reverse := by
  have hnodes : (Open file).m_events = events.map fun e => nodeRead e env := by
    rw [exported_fileText h, Open_fileText, List.map_map]
    rfl
  have hcount : (Open file).GetEventCount = events.length := by
    unfold CDbxJson.GetEventCount
    rw [hnodes, List.length_map]
  refine ⟨hcount, ?_, ?_, visits_prev events.length⟩
  . intro i e he hfile htype hid hreply old
    have hnode : (Open file).nodeOf (i + 1) = some (nodeRead e env) := by
      unfold CDbxJson.nodeOf
      rw [if_neg (Nat.succ_ne_zero i), Nat.add_sub_cancel, hnodes, List.getElem?_map, he]
      rfl
    refine ⟨_, GetEvent_nodeRead hnode hfile htype hid hreply old, readAs_afterRead e old, ?_, ?_⟩
    . intro hsec hlt
      exact getUnixtime_seconds hsec hlt
    . intro text htext hne
      have hshown : shownText env e = some text := by
        rw [shownText_of_isText htext]
        unfold nonEmpty
        exact if_neg hne
      have hoffset : bodyOffset e.eventType = 0 := by
        unfold bodyOffset
        rw [if_neg htext.noAuth.2, if_neg htext.noAuth.1]
      unfold afterRead
      simp only []
      rw [hshown, hoffset]
      rfl
  . intro hne
    have hpos := List.length_pos_iff.mpr hne
    have hall := visits_next (Open file) (Nat.sub_lt (hcount ▸ hpos) Nat.one_pos)
    have hone : (Open file).GetEventCount - ((Open file).GetEventCount - 1) = 1 := by omega
    have hsize : (Open file).GetEventCount - 1 + 1 = events.length := by omega
    rw [hone, hsize] at hall
    exact hall

theorem read_of_exported_other
    : ∃ r, (Open (exportHistory sample 1 [] [ownMessage, otherMessage])).GetEvent sample 2 {} = some r
        ∧ r.eventType = 0 ∧ r.iTimestamp = 1700000060 ∧ r.flags.bRead = true
        ∧ r.szModule = some (key "Weather") ∧ r.szId = some (key "17") ∧ r.szReplyId = some (key "16")
        ∧ r.pBlob = some (key "rain").bytes := by
  have hascii : ∀ s ∈ [key "17", key "16"], ∀ c ∈ s.bytes, c < 0x80 := by decide +kernel
  have htext : IsText sample otherMessage (key "rain") :=
    ⟨rfl, by decide, by decide, by decide, rfl, rfl, by decide +kernel, Utf.IsText.of_ascii (by decide +kernel)⟩
  obtain ⟨_, hread, _, _⟩ := read_of_exported (@Exported.first sample 1 [ownMessage, otherMessage])
  obtain ⟨r, hr, has, hseconds, hblob⟩ := hread 1 otherMessage rfl (by decide) (by decide)
    (fun s hs => hascii s (by cases hs; exact .head _)) (fun s hs => hascii s (by cases hs; exact .tail _ (.head _))) {}
  have hmodule : otherMessage.szModule ≠ sample.Proto_GetBaseAccountName otherMessage.hContact := by decide +kernel
  refine ⟨r, hr, has.eventType, hseconds rfl (by decide), has.bRead, ?_, ?_, ?_, hblob _ htext (by decide +kernel)⟩
  . rw [has.szModule, if_neg hmodule]
    decide +kernel
  . rw [has.szId]
    decide +kernel
  . rw [has.szReplyId]
    decide +kernel

-- The module of the own account is not in the file, and what the caller had stays.
theorem not_read_ownModule
    : ¬∀ r, (Open (exportHistory sample 1 [] [ownMessage])).GetEvent sample 1 {} = some r
        → r.szModule = ownMessage.szModule := by
  have hread : ((Open (exportHistory sample 1 [] [ownMessage])).GetEvent sample 1 {}).map (·.szModule) = some none := by
    decide +kernel
  obtain ⟨r, hr, hmodule⟩ := Option.map_eq_some_iff.mp hread
  intro hall
  have hsame := hall r hr
  rw [hmodule] at hsame
  cases hsame

end Import
