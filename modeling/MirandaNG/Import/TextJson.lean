import MirandaNG.Import.EventInfo
import MirandaNG.Core.UtfText
import MirandaNG.LibJson.RoundTrip

/-!
This module contains the files a history is exported to as JSON text, and the driver that reads them: what is
written for a contact and for each of its events, and what `GetEvent` makes of a node of the history.

It also contains what is read of an exported history: the nodes that are found in the file, and the
events that are made of them.
-/

namespace Import

open LibJson

structure OutFile where
  content : List UInt8
  pos : Nat

namespace OutFile

def WriteFile (f : OutFile) (s : List UInt8) : OutFile where
  content :=
    f.content.take f.pos ++ List.replicate (f.pos - f.content.length) 0 ++ s ++ f.content.drop (f.pos + s.length)
  pos := f.pos + s.length

-- A place before the start of the file is refused.
def SetFilePointer (f : OutFile) (back : Nat) : OutFile :=
  if f.content.length < back then f else { f with pos := f.content.length - back }

end OutFile

def key (s : String) : CStr := .ofMem (s.toList.map fun c => c.toNat.toUInt8)

def szInfo : CStr := key "info"
def szProto : CStr := key "proto"
def szHistory : CStr := key "history"
def szType : CStr := key "type"
def szValue : CStr := key "value"
def szModule : CStr := key "module"
def szTimestamp : CStr := key "timestamp"
def szIsoTime : CStr := key "isotime"
def szFlags : CStr := key "flags"
def szBody : CStr := key "body"
def szServerId : CStr := key "server_id"
def szUserId : CStr := key "user_id"
def szReplyId : CStr := key "reply_id"
def szTime : CStr := key "time"
def szTimeStamp : CStr := key "timeStamp"

inductive DBVARIANT where
  | byte (bVal : UInt8)
  | word (wVal : UInt16)
  | dword (dVal : UInt32)
  | asciiz (pszVal : CStr)
  | utf8 (pszVal : CStr)
  | wchar (pwszVal : WStr)
  | blob (pbVal : List UInt8)
  | other (type : UInt8)

-- What the driver calls on, and what a code page does to the characters that all of them have
structure Environment extends Services where
  Proto_GetBaseAccountName : MCONTACT → Option CStr
  settings : MCONTACT → Option CStr → List (CStr × DBVARIANT)
  mktime : IsoTime.Tm → Int
  WideCharToMultiByte : WStr → CStr
  readFileBlob : JSONNode → DBEVENTINFO → DBEVENTINFO
  ascii : ∀ s : CStr, (∀ c ∈ s.bytes, c < 0x80) → WideCharToMultiByte (.ofMem (s.bytes.map UInt8.toUInt16)) = s

variable (env : Environment)

def charNode (s : Option CStr) : Built := .string (s.getD .empty)

def T2Utf (s : WStr) : Option CStr := Utf.mir_utf8encodeW s.chars

def numberNode (n : Nat) : Built := .number n

def hexChar (d : UInt8) : UInt8 := if d < 10 then 0x30 + d else 0x57 + d

def bin2hex (pbVal : List UInt8) : CStr :=
  .ofMem (pbVal.flatMap fun c : UInt8 => [hexChar (c >>> 4), hexChar (c &&& 0x0F)])

def settingNode : DBVARIANT → Option Built
  | .byte bVal => some (.node (.ofList [(szType, numberNode 1), (szValue, numberNode bVal.toNat)]))
  | .word wVal => some (.node (.ofList [(szType, numberNode 2), (szValue, numberNode wVal.toNat)]))
  | .dword dVal => some (.node (.ofList [(szType, numberNode 4), (szValue, numberNode dVal.toNat)]))
  | .asciiz pszVal => some (.node (.ofList [(szType, numberNode 255), (szValue, charNode (some pszVal))]))
  | .utf8 pszVal => some (.node (.ofList [(szType, numberNode 253), (szValue, charNode (some pszVal))]))
  | .wchar pwszVal => some (.node (.ofList [(szType, numberNode 252), (szValue, charNode (T2Utf pwszVal))]))
  | .blob pbVal => some (.node (.ofList [(szType, numberNode 254), (szValue, charNode (some (bin2hex pbVal)))]))
  | .other _ => none

def infoNode (hContact : MCONTACT) : Built :=
  let proto := env.Proto_GetBaseAccountName hContact
  .node (.ofList ((proto.toList.map fun name => (szProto, charNode (some name))) ++
    (env.settings hContact proto).filterMap fun it => (settingNode it.2).map fun node => (it.1, node)))

def contactNode (hContact : MCONTACT) (history : Children) : Built :=
  .node (.ofList [(szInfo, infoNode env hContact), (szHistory, .array history)])

def flagsText (flags : EventFlags) : CStr :=
  .ofMem ((if flags.bSent then [0x6D] else []) ++ (if flags.bRead then [0x72] else []))

def optional (name : CStr) (value : Option CStr) : List (CStr × Built) :=
  value.toList.map fun s => (name, charNode (some s))

def eventFields (dbei : DBEVENTINFO) : List (CStr × Built) :=
  [(szType, numberNode dbei.eventType.toNat)] ++
    (if dbei.szModule = env.Proto_GetBaseAccountName dbei.hContact then [] else [(szModule, charNode dbei.szModule)]) ++
    [(szTimestamp, numberNode dbei.getUnixtime.toNat),
      (szIsoTime, charNode (some (.ofMem (IsoTime.TimeZone_PrintTimeStamp dbei.getUnixtime)))),
      (szFlags, charNode (some (flagsText dbei.flags)))] ++
    ((dbei.getText env.toServices).toList.map fun msg => (szBody, charNode (T2Utf msg))) ++
    optional szServerId dbei.szId ++ optional szUserId dbei.szUserId ++ optional szReplyId dbei.szReplyId

def eventNode (dbei : DBEVENTINFO) : Built := .node (.ofList (eventFields env dbei))

structure Exporter where
  m_out : OutFile
  m_bAppend : Bool := true

namespace Exporter

variable (d : Exporter)

def Create (content : List UInt8) : Exporter := { m_out := (OutFile.mk content 0).SetFilePointer 3 }

def BeginExport : Bool := d.m_out.content ≠ []

def ExportContact (hContact : MCONTACT) : Exporter where
  m_out := (d.m_out.WriteFile (contactNode env hContact .nil).write_formatted).SetFilePointer 3
  m_bAppend := false

def ExportEvent (dbei : DBEVENTINFO) : Exporter where
  m_out :=
    let m_out := if d.m_bAppend then (d.m_out.SetFilePointer 3).WriteFile [0x2C] else d.m_out
    (m_out.WriteFile (eventNode env dbei).write_formatted).WriteFile [0x0A, 0x5D, 0x7D]
  m_bAppend := true

end Exporter

def exportHistory (hContact : MCONTACT) (content : List UInt8) (events : List DBEVENTINFO) : List UInt8 :=
  let d := Exporter.Create content
  let d := if d.BeginExport then d else d.ExportContact env hContact
  (events.foldl (fun d dbei => d.ExportEvent env dbei) d).m_out.content

abbrev MEVENT := Nat

def as_mstring (node : JSONNode) : WStr := (DBEVENTINFO.decodeW (.ofMem node.as_string)).getD (.lit "")

structure CDbxJson where
  m_events : List JSONNode

def Open (file : List UInt8) : CDbxJson where
  m_events := ((json_parse (.ofMem file)).at_ szHistory.bytes).children

def timeOf (convert : IsoTime.Tm → Int) (st : Option IsoTime.Tm) : Int :=
  match st with
  | none => 0
  | some st =>
    let tm := convert { st with tm_mon := st.tm_mon - 1, tm_year := st.tm_year - 1900 }
    if tm = -1 then 0 else tm

def readTime (node : JSONNode) : Option Int :=
  let time := (node.at_ szTime.bytes).as_string
  let isotime := (node.at_ szIsoTime.bytes).as_string
  let iTimestamp :=
    if time ≠ [] then timeOf env.mktime (IsoTime.scanLocalTime time)
    else if isotime ≠ [] then timeOf IsoTime._mkgmtime (IsoTime.scanIsoTime isotime)
    else 0
  if iTimestamp = 0 then (node.at_ szTimeStamp.bytes).as_int else some iTimestamp

def readFlags (flags : List UInt8) : EventFlags :=
  flags.foldl (fun flags c =>
    if c = 0x6D then { flags with bSent := true } else if c = 0x72 then { flags with bRead := true } else flags) {}

def nonEmpty (s : CStr) : Option CStr := if s.bytes = [] then none else some s

def bodyOffset (eventType : UInt32) : Nat :=
  if eventType = EVENTTYPE_ADDED then 4 else if eventType = EVENTTYPE_AUTHREQUEST then 8 else 0

def readBody (node : JSONNode) (dbei : DBEVENTINFO) : DBEVENTINFO :=
  if dbei.eventType = EVENTTYPE_FILE then
    env.readFileBlob node { dbei with flags := { dbei.flags with bUtf := true } }
  else
    let body := (node.at_ szBody.bytes).as_string
    if body = [] then dbei
    else
      { dbei with
        flags := { dbei.flags with bUtf := true }
        pBlob := some (List.replicate (bodyOffset dbei.eventType) 0 ++ body) }

namespace CDbxJson

variable (db : CDbxJson)

def GetEventCount : Nat := db.m_events.length

def nodeOf (iEvent : MEVENT) : Option JSONNode := if iEvent = 0 then none else db.m_events[iEvent - 1]?

-- Behind the fields that a node has for it, an event keeps what the caller put there. There is no answer
-- where the call fails, or where a number is not in the range of `int`.
def GetEvent (iEvent : MEVENT) (dbei : DBEVENTINFO) : Option DBEVENTINFO := do
  let node ← db.nodeOf iEvent
  let eventType ← (node.at_ szType.bytes).as_int
  let iTimestamp ← readTime env node
  let module_ := CStr.ofMem (node.at_ szModule.bytes).as_string
  let m_szId := env.WideCharToMultiByte (as_mstring (node.at_ szServerId.bytes))
  let m_szReplyId := env.WideCharToMultiByte (as_mstring (node.at_ szReplyId.bytes))
  let m_szUserId := env.WideCharToMultiByte (as_mstring (node.at_ szReplyId.bytes))
  return readBody env node { dbei with
    eventType := .ofInt eventType
    iTimestamp := .ofInt iTimestamp
    flags := readFlags (node.at_ szFlags.bytes).as_string
    szModule := if module_.bytes = [] then dbei.szModule else some module_
    szId := nonEmpty m_szId
    szReplyId := nonEmpty m_szReplyId
    szUserId := if m_szUserId.bytes = [] then some m_szUserId else none }

def FindFirstEvent : MEVENT := 1

def FindNextEvent (iEvent : MEVENT) : MEVENT := if db.GetEventCount ≤ iEvent then 0 else iEvent + 1

def FindLastEvent : MEVENT := if db.GetEventCount = 0 then 0 else db.GetEventCount - 1

def FindPrevEvent (iEvent : MEVENT) : MEVENT := if iEvent ≤ 1 then 0 else iEvent - 1

end CDbxJson
end Import

namespace Import

open LibJson

variable {env : Environment} {hContact : MCONTACT}

def front (env : Environment) (hContact : MCONTACT) : List UInt8 :=
  0x7B :: (newLine (some 1) ++ WriteName true false szInfo ++ (infoNode env hContact).Write (some 1) ++
    0x2C :: (newLine (some 1) ++ WriteName true false szHistory ++ [0x5B]))

def joined : List Built → List UInt8
  | [] => []
  | [v] => v.write_formatted
  | v :: v' :: rest => v.write_formatted ++ 0x2C :: joined (v' :: rest)

def ending (nodes : List Built) : List UInt8 := if nodes = [] then [0x5D, 0x0A, 0x7D] else [0x0A, 0x5D, 0x7D]

def fileText (env : Environment) (hContact : MCONTACT) (nodes : List Built) : List UInt8 :=
  front env hContact ++ joined nodes ++ ending nodes

theorem contactNode_formatted
    : (contactNode env hContact .nil).write_formatted = front env hContact ++ [0x5D, 0x0A, 0x7D] := by
  unfold contactNode Built.write_formatted front
  simp [Built.Write, Children.ofList, Children.WriteChildren, newLine, makeIndent]

theorem joined_concat (nodes : List Built) (v : Built)
    : joined (nodes ++ [v]) = joined nodes ++ (if nodes = [] then [] else [0x2C]) ++ v.write_formatted := by
  fun_induction joined nodes with
  | case1 => rfl
  | case2 v' => simp [joined]
  | case3 v' v'' rest ih =>
    rw [List.cons_append, List.cons_append, joined, ← List.cons_append, ih]
    simp

theorem clean_formatted (v : Built) (s : List UInt8)
    : RemoveWhiteSpace .plain (v.write_formatted ++ s) = v.compact ++ RemoveWhiteSpace .plain s :=
  RemoveWhiteSpace_Write v (some 0) s

theorem clean_joined (nodes : List Built) (s : List UInt8)
    : RemoveWhiteSpace .plain (joined nodes ++ s)
        =
      (Children.ofList (nodes.map fun v => (.empty, v))).compact true ++ RemoveWhiteSpace .plain s := by
  fun_induction joined nodes with
  | case1 => rfl
  | case2 v =>
    rw [clean_formatted]
    simp [Children.ofList, Children.compact, compactName]
  | case3 v v' rest ih =>
    rw [List.append_assoc, clean_formatted, List.cons_append, RemoveWhiteSpace_kept rfl, ih]
    simp [Children.ofList, Children.compact, compactName]

theorem clean_front (s : List UInt8)
    : RemoveWhiteSpace .plain (front env hContact ++ s)
        =
      0x7B :: (compactName false szInfo ++ (infoNode env hContact).compact ++
        0x2C :: (compactName false szHistory ++ 0x5B :: RemoveWhiteSpace .plain s)) := by
  unfold front
  simp only [List.cons_append, List.append_assoc, List.nil_append]
  rw [RemoveWhiteSpace_kept rfl, white_newLine, RemoveWhiteSpace_name, RemoveWhiteSpace_Write,
    RemoveWhiteSpace_kept rfl, white_newLine, RemoveWhiteSpace_name, RemoveWhiteSpace_kept rfl]

theorem clean_ending (nodes : List Built) : RemoveWhiteSpace .plain (ending nodes) = [0x5D, 0x7D] := by
  unfold ending
  split <;> rfl

theorem clean_fileText (nodes : List Built)
    : RemoveWhiteSpace .plain (fileText env hContact nodes)
        =
      (contactNode env hContact (.ofList (nodes.map fun v => (.empty, v)))).compact := by
  unfold fileText
  rw [List.append_assoc, clean_front, clean_joined, clean_ending]
  unfold contactNode
  simp [Built.compact, Children.ofList, Children.compact]

namespace OutFile

theorem WriteFile_at (a b s : List UInt8)
    : (OutFile.mk (a ++ b) a.length).WriteFile s = ⟨a ++ s ++ b.drop s.length, (a ++ s).length⟩ := by
  unfold WriteFile
  simp

theorem WriteFile_two {a b s t : List UInt8} (h : b.length ≤ t.length)
    : (((OutFile.mk (a ++ b) a.length).WriteFile s).WriteFile t).content = a ++ s ++ t := by
  have hrest : (b.drop s.length).drop t.length = [] := by
    apply List.drop_eq_nil_of_le
    rw [List.length_drop]
    omega
  rw [WriteFile_at, WriteFile_at, hrest, List.append_nil]

theorem SetFilePointer_back {a b : List UInt8} {pos : Nat}
    : (OutFile.mk (a ++ b) pos).SetFilePointer b.length = ⟨a ++ b, a.length⟩ := by
  unfold SetFilePointer
  simp

end OutFile

structure Holds (d : Exporter) (env : Environment) (hContact : MCONTACT) (nodes : List Built) : Prop where
  content : d.m_out.content = fileText env hContact nodes
  append : nodes ≠ [] → d.m_bAppend = true
  start : nodes = [] → d.m_bAppend = false ∧ d.m_out.pos = (front env hContact).length

theorem holds_ExportContact {d : Exporter} (h : d.m_out.content = []) (hpos : d.m_out.pos = 0)
    : Holds (d.ExportContact env hContact) env hContact [] := by
  obtain ⟨⟨content, pos⟩, m_bAppend⟩ := d
  simp only [] at h hpos
  rw [h, hpos]
  have hwrite := OutFile.WriteFile_at [] [] (contactNode env hContact .nil).write_formatted
  have hout : (Exporter.ExportContact env ⟨⟨[], 0⟩, m_bAppend⟩ hContact).m_out
      = ⟨fileText env hContact [], (front env hContact).length⟩ := by
    unfold Exporter.ExportContact
    simp only []
    rw [List.nil_append, List.length_nil, List.drop_nil, List.append_nil, List.nil_append, contactNode_formatted] at hwrite
    rw [contactNode_formatted, hwrite]
    have hback := @OutFile.SetFilePointer_back (front env hContact) [0x5D, 0x0A, 0x7D]
      (front env hContact ++ [0x5D, 0x0A, 0x7D]).length
    unfold fileText joined ending
    rw [if_pos rfl, List.append_nil]
    exact hback
  constructor
  . rw [hout]
  . intro hne
    exact absurd rfl hne
  . intro _
    rw [hout]
    exact ⟨rfl, rfl⟩

theorem holds_ExportEvent {d : Exporter} {nodes : List Built} (h : Holds d env hContact nodes) (dbei : DBEVENTINFO)
    : Holds (d.ExportEvent env dbei) env hContact (nodes ++ [eventNode env dbei]) := by
  obtain ⟨hcontent, happend, hstart⟩ := h
  obtain ⟨⟨content, pos⟩, m_bAppend⟩ := d
  simp only [] at hcontent happend hstart
  have hout : (Exporter.ExportEvent env ⟨⟨content, pos⟩, m_bAppend⟩ dbei).m_out.content
      = fileText env hContact (nodes ++ [eventNode env dbei]) := by
    unfold Exporter.ExportEvent fileText
    rw [joined_concat, ending, if_neg (List.append_ne_nil_of_right_ne_nil _ (List.cons_ne_nil _ _))]
    simp only []
    by_cases hnil : nodes = []
    . obtain ⟨hflag, hpos⟩ := hstart hnil
      have htext := @OutFile.WriteFile_two (front env hContact) [0x5D, 0x0A, 0x7D] (eventNode env dbei).write_formatted
        [0x0A, 0x5D, 0x7D] (Nat.le_refl _)
      rw [hcontent, hflag, hpos, hnil]
      unfold fileText joined ending
      simpa using htext
    . have hback := @OutFile.SetFilePointer_back (front env hContact ++ joined nodes) [0x0A, 0x5D, 0x7D] pos
      have hcomma := OutFile.WriteFile_at (front env hContact ++ joined nodes) [0x0A, 0x5D, 0x7D] [0x2C]
      have htext := @OutFile.WriteFile_two (front env hContact ++ joined nodes ++ [0x2C]) [0x5D, 0x7D]
        (eventNode env dbei).write_formatted [0x0A, 0x5D, 0x7D] (by decide)
      have hthree : (3 : Nat) = [(0x0A : UInt8), 0x5D, 0x7D].length := rfl
      rw [happend hnil, hcontent, if_pos rfl, if_neg hnil]
      unfold fileText ending
      rw [if_neg hnil, hthree, hback, hcomma]
      simpa using htext
  constructor
  . exact hout
  . intro _
    rfl
  . intro hnil
    exact absurd hnil (List.append_ne_nil_of_right_ne_nil _ (List.cons_ne_nil _ _))

theorem holds_events {d : Exporter} {nodes : List Built} (h : Holds d env hContact nodes) (events : List DBEVENTINFO)
    : Holds (events.foldl (fun d dbei => d.ExportEvent env dbei) d) env hContact
        (nodes ++ events.map (eventNode env)) := by
  induction events generalizing d nodes with
  | nil => simpa using h
  | cons dbei events ih =>
    have hrest := ih (holds_ExportEvent h dbei)
    simpa using hrest

inductive Exported (env : Environment) (hContact : MCONTACT) : List DBEVENTINFO → List UInt8 → Prop where
  | first (events : List DBEVENTINFO) : Exported env hContact events (exportHistory env hContact [] events)
  | again {before : List DBEVENTINFO} {file : List UInt8} (h : Exported env hContact before file) (hne : before ≠ [])
      (events : List DBEVENTINFO)
      : Exported env hContact (before ++ events) (exportHistory env hContact file events)

theorem exportHistory_new (events : List DBEVENTINFO)
    : exportHistory env hContact [] events = fileText env hContact (events.map (eventNode env)) := by
  have hstart := @holds_ExportContact env hContact (Exporter.Create []) rfl rfl
  exact (holds_events hstart events).content

theorem exportHistory_more {nodes : List Built} (hne : nodes ≠ []) (events : List DBEVENTINFO)
    : exportHistory env hContact (fileText env hContact nodes) events
        =
      fileText env hContact (nodes ++ events.map (eventNode env)) := by
  have hcontent : (Exporter.Create (fileText env hContact nodes)).m_out.content = fileText env hContact nodes := by
    unfold Exporter.Create OutFile.SetFilePointer
    split <;> rfl
  have hbegin : (Exporter.Create (fileText env hContact nodes)).BeginExport = true := by
    unfold Exporter.BeginExport
    rw [hcontent]
    unfold fileText front
    simp
  have hstart : Holds (Exporter.Create (fileText env hContact nodes)) env hContact nodes :=
    ⟨hcontent, fun _ => rfl, fun hnil => absurd hnil hne⟩
  unfold exportHistory
  simp only []
  rw [if_pos hbegin]
  exact (holds_events hstart events).content

theorem exported_fileText {events : List DBEVENTINFO} {file : List UInt8} (h : Exported env hContact events file)
    : file = fileText env hContact (events.map (eventNode env)) := by
  induction h with
  | first events => exact exportHistory_new events
  | again h hne events ih =>
    rw [ih, exportHistory_more (by simpa using hne), List.map_append]

theorem front_ne_zero : 0 ∉ front env hContact := by
  have hwhole := Write_ne_zero (contactNode env hContact .nil) (some 0)
  have hformatted := @contactNode_formatted env hContact
  unfold Built.write_formatted at hformatted
  rw [hformatted] at hwhole
  exact fun hmem => hwhole (List.mem_append_left _ hmem)

theorem joined_ne_zero (nodes : List Built) : 0 ∉ joined nodes := by
  fun_induction joined nodes with
  | case1 => simp
  | case2 v => exact Write_ne_zero v (some 0)
  | case3 v v' rest ih =>
    have hv := Write_ne_zero v (some 0)
    unfold Built.write_formatted
    simp [hv, ih]

theorem fileText_ne_zero (nodes : List Built) : 0 ∉ fileText env hContact nodes := by
  have hfront := @front_ne_zero env hContact
  have hjoined := joined_ne_zero nodes
  unfold fileText ending
  split <;> simp [hfront, hjoined]

theorem at_history (children : Children)
    : (⟨[], (contactNode env hContact children).compact⟩ : JSONNode).at_ szHistory.bytes
        =
      ⟨szHistory.bytes, (Built.array children).compact⟩ := by
  unfold contactNode
  apply JSONNode.at_ofList
  have hne : szInfo.bytes ≠ szHistory.bytes := by decide
  rw [List.find?_cons_of_neg (by simpa using hne), List.find?_cons_of_pos (by simp)]

theorem Open_fileText (nodes : List Built)
    : (Open (fileText env hContact nodes)).m_events = nodes.map fun v => ⟨[], v.compact⟩ := by
  have hmem : (CStr.ofMem (fileText env hContact nodes)).bytes = fileText env hContact nodes := by
    apply List.takeWhile_eq_self_iff.mpr
    intro c hc
    have hne : c ≠ 0 := fun heq => fileText_ne_zero nodes (heq ▸ hc)
    simpa using hne
  have hclean : RemoveWhiteSpace .plain (CStr.ofMem (fileText env hContact nodes)).bytes
      = (contactNode env hContact (.ofList (nodes.map fun v => (.empty, v)))).compact := by
    rw [hmem, clean_fileText]
  unfold Open
  rw [json_parse_compact hclean]
  have hhistory := @at_history env hContact (.ofList (nodes.map fun v => (.empty, v)))
  unfold contactNode at hhistory
  simp only []
  rw [hhistory, JSONNode.children_array_ofList, List.map_map]
  rfl

end Import
