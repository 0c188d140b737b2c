import MirandaNG.Chat.Roles
import MirandaNG.LibJson.Text

/-!
This module contains the file a persistent chat session is kept in: what `Chat_Serialize` writes and what
`Chat_Unserialize` makes of it.

It also contains which users of a chat session come back from its file with their nicks and role
names.
-/

namespace Chat

open LibJson

def textOut (s : List UInt8) : List UInt8 := s.flatMap fun c => if c = 0x0A then [0x0D, 0x0A] else [c]

def textIn : List UInt8 → List UInt8
  | [] => []
  | 0x1A :: _ => []
  | 0x0D :: 0x0A :: s => 0x0A :: textIn s
  | c :: s => c :: textIn s

def readFile (behind : Nat → UInt8) (file : List UInt8) : List UInt8 :=
  let text := textIn file
  text ++ (List.range (file.length - text.length)).map behind

def T2Utf (value_t : WStr) : CStr := (Utf.mir_utf8encodeW value_t.chars).getD .empty

def szRoles : CStr := ⟨[0x72, 0x6F, 0x6C, 0x65, 0x73], by decide⟩
def szUsers : CStr := ⟨[0x75, 0x73, 0x65, 0x72, 0x73], by decide⟩
def szId : CStr := ⟨[0x69, 0x64], by decide⟩
def szName : CStr := ⟨[0x6E, 0x61, 0x6D, 0x65], by decide⟩
def szNick : CStr := ⟨[0x6E, 0x69, 0x63, 0x6B], by decide⟩
def szRole : CStr := ⟨[0x72, 0x6F, 0x6C, 0x65], by decide⟩
def szIsMe : CStr := ⟨[0x69, 0x73, 0x4D, 0x65], by decide⟩
def szTopic : CStr := ⟨[0x74, 0x6F, 0x70, 0x69, 0x63], by decide⟩

variable {towlower : UInt16 → UInt16}

namespace SESSION_INFO

def roleNode (it : STATUSINFO) : Built :=
  .node (.ofList [(szId, .number it.iStatus), (szName, .string (T2Utf it.pszGroup))])

def userNode (pMe : Option WStr) (it : WStr × USERINFO) : Built :=
  .node (.ofList [(szId, .string (T2Utf it.1)), (szNick, .string (T2Utf it.2.pszNick)),
    (szRole, .number it.2.Status.toNat), (szIsMe, .bool (pMe = some it.1))])

def optionalNode (name : CStr) : Option WStr → List (CStr × Built)
  | none => []
  | some value => [(name, .string (T2Utf value))]

def rootNode (si : SESSION_INFO towlower) : Built :=
  .node (.ofList ([(szRoles, .array (.ofList (si.arStatuses.list.map fun it => (.empty, roleNode it)))),
      (szUsers, .array (.ofList (si.arUsers.entries.map fun it => (.empty, userNode si.pMe it))))] ++
    optionalNode szName si.ptszName ++ optionalNode szTopic si.ptszTopic))

def Chat_Serialize (si : SESSION_INFO towlower) : SESSION_INFO towlower × Option (List UInt8) :=
  let si := { si with bIsDirty := false }
  if !si.bPersistent then
    (si, none)
  else
    match Utf.mir_utf8decodeW (.ofMem si.rootNode.write) with
    | none => (si, none)
    | some wszText => (si, (Utf.mir_utf8encodeW wszText).map fun text => textOut text.bytes)

def as_mstring (node : JSONNode) : WStr :=
  if node.type = .JSON_NULL then
    .ofMem []
  else
    .ofMem ((Utf.mir_utf8decodeW (.ofMem node.as_string)).getD [])

def nonEmpty (str : WStr) (old : Option WStr) : Option WStr := if str.chars = [] then old else some str

-- A round of the loop over the users. What `as_int` makes of a number out of range counts as 0.
def addUser (si : SESSION_INFO towlower) (it : JSONNode) : SESSION_INFO towlower :=
  let iStatus := ((it.at_ szRole.bytes).as_int).getD 0
  let pszUID := as_mstring (it.at_ szId.bytes)
  let si := si.UM_AddUser pszUID (as_mstring (it.at_ szNick.bytes)) (word iStatus)
  if (it.at_ szIsMe.bytes).as_bool then { si with pMe := some pszUID } else si

def Chat_Unserialize (si : SESSION_INFO towlower) (behind : Nat → UInt8) (file : Option (List UInt8))
    : SESSION_INFO towlower × Bool :=
  match file with
  | none => (si, false)
  | some file =>
    let root := json_parse (.ofMem (readFile behind file))
    if root.type = .JSON_NULL then
      (si, false)
    else
      let si := { si with
        ptszName := nonEmpty (as_mstring (root.at_ szName.bytes)) si.ptszName
        ptszTopic := nonEmpty (as_mstring (root.at_ szTopic.bytes)) si.ptszTopic }
      let si := (root.at_ szRoles.bytes).children.reverse.foldl
        (fun si it => si.TM_AddStatus (as_mstring (it.at_ szName.bytes))) si
      ((root.at_ szUsers.bytes).children.foldl addUser si, true)

end SESSION_INFO
end Chat

namespace Chat

open LibJson Kv

variable {towlower : UInt16 → UInt16}

theorem isText_T2Utf (s : WStr) : Utf.IsText (T2Utf s).bytes := by
  unfold T2Utf
  cases hencode : Utf.mir_utf8encodeW s.chars with
  | none => exact .nil
  | some t =>
    obtain ⟨hwell, hbytes, _⟩ := Utf.decode_of_encode s.nul_notMem hencode
    exact ⟨s.chars, hwell, hbytes.symm⟩

def comesBack (s : WStr) : WStr := .ofMem ((Utf.mir_utf8decodeW (T2Utf s)).getD [])

theorem ofMem_chars (s : WStr) : WStr.ofMem s.chars = s := by
  apply WStr.ext_chars
  apply List.takeWhile_eq_self_iff.mpr
  intro c hc
  have hne : c ≠ 0 := fun heq => s.nul_notMem (heq ▸ hc)
  simpa using hne

theorem comesBack_of_wellFormed {s : WStr} (h : Utf.WellFormed s.chars) : comesBack s = s := by
  obtain ⟨t, hencode, hbytes⟩ := Utf.encode_wellFormed h
  unfold comesBack T2Utf
  rw [hencode, Option.getD_some, Utf.decode_wellFormed h hbytes, Option.getD_some, ofMem_chars]

theorem wellFormed_comesBack (s : WStr) : Utf.WellFormed (comesBack s).chars := by
  cases hencode : Utf.mir_utf8encodeW s.chars with
  | none =>
    have hempty : (comesBack s).chars = [] := by
      unfold comesBack T2Utf
      rw [hencode]
      rfl
    rw [hempty]
    exact .nil
  | some t =>
    have hwell := (Utf.decode_of_encode s.nul_notMem hencode).1
    rw [comesBack_of_wellFormed hwell]
    exact hwell

theorem comesBack_eq_iff {s : WStr} : comesBack s = s ↔ Utf.WellFormed s.chars := by
  constructor
  . intro h
    rw [← h]
    apply wellFormed_comesBack
  . exact comesBack_of_wellFormed

theorem as_mstring_string (name : List UInt8) (s : WStr)
    : SESSION_INFO.as_mstring ⟨name, (Built.string (T2Utf s)).compact⟩ = comesBack s := by
  have htype : (⟨name, (Built.string (T2Utf s)).compact⟩ : JSONNode).type = .JSON_STRING := typeOf_string _
  unfold SESSION_INFO.as_mstring
  rw [htype, if_neg (by decide), JSONNode.as_string_string, CStr.ofMem_bytes]
  rfl

theorem textOut_eq {s : List UInt8} (h : 0x0A ∉ s) : textOut s = s := by
  unfold textOut
  induction s with
  | nil => rfl
  | cons c s ih =>
    have hne : c ≠ 0x0A ∧ 0x0A ∉ s := by simpa [eq_comm] using h
    rw [List.flatMap_cons, if_neg hne.1, ih hne.2]
    rfl

theorem textIn_eq {s : List UInt8} (h : 0x0D ∉ s) : textIn s = s.takeWhile (· ≠ 0x1A) := by
  fun_induction textIn s with
  | case1 => rfl
  | case2 s => rfl
  | case3 s => simp at h
  | case4 c s hz hcr ih =>
    have hne : c ≠ 0x1A := hz
    have hrest : 0x0D ∉ s := fun hmem => h (List.mem_cons_of_mem c hmem)
    rw [List.takeWhile_cons_of_pos (by simpa using hne), ih hrest]

namespace SESSION_INFO

variable {si : SESSION_INFO towlower}

def written (si : SESSION_INFO towlower) : List WStr :=
  si.arStatuses.names ++ (si.arUsers.entries.flatMap fun it => [it.1, it.2.pszNick]) ++ si.ptszName.toList ++
    si.ptszTopic.toList

def memberNames : List CStr := [szRoles, szUsers, szId, szName, szNick, szRole, szIsMe, szTopic]

section

variable {p : CStr → Prop} (hmember : ∀ c ∈ memberNames, p c)
include hmember

theorem all_optionalNode {name : CStr} (hname : name ∈ memberNames) (value : Option WStr)
    : (∀ c ∈ optionalNode name value, p c.1 ∧ c.2.All p) ↔ ∀ s ∈ value.toList, p (T2Utf s) := by
  have hp := hmember name hname
  cases value with
  | none => simp [optionalNode]
  | some value => simp [optionalNode, Built.All, hp]

theorem all_roleNode (it : STATUSINFO) : (roleNode it).All p ↔ p (T2Utf it.pszGroup) := by
  have hid := hmember szId (by decide)
  have hname := hmember szName (by decide)
  unfold roleNode
  rw [Built.All, all_ofList]
  simp [Built.All, hid, hname]

theorem all_userNode (pMe : Option WStr) (it : WStr × USERINFO)
    : (userNode pMe it).All p ↔ ∀ s ∈ [it.1, it.2.pszNick], p (T2Utf s) := by
  have hid := hmember szId (by decide)
  have hnick := hmember szNick (by decide)
  have hrole := hmember szRole (by decide)
  have hme := hmember szIsMe (by decide)
  unfold userNode
  rw [Built.All, all_ofList]
  simp [Built.All, hid, hnick, hrole, hme]

theorem all_rootNode : si.rootNode.All p ↔ ∀ s ∈ si.written, p (T2Utf s) := by
  have hroles := hmember szRoles (by decide)
  have husers := hmember szUsers (by decide)
  have hnodes : (∀ c ∈ si.arStatuses.list.map fun it => (CStr.empty, roleNode it), c.2.All p)
      ↔ ∀ s ∈ si.arStatuses.names, p (T2Utf s) := by
    unfold Statuses.names
    rw [List.forall_mem_map, List.forall_mem_map]
    simp only [all_roleNode hmember]
  have husernodes : (∀ c ∈ si.arUsers.entries.map fun it => (CStr.empty, userNode si.pMe it), c.2.All p)
      ↔ ∀ s ∈ si.arUsers.entries.flatMap fun it => [it.1, it.2.pszNick], p (T2Utf s) := by
    rw [List.forall_mem_map, List.forall_mem_flatMap]
    simp only [all_userNode hmember]
  unfold rootNode written
  rw [Built.All, all_ofList]
  have hoptName := @all_optionalNode p hmember szName (by decide) si.ptszName
  have hoptTopic := @all_optionalNode p hmember szTopic (by decide) si.ptszTopic
  simp only [forall_const, List.forall_mem_append, List.forall_mem_cons, Built.All, all_ofList, reduceCtorEq,
    false_implies, true_and, hoptName, hoptTopic, hnodes, husernodes, hroles, husers, List.not_mem_nil, implies_true,
    and_true]

end

theorem isText_write (si : SESSION_INFO towlower) : Utf.IsText si.rootNode.write := by
  apply isText_Write
  apply (all_rootNode ?_).mpr
  . intro s _
    exact isText_T2Utf s
  . intro c hc
    apply Utf.IsText.of_ascii
    revert c
    unfold memberNames
    decide +kernel

theorem escape_ne_newLine (b : UInt8) : ∀ c ∈ escape b, c ≠ 0x0A ∧ c ≠ 0x0D := by
  unfold escape
  split_ifs <;> simp_all

theorem isKept_ne {c d : UInt8} (hd : isKept d = false) (h : isKept c = true) : c ≠ d := by
  rintro rfl
  rw [hd] at h
  cases h

theorem newLine_notMem_write (si : SESSION_INFO towlower) : ∀ c ∈ si.rootNode.write, c ≠ 0x0A ∧ c ≠ 0x0D := by
  have hall : ∀ s : CStr, ∀ c ∈ UnfixString s.bytes, c ≠ 0x0A ∧ c ≠ 0x0D := by
    intro s c hc
    unfold UnfixString at hc
    obtain ⟨b, _, hb⟩ := List.mem_flatMap.mp hc
    exact escape_ne_newLine b c hb
  have hkept : ∀ c, isKept c = true → c ≠ 0x0A ∧ c ≠ 0x0D := fun c hc => ⟨isKept_ne rfl hc, isKept_ne rfl hc⟩
  have hwrite := @forall_Write (fun c => c ≠ 0x0A ∧ c ≠ 0x0D) hkept (by decide) si.rootNode
  apply hwrite.mpr
  apply (all_rootNode fun c _ => hall c).mpr
  intro s _
  exact hall _

theorem ctrlZ_escape (b : UInt8) (h : b ≠ 0x1A) : 0x1A ∉ escape b := by
  revert h
  apply forall_halves (p := fun b => b ≠ 0x1A → 0x1A ∉ escape b)
  decide

theorem ctrlZ_notMem_write_iff (si : SESSION_INFO towlower)
    : 0x1A ∉ si.rootNode.write ↔ ∀ s ∈ si.written, 0x1A ∉ (T2Utf s).bytes := by
  have hbytes : ∀ s : CStr, (∀ c ∈ UnfixString s.bytes, c ≠ 0x1A) ↔ 0x1A ∉ s.bytes := by
    intro s
    rw [← not_mem_UnfixString s.bytes ctrlZ_escape (by decide)]
    simp [List.forall_mem_ne']
  have hkept : ∀ c, isKept c = true → c ≠ 0x1A := fun c hc => isKept_ne rfl hc
  have hwrite := @forall_Write (fun c => c ≠ 0x1A) hkept (by decide) si.rootNode
  simp only [hbytes] at hwrite
  have hmember : ∀ c ∈ memberNames, 0x1A ∉ c.bytes := by
    unfold memberNames
    decide
  have hroot := @all_rootNode towlower si (fun s => 0x1A ∉ s.bytes) hmember
  rw [← hroot, ← hwrite]
  unfold Built.write
  simp [List.forall_mem_ne']

theorem ofMem_write (si : SESSION_INFO towlower) : (CStr.ofMem si.rootNode.write).bytes = si.rootNode.write := by
  apply List.takeWhile_eq_self_iff.mpr
  intro c hc
  have hne : c ≠ 0 := fun heq => (isText_write si).nonzero (heq ▸ hc)
  simpa using hne

theorem Chat_Serialize_snd (si : SESSION_INFO towlower)
    : si.Chat_Serialize.2 = if si.bPersistent then some si.rootNode.write else none := by
  have htext : Utf.IsText (CStr.ofMem si.rootNode.write).bytes := by
    rw [ofMem_write]
    apply isText_write
  obtain ⟨w, hdecode, hencode⟩ := htext.convert
  have hout : textOut si.rootNode.write = si.rootNode.write := by
    apply textOut_eq
    intro hmem
    exact (newLine_notMem_write si _ hmem).1 rfl
  have hroot : ({ si with bIsDirty := false } : SESSION_INFO towlower).rootNode = si.rootNode := rfl
  unfold Chat_Serialize
  simp only [hroot, hdecode, hencode, Option.map_some, ofMem_write, hout]
  cases si.bPersistent <;> rfl

theorem name_roleNode (it : STATUSINFO)
    : as_mstring ((⟨[], (roleNode it).compact⟩ : JSONNode).at_ szName.bytes) = comesBack it.pszGroup := by
  unfold roleNode
  rw [@JSONNode.at_ofList [] _ szName (.string (T2Utf it.pszGroup)) rfl, as_mstring_string]

def addName (towlower : UInt16 → UInt16) (names : List WStr) (x : WStr) : List WStr :=
  if ∀ y ∈ names, ¬sameText towlower y x then names ++ [x] else names

def reversed (towlower : UInt16 → UInt16) (names : List WStr) : List WStr :=
  (names.reverse.map comesBack).foldl (addName towlower) []

theorem TM_AddStatus_spec (hparent : si.pParent = none) (x : WStr)
    : (si.TM_AddStatus x).pParent = none ∧ (si.TM_AddStatus x).arUsers = si.arUsers ∧
        (si.TM_AddStatus x).arStatuses.names = addName towlower si.arStatuses.names x := by
  have hget : si.getStatuses = si.arStatuses := by
    unfold getStatuses
    rw [hparent]
  have hset : ∀ l, si.setStatuses l = { si with arStatuses := l } := by
    intro l
    unfold setStatuses
    rw [hparent]
  have hiff : (∀ it ∈ si.getStatuses.list, ¬sameText towlower it.pszGroup x)
      ↔ ∀ y ∈ si.arStatuses.names, ¬sameText towlower y x := by
    unfold Statuses.names
    rw [hget, List.forall_mem_map]
  unfold TM_AddStatus addName
  split
  . next hnew =>
    rw [if_pos (hiff.mp hnew), hset]
    refine ⟨hparent, rfl, ?_⟩
    simp only [hget]
    unfold Statuses.names Statuses.insert
    rw [List.map_append, List.map_singleton]
  . next hold =>
    rw [if_neg fun h => hold (hiff.mpr h)]
    exact ⟨hparent, rfl, rfl⟩

theorem foldl_TM_AddStatus (l : List WStr) (hparent : si.pParent = none)
    : (l.foldl TM_AddStatus si).pParent = none ∧ (l.foldl TM_AddStatus si).arUsers = si.arUsers ∧
        (l.foldl TM_AddStatus si).arStatuses.names = l.foldl (addName towlower) si.arStatuses.names := by
  induction l generalizing si with
  | nil => exact ⟨hparent, rfl, rfl⟩
  | cons x l ih =>
    obtain ⟨hparent', husers, hnames⟩ := TM_AddStatus_spec hparent x
    have hrest := ih hparent'
    rw [husers, hnames] at hrest
    exact hrest

theorem foldl_roleNode (l : List STATUSINFO) (si : SESSION_INFO towlower)
    : (l.map fun it => (⟨[], (roleNode it).compact⟩ : JSONNode)).foldl
          (fun si it => si.TM_AddStatus (as_mstring (it.at_ szName.bytes))) si
        =
      (l.map fun it => comesBack it.pszGroup).foldl TM_AddStatus si := by
  rw [List.foldl_map, List.foldl_map]
  simp only [name_roleNode]

def userBack (it : WStr × USERINFO) : WStr × USERINFO :=
  (comesBack it.1, { pszNick := comesBack it.2.pszNick, Status := it.2.Status })

theorem word_toNat (w : UInt16) : word w.toNat = w := by
  have hlt := w.toNat_lt
  unfold word
  apply UInt16.toNat_inj.mp
  have hmod : ((w.toNat : Int) % 2 ^ 16).toNat = w.toNat := by omega
  rw [hmod]
  exact UInt16.toNat_ofNat_of_lt' hlt

def userMembers (pMe : Option WStr) (it : WStr × USERINFO) : List (CStr × Built) :=
  [(szId, .string (T2Utf it.1)), (szNick, .string (T2Utf it.2.pszNick)), (szRole, .number it.2.Status.toNat),
    (szIsMe, .bool (pMe = some it.1))]

theorem at_userNode {pMe : Option WStr} {it : WStr × USERINFO} {name_t : CStr} {child : Built}
    (h : (userMembers pMe it).find? (fun c => c.1.bytes = name_t.bytes) = some (name_t, child))
    : (⟨[], (userNode pMe it).compact⟩ : JSONNode).at_ name_t.bytes = ⟨name_t.bytes, child.compact⟩ :=
  JSONNode.at_ofList [] h

theorem addUser_spec (hparent : si.pParent = none) (pMe : Option WStr) (it : WStr × USERINFO)
    : (si.addUser ⟨[], (userNode pMe it).compact⟩).pParent = none ∧
        (si.addUser ⟨[], (userNode pMe it).compact⟩).arStatuses = si.arStatuses ∧
        (si.addUser ⟨[], (userNode pMe it).compact⟩).arUsers = si.arUsers.put (userBack it).1 (userBack it).2 := by
  have hid := @at_userNode pMe it szId (.string (T2Utf it.1)) rfl
  have hnick := @at_userNode pMe it szNick (.string (T2Utf it.2.pszNick)) rfl
  have hrole := @at_userNode pMe it szRole (.number it.2.Status.toNat) rfl
  have hlt : it.2.Status.toNat < 2 ^ 31 := Nat.lt_trans it.2.Status.toNat_lt (by decide)
  have hadd : si.UM_AddUser (comesBack it.1) (comesBack it.2.pszNick) it.2.Status
      = { si with arUsers := si.arUsers.put (userBack it).1 (userBack it).2 } := by
    unfold UM_AddUser setUserList getUserList userBack
    rw [hparent]
  unfold addUser
  simp only [hid, hnick, hrole, as_mstring_string, JSONNode.as_int_number _ hlt, Option.getD_some, word_toNat, hadd]
  split <;> exact ⟨hparent, rfl, rfl⟩

theorem foldl_addUser (pMe : Option WStr) (l : List (WStr × USERINFO)) (hparent : si.pParent = none)
    : ((l.map fun it => ⟨[], (userNode pMe it).compact⟩).foldl addUser si).pParent = none ∧
        ((l.map fun it => ⟨[], (userNode pMe it).compact⟩).foldl addUser si).arStatuses = si.arStatuses ∧
        ((l.map fun it => ⟨[], (userNode pMe it).compact⟩).foldl addUser si).arUsers
          = l.foldl (fun t it => t.put (userBack it).1 (userBack it).2) si.arUsers := by
  induction l generalizing si with
  | nil => exact ⟨hparent, rfl, rfl⟩
  | cons it l ih =>
    obtain ⟨hparent', hstatuses, husers⟩ := addUser_spec hparent pMe it
    have hrest := ih hparent'
    rw [hstatuses, husers] at hrest
    exact hrest

def usersBack (entries : List (WStr × USERINFO)) : Users :=
  entries.foldl (fun t it => t.put (userBack it).1 (userBack it).2) .empty

theorem get?_usersBack_foldl (t : Users) (entries : List (WStr × USERINFO)) {pszUID : WStr}
    (h : ∀ it ∈ entries, comesBack it.1 ≠ pszUID)
    : (entries.foldl (fun t it => t.put (userBack it).1 (userBack it).2) t).get? pszUID = t.get? pszUID := by
  induction entries generalizing t with
  | nil => rfl
  | cons it entries ih =>
    have hne : pszUID ≠ (userBack it).1 := fun heq => h it List.mem_cons_self heq.symm
    rw [List.foldl_cons, ih _ fun it' hit' => h it' (List.mem_cons_of_mem it hit'), Table.get?_put_ne t _ hne]

theorem get?_usersBack {entries : List (WStr × USERINFO)} (hsorted : entries.Pairwise fun a b => a.1 < b.1)
    (hwell : ∀ it ∈ entries, Utf.WellFormed it.1.chars) (t : Users)
    : ∀ it ∈ entries,
        (entries.foldl (fun t it => t.put (userBack it).1 (userBack it).2) t).get? it.1 = some (userBack it).2 := by
  induction entries generalizing t with
  | nil => simp
  | cons it entries ih =>
    rw [List.pairwise_cons] at hsorted
    rw [List.forall_mem_cons] at hwell ⊢
    constructor
    . rw [List.foldl_cons, get?_usersBack_foldl]
      . have hkey : (userBack it).1 = it.1 := comesBack_of_wellFormed hwell.1
        rw [hkey, Table.get?_put_self]
      . intro it' hit'
        rw [comesBack_of_wellFormed (hwell.2 it' hit')]
        exact ne_of_gt (hsorted.1 it' hit')
    . rw [List.foldl_cons]
      exact ih hsorted.2 hwell.2 _

theorem loops_spec {si₁ : SESSION_INFO towlower} (hparent : si₁.pParent = none) (hnames : si₁.arStatuses.names = [])
    (husers : si₁.arUsers = .empty) (si : SESSION_INFO towlower)
    : let si' := (si.arUsers.entries.map fun it => ⟨[], (userNode si.pMe it).compact⟩).foldl addUser
        ((si.arStatuses.list.reverse.map fun it => comesBack it.pszGroup).foldl TM_AddStatus si₁)
      si'.pParent = none ∧ si'.arStatuses.names = reversed towlower si.arStatuses.names ∧
        si'.arUsers = usersBack si.arUsers.entries := by
  obtain ⟨hparent₂, husers₂, hnames₂⟩ :=
    foldl_TM_AddStatus (si.arStatuses.list.reverse.map fun it => comesBack it.pszGroup) hparent
  obtain ⟨hparent₃, hstatuses₃, husers₃⟩ := foldl_addUser si.pMe si.arUsers.entries hparent₂
  refine ⟨hparent₃, ?_, ?_⟩
  . rw [hstatuses₃, hnames₂, hnames]
    unfold reversed Statuses.names
    rw [← List.map_reverse, List.map_map]
    rfl
  . rw [husers₃, husers₂, husers]
    rfl

theorem Chat_Unserialize_written {si : SESSION_INFO towlower} (hctrl : ∀ s ∈ si.written, 0x1A ∉ (T2Utf s).bytes)
    (behind : Nat → UInt8) (ptszName : Option WStr)
    : let si' := ((start true ptszName : SESSION_INFO towlower).Chat_Unserialize behind (some si.rootNode.write)).1
      si'.pParent = none ∧ si'.arStatuses.names = reversed towlower si.arStatuses.names ∧
        si'.arUsers = usersBack si.arUsers.entries := by
  have hfile : readFile behind si.rootNode.write = si.rootNode.write := by
    have htext : textIn si.rootNode.write = si.rootNode.write := by
      rw [textIn_eq fun hmem => (newLine_notMem_write si _ hmem).2 rfl]
      apply List.takeWhile_eq_self_iff.mpr
      intro c hc
      have hne : c ≠ 0x1A := fun heq => (ctrlZ_notMem_write_iff si).mpr hctrl (heq ▸ hc)
      simpa using hne
    unfold readFile
    simp only [htext, Nat.sub_self, List.range_zero, List.map_nil, List.append_nil]
  have hparse : json_parse (.ofMem si.rootNode.write) = ⟨[], si.rootNode.compact⟩ :=
    json_parse_Write (ofMem_write si)
  have htype : (⟨[], si.rootNode.compact⟩ : JSONNode).type = .JSON_NODE := typeOf_node _
  have hroles : ((⟨[], si.rootNode.compact⟩ : JSONNode).at_ szRoles.bytes).children
      = si.arStatuses.list.map fun it => ⟨[], (roleNode it).compact⟩ := by
    unfold rootNode
    rw [List.append_assoc, List.cons_append, JSONNode.at_ofList [] rfl, JSONNode.children_array_ofList, List.map_map]
    rfl
  have husers : ((⟨[], si.rootNode.compact⟩ : JSONNode).at_ szUsers.bytes).children
      = si.arUsers.entries.map fun it => ⟨[], (userNode si.pMe it).compact⟩ := by
    unfold rootNode
    rw [List.append_assoc, List.cons_append, JSONNode.at_ofList [] rfl, JSONNode.children_array_ofList, List.map_map]
    rfl
  unfold Chat_Unserialize
  simp only [hfile, hparse, htype, reduceCtorEq, if_false, hroles, husers]
  rw [← List.map_reverse, foldl_roleNode]
  exact loops_spec rfl rfl rfl si

def Restored (si si' : SESSION_INFO towlower) : Prop :=
  ∀ it ∈ si.arUsers.entries, ∃ u, si'.arUsers.get? it.1 = some u ∧ u.pszNick = it.2.pszNick ∧
    si'.TM_WordToString u.Status = si.TM_WordToString it.2.Status

theorem Chat_Unserialize_cut {si : SESSION_INFO towlower} (hctrl : ¬∀ s ∈ si.written, 0x1A ∉ (T2Utf s).bytes)
    (ptszName : Option WStr)
    : ((start true ptszName : SESSION_INFO towlower).Chat_Unserialize (fun _ => 0x78) (some si.rootNode.write)).1
        =
      start true ptszName := by
  rw [← ctrlZ_notMem_write_iff, not_not] at hctrl
  obtain ⟨t, rest, hsplit, hnot⟩ := List.eq_append_cons_of_mem hctrl
  have htext : textIn si.rootNode.write = t := by
    rw [textIn_eq fun hmem => (newLine_notMem_write si _ hmem).2 rfl, hsplit, List.takeWhile_append_of_pos]
    . simp
    . intro c hc
      have hne : c ≠ 0x1A := fun heq => hnot (heq ▸ hc)
      simpa using hne
  have hfile : readFile (fun _ => 0x78) si.rootNode.write = t ++ List.replicate (rest.length + 1) 0x78 := by
    have hlen : si.rootNode.write.length - t.length = rest.length + 1 := by
      rw [hsplit, List.length_append, List.length_cons]
      omega
    unfold readFile
    simp only [htext, hlen, List.map_const', List.length_range]
  have hzero : (0 : UInt8) ∉ t ++ List.replicate (rest.length + 1) 0x78 := by
    intro hmem
    obtain hmem | hmem := List.mem_append.mp hmem
    . apply (isText_write si).nonzero
      rw [hsplit]
      exact List.mem_append_left _ hmem
    . cases List.eq_of_mem_replicate hmem
  have hbytes : (CStr.ofMem (t ++ List.replicate (rest.length + 1) 0x78)).bytes
      = t ++ List.replicate (rest.length + 1) 0x78 := by
    apply List.takeWhile_eq_self_iff.mpr
    intro c hc
    have hne : c ≠ 0 := fun heq => hzero (heq ▸ hc)
    simpa using hne
  have hparse : json_parse (.ofMem (t ++ List.replicate (rest.length + 1) 0x78)) = nullNode :=
    json_parse_cut hsplit rest.length hbytes
  have htype : nullNode.type = .JSON_NULL := rfl
  unfold Chat_Unserialize
  simp only [hfile, hparse, htype, if_true]

theorem TM_WordToString_restored {si' : SESSION_INFO towlower} {names : List WStr} (hparent : si'.pParent = none)
    (hnames : si'.arStatuses.names = names) (w : UInt16)
    : si'.TM_WordToString w = nameAt names w := by
  rw [TM_WordToString_eq, ← hnames]
  unfold getStatuses
  rw [hparent]

theorem wellFormed_of_restored {si si' : SESSION_INFO towlower} (husers : si'.arUsers = usersBack si.arUsers.entries)
    (h : Restored si si')
    : ∀ it ∈ si.arUsers.entries, Utf.WellFormed it.1.chars := by
  intro it hit
  obtain ⟨u, hget, _⟩ := h it hit
  by_contra hnot
  rw [husers] at hget
  unfold usersBack at hget
  rw [get?_usersBack_foldl, Table.get?_empty] at hget
  . cases hget
  . intro it' _ heq
    apply hnot
    rw [← heq]
    apply wellFormed_comesBack

theorem restored_iff_of_written {si si' : SESSION_INFO towlower} (hparent : si'.pParent = none)
    (hnames : si'.arStatuses.names = reversed towlower si.arStatuses.names)
    (husers : si'.arUsers = usersBack si.arUsers.entries)
    : Restored si si' ↔ ∀ it ∈ si.arUsers.entries, Utf.WellFormed it.1.chars ∧ Utf.WellFormed it.2.pszNick.chars ∧
        nameAt (reversed towlower si.arStatuses.names) it.2.Status = nameAt si.getStatuses.names it.2.Status := by
  have hback : (∀ it ∈ si.arUsers.entries, Utf.WellFormed it.1.chars) →
      ∀ it ∈ si.arUsers.entries, si'.arUsers.get? it.1 = some (userBack it).2 := by
    intro hwell
    rw [husers]
    exact get?_usersBack si.arUsers.sorted hwell .empty
  have huser : ∀ it, (userBack it).2.pszNick = it.2.pszNick ↔ Utf.WellFormed it.2.pszNick.chars :=
    fun it => comesBack_eq_iff
  constructor
  . intro h it hit
    have hwell := wellFormed_of_restored husers h
    obtain ⟨u, hget, hnick, hrole⟩ := h it hit
    rw [hback hwell it hit, Option.some.injEq] at hget
    rw [← hget] at hnick hrole
    rw [TM_WordToString_restored hparent hnames, TM_WordToString_eq] at hrole
    exact ⟨hwell it hit, (huser it).mp hnick, hrole⟩
  . intro h it hit
    have hwell := fun it hit => (h it hit).1
    refine ⟨(userBack it).2, hback hwell it hit, (huser it).mpr (h it hit).2.1, ?_⟩
    rw [TM_WordToString_restored hparent hnames, TM_WordToString_eq]
    exact (h it hit).2.2

theorem restored_iff {si : SESSION_INFO towlower} {file : List UInt8} (hfile : si.Chat_Serialize.2 = some file)
    : (∀ (behind : Nat → UInt8) (ptszName : Option WStr),
        Restored si ((start true ptszName).Chat_Unserialize behind (some file)).1)
        ↔
      si.arUsers.entries = [] ∨
        ((∀ s ∈ si.written, 0x1A ∉ (T2Utf s).bytes) ∧
          ∀ it ∈ si.arUsers.entries, Utf.WellFormed it.1.chars ∧ Utf.WellFormed it.2.pszNick.chars ∧
            nameAt (reversed towlower si.arStatuses.names) it.2.Status
              = nameAt si.getStatuses.names it.2.Status) := by
  have hwrite : file = si.rootNode.write := by
    rw [Chat_Serialize_snd] at hfile
    split at hfile
    . exact (Option.some.inj hfile).symm
    . cases hfile
  rw [hwrite]
  constructor
  . intro h
    cases hentries : si.arUsers.entries with
    | nil => exact .inl rfl
    | cons it entries =>
      have hit : it ∈ si.arUsers.entries := by
        rw [hentries]
        exact List.mem_cons_self
      have hctrl : ∀ s ∈ si.written, 0x1A ∉ (T2Utf s).bytes := by
        by_contra hctrl
        have hcut := h (fun _ => 0x78) none it hit
        rw [Chat_Unserialize_cut hctrl] at hcut
        obtain ⟨u, hget, _⟩ := hcut
        cases hget
      obtain ⟨hparent, hnames, husers⟩ := Chat_Unserialize_written hctrl (fun _ => 0) none
      rw [← hentries]
      exact .inr ⟨hctrl, (restored_iff_of_written hparent hnames husers).mp (h (fun _ => 0) none)⟩
  . rintro (hentries | ⟨hctrl, hback⟩) behind ptszName
    . intro it hit
      rw [hentries] at hit
      cases hit
    . obtain ⟨hparent, hnames, husers⟩ := Chat_Unserialize_written hctrl behind ptszName
      exact (restored_iff_of_written hparent hnames husers).mpr hback

def oneUser (l : Statuses towlower) : SESSION_INFO towlower :=
  { start true none with
    arStatuses := l
    arUsers := Table.empty.put ⟨[0x75], by decide⟩ { pszNick := ⟨[0x6E], by decide⟩, Status := 1 } }

def member : Statuses id := Statuses.empty.insert ⟨[0x4D], by decide⟩ 0 (by simp [Statuses.empty])

def memberAndAdmin : Statuses id := member.insert ⟨[0x41], by decide⟩ 1 (by decide)

theorem restored_iff_member
    : Restored (oneUser member)
        ((start true none).Chat_Unserialize (fun _ => 0) (some (oneUser member).rootNode.write)).1 := by
  have hfile : (oneUser member).Chat_Serialize.2 = some (oneUser member).rootNode.write := Chat_Serialize_snd _
  apply (restored_iff hfile).mpr
  apply Or.inr
  constructor
  . decide +kernel
  . intro it hit
    rw [List.mem_singleton.mp hit]
    refine ⟨?_, ?_, by decide⟩
    . exact .single (by decide) (by decide) .nil
    . exact .single (by decide) (by decide) .nil

theorem not_restored_memberAndAdmin
    : ¬Restored (oneUser memberAndAdmin)
        ((start true none).Chat_Unserialize (fun _ => 0) (oneUser memberAndAdmin).Chat_Serialize.2).1 := by
  have hctrl : ∀ s ∈ (oneUser memberAndAdmin).written, 0x1A ∉ (T2Utf s).bytes := by decide +kernel
  obtain ⟨hparent, hnames, husers⟩ := Chat_Unserialize_written hctrl (fun _ => 0) none
  have hfile : (oneUser memberAndAdmin).Chat_Serialize.2 = some (oneUser memberAndAdmin).rootNode.write :=
    Chat_Serialize_snd _
  rw [hfile, restored_iff_of_written hparent hnames husers]
  intro h
  have hrole := (h _ List.mem_cons_self).2.2
  revert hrole
  decide

end SESSION_INFO
end Chat
