import MirandaNG.Data.IsoTime
import MirandaNG.Data.WStr
import MirandaNG.LibJson.Node
import MirandaNG.Core.Utf

/-!
This module contains events of a history and the text that is shown for them.
-/

namespace Import

open LibJson

abbrev MCONTACT := UInt32

def EVENTTYPE_CONTACTS : UInt32 := 2
def EVENTTYPE_ADDED : UInt32 := 1000
def EVENTTYPE_AUTHREQUEST : UInt32 := 1001
def EVENTTYPE_FILE : UInt32 := 1002

structure EventFlags where
  bSent : Bool := false
  bRead : Bool := false
  bUtf : Bool := false
  isJson : Bool := false
  bMsec : Bool := false
deriving DecidableEq

structure DBEVENTINFO where
  szModule : Option CStr := none
  iTimestamp : UInt64 := 0
  flags : EventFlags := {}
  eventType : UInt32 := 0
  hContact : MCONTACT := 0
  pBlob : Option (List UInt8) := none
  szId : Option CStr := none
  szUserId : Option CStr := none
  szReplyId : Option CStr := none
deriving DecidableEq

structure Services where
  textService : Option CStr → UInt32 → Option (DBEVENTINFO → Option WStr)
  fileText : DBEVENTINFO → WStr
  Clist_GetContactDisplayName : MCONTACT → WStr
  mir_a2u : CStr → WStr
  mir_a2u_cp_acp : CStr → WStr
  iswspace : UInt16 → Bool
  authorizationRequest : WStr → WStr → WStr → WStr
  youWereAdded : WStr → WStr → WStr
  contacts : WStr

structure AUTH_BLOB where
  uin : UInt32
  hContact : MCONTACT
  nick : CStr
  firstName : CStr
  lastName : CStr
  email : CStr
  reason : CStr

def uint32At (blob : List UInt8) (i : Nat) : UInt32 :=
  (blob.getD i 0).toUInt32 ||| (blob.getD (i + 1) 0).toUInt32 <<< 8 ||| (blob.getD (i + 2) 0).toUInt32 <<< 16 |||
    (blob.getD (i + 3) 0).toUInt32 <<< 24

def takeString (mem : List UInt8) : CStr × List UInt8 :=
  let s := CStr.ofMem mem
  (s, mem.drop (s.strlen + 1))

def AUTH_BLOB.ofBlob (blob : List UInt8) : AUTH_BLOB :=
  let (nick, mem) := takeString (blob.drop 8)
  let (firstName, mem) := takeString mem
  let (lastName, mem) := takeString mem
  let (email, mem) := takeString mem
  let (reason, _) := takeString mem
  ⟨uint32At blob 0, uint32At blob 4, nick, firstName, lastName, email, reason⟩

namespace DBEVENTINFO

variable (services : Services) (dbei : DBEVENTINFO)

def getUnixtime : UInt32 :=
  (if dbei.flags.bMsec then dbei.iTimestamp / 1000 else dbei.iTimestamp).toUInt32

def decodeW (str : CStr) : Option WStr := (Utf.mir_utf8decodeW str).map WStr.ofMem

def getString (str : CStr) : Option WStr :=
  if dbei.flags.bUtf then decodeW str else some (services.mir_a2u str)

def printed (tsz : Option WStr) : WStr := tsz.getD (.lit "(null)")

def trim (s : WStr) : WStr :=
  .ofMem ((s.chars.dropWhile services.iswspace).reverse.dropWhile services.iswspace).reverse

def printInt (n : UInt32) : WStr := .ofMem ((itoa n.toInt32.toInt).map UInt8.toUInt16)

def authDetails (blob : AUTH_BLOB) : WStr :=
  let tszFirst := dbei.getString services blob.firstName
  let tszLast := dbei.getString services blob.lastName
  let nick :=
    if tszFirst.isSome ∨ tszLast.isSome then trim services (printed tszFirst ++ .lit " " ++ printed tszLast)
    else .lit ""
  let comma (nick : WStr) : WStr := if nick.chars = [] then nick else nick ++ .lit ", "
  let nick :=
    match dbei.getString services blob.email with
    | some tszEmail => comma nick ++ tszEmail
    | none => nick
  let nick := if blob.uin ≠ 0 then comma nick ++ printInt blob.uin else nick
  if nick.chars = [] then nick else .lit "(" ++ nick ++ .lit ")"

def authText (pBlob : List UInt8) : WStr :=
  let blob := AUTH_BLOB.ofBlob pBlob
  let nick := dbei.authDetails services blob
  let who := (dbei.getString services blob.nick).getD (services.Clist_GetContactDisplayName blob.hContact)
  if dbei.eventType = EVENTTYPE_AUTHREQUEST then
    services.authorizationRequest who nick (printed (dbei.getString services blob.reason))
  else
    services.youWereAdded who nick

def contactRounds : Nat → List UInt8 → WStr
  | 0, _ => .lit ""
  | _, [] => .lit ""
  | n + 1, buf =>
    let (uin, buf) := takeString buf
    let (nick, buf) := takeString buf
    let quoted (left right : String) (tsz : Option WStr) : WStr :=
      match tsz with
      | some tsz => if tsz.chars = [] then .lit "" else .lit left ++ tsz ++ .lit right
      | none => .lit ""
    quoted "\"" "\" " (dbei.getString services nick) ++ quoted "<" ">; " (dbei.getString services uin) ++
      contactRounds n buf

def getText : Option WStr :=
  match services.textService dbei.szModule dbei.eventType with
  | some service => service dbei
  | none =>
    match dbei.pBlob with
    | none => none
    | some pBlob =>
      if dbei.eventType = EVENTTYPE_AUTHREQUEST ∨ dbei.eventType = EVENTTYPE_ADDED then
        some (dbei.authText services pBlob)
      else if dbei.eventType = EVENTTYPE_CONTACTS then
        some (services.contacts ++ dbei.contactRounds services pBlob.length pBlob)
      else if dbei.eventType = EVENTTYPE_FILE then
        some (services.fileText dbei)
      else if dbei.flags.isJson then
        decodeW (.ofMem ((json_parse (.ofMem pBlob)).at_ [0x62]).as_string)
      else if dbei.flags.bUtf then
        decodeW (.ofMem pBlob)
      else
        some (services.mir_a2u_cp_acp (.ofMem pBlob))

end DBEVENTINFO
end Import
