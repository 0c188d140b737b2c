import MirandaNG.Data.NoCase
import MirandaNG.Core.ListItems
import MirandaNG.Transition.Loop
import MirandaNG.Jabber.Xml

/-!
This module contains the manager of the requests that wait for an answer: their handlers are called
with the answer, or without one when the request is given up.
-/

namespace Jabber

open Transition

inductive JABBER_IQ_TYPE where
  | FAIL
  | RESULT
  | ERROR
  | GET
  | SET
deriving DecidableEq

def JABBER_DEFAULT_IQ_REQUEST_TIMEOUT : UInt32 := 120000

def JABBER_IQ_PARSE_CHILD_TAG_NODE : UInt32 := 1
def JABBER_IQ_PARSE_CHILD_TAG_NAME : UInt32 := 3
def JABBER_IQ_PARSE_CHILD_TAG_XMLNS : UInt32 := 5
def JABBER_IQ_PARSE_FROM : UInt32 := 8
def JABBER_IQ_PARSE_HCONTACT : UInt32 := 24

-- `φ` are the handler functions. `number` counts the requests and tells them apart; an address can be
-- used again when the request at it is gone.
structure CJabberIqInfo (φ : Type) where
  number : Nat
  address : Nat
  m_pHandler : Option φ
  m_nIqId : Int32
  m_dwParamsToParse : UInt32
  m_dwRequestTime : UInt32
  m_dwTimeout : UInt32
  m_szReceiver : Option CStr
  m_iPriority : Int32
  m_pUserData : Nat
  m_nIqType : JABBER_IQ_TYPE
  m_szFrom : Option CStr
  m_szChildTagXmlns : Option CStr
  m_szChildTagName : Option CStr
  m_pChildNode : Option TiXmlElement
  m_hContact : UInt32
  m_szTo : Option CStr
  m_szId : Option CStr

structure IqRequest (φ : Type) where
  pHandler : Option φ
  nIqType : JABBER_IQ_TYPE
  szReceiver : Option CStr
  pUserData : Nat
  iPriority : Int32

inductive IqCall (φ : Type) where
  | AddHandler (request : IqRequest φ)
  | SetParamsToParse (address : Nat) (dwParamsToParse : UInt32)
  | SetTimeout (address : Nat) (dwTimeout : UInt32)
  | HandleIq (nIqId : Int32) (pNode : Option TiXmlElement)
  | CheckExpired
  | ExpireIq (nIqId : Int32)
  | ExpireByUserData (pUserData : Nat)
  | ExpireAll
  | DeleteHandler (address : Nat)

structure Invocation (φ : Type) where
  call : IqCall φ
  iqNode : Option TiXmlElement
  pInfo : CJabberIqInfo φ

-- What the manager asks the protocol and the system for. Others take numbers from `SerialNext`, too;
-- the clock wraps. A handler makes further requests, which depend on anything that happened before.
structure IqProto (φ : Type) where
  HContactFromJID : CStr → UInt32
  SerialNext : Nat → Int32
  GetTickCount : Nat → UInt32
  address : Nat → Nat
  requests : φ → Option TiXmlElement → CJabberIqInfo φ → List (Invocation φ) → List (IqRequest φ)

structure CJabberIqManager (φ : Type) where
  m_arIqs : List (CJabberIqInfo φ) := []
  added : Nat := 0
  ticks : Nat := 0
  invoked : List (Invocation φ) := []

def CompareIqs {φ : Type} (p1 p2 : CJabberIqInfo φ) : Int := (p1.m_iPriority - p2.m_iPriority).toInt

namespace CJabberIqManager

variable {φ : Type} (env : IqProto φ) (mgr : CJabberIqManager φ)

def newInfo (request : IqRequest φ) : CJabberIqInfo φ where
  number := mgr.added
  address := env.address mgr.added
  m_pHandler := request.pHandler
  m_nIqId := env.SerialNext mgr.added
  m_dwParamsToParse := 0
  m_dwRequestTime := env.GetTickCount mgr.ticks
  m_dwTimeout := JABBER_DEFAULT_IQ_REQUEST_TIMEOUT
  m_szReceiver := request.szReceiver
  m_iPriority := request.iPriority
  m_pUserData := request.pUserData
  m_nIqType := request.nIqType
  m_szFrom := none
  m_szChildTagXmlns := none
  m_szChildTagName := none
  m_pChildNode := none
  m_hContact := 0
  m_szTo := none
  m_szId := none

def AddHandler (request : IqRequest φ) : CJabberIqManager φ :=
  { mgr with
    m_arIqs := ListItems.insert CompareIqs mgr.m_arIqs (mgr.newInfo env request)
    added := mgr.added + 1
    ticks := mgr.ticks + 1 }

def modify (address : Nat) (f : CJabberIqInfo φ → CJabberIqInfo φ) : CJabberIqManager φ :=
  { mgr with m_arIqs := mgr.m_arIqs.map fun it => if it.address = address then f it else it }

def SetParamsToParse (address : Nat) (dwParamsToParse : UInt32) : CJabberIqManager φ :=
  mgr.modify address fun it => { it with m_dwParamsToParse := dwParamsToParse }

def SetTimeout (address : Nat) (dwTimeout : UInt32) : CJabberIqManager φ :=
  mgr.modify address fun it => { it with m_dwTimeout := dwTimeout }

def detach (p : CJabberIqInfo φ → Bool) : Option (CJabberIqInfo φ) × CJabberIqManager φ :=
  (mgr.m_arIqs.find? p, { mgr with m_arIqs := mgr.m_arIqs.eraseP p })

def DetachInfo : Option (CJabberIqInfo φ) × CJabberIqManager φ := mgr.detach fun _ => true

def DetachInfoById (nIqId : Int32) : Option (CJabberIqInfo φ) × CJabberIqManager φ :=
  mgr.detach fun it => it.m_nIqId = nIqId

def DetachInfoByUserData (pUserData : Nat) : Option (CJabberIqInfo φ) × CJabberIqManager φ :=
  mgr.detach fun it => it.m_pUserData = pUserData

def DetachExpired : Option (CJabberIqInfo φ) × CJabberIqManager φ :=
  let dwCurrentTime := env.GetTickCount mgr.ticks
  { mgr with ticks := mgr.ticks + 1 }.detach fun it =>
    it.m_dwTimeout < dwCurrentTime - it.m_dwRequestTime

def invoke (call : IqCall φ) (pHandler : φ) (iqNode : Option TiXmlElement) (pInfo : CJabberIqInfo φ)
    : CJabberIqManager φ :=
  (env.requests pHandler iqNode pInfo mgr.invoked).foldl (AddHandler env)
    { mgr with invoked := mgr.invoked ++ [⟨call, iqNode, pInfo⟩] }

def expired (pInfo : CJabberIqInfo φ) : CJabberIqInfo φ :=
  let m_szFrom :=
    if pInfo.m_dwParamsToParse &&& JABBER_IQ_PARSE_FROM ≠ 0 then pInfo.m_szReceiver
    else pInfo.m_szFrom
  let m_hContact :=
    match m_szFrom with
    | some szFrom =>
      if pInfo.m_dwParamsToParse &&& JABBER_IQ_PARSE_HCONTACT ≠ 0 then env.HContactFromJID szFrom
      else pInfo.m_hContact
    | none => pInfo.m_hContact
  { pInfo with m_szFrom := m_szFrom, m_hContact := m_hContact, m_nIqType := .FAIL }

-- The handler is called without a look at the pointer to it.
def ExpireInfo (call : IqCall φ) (pInfo : Option (CJabberIqInfo φ))
    : Outcome (CJabberIqManager φ) Unit :=
  match pInfo with
  | none => .returned mgr ()
  | some pInfo =>
    match pInfo.m_pHandler with
    | none => .crashed mgr
    | some pHandler => .returned (mgr.invoke env call pHandler none (expired env pInfo)) ()

def answerType (szType : CStr) : Option JABBER_IQ_TYPE :=
  if mir_strcmpi (some szType) (some (literal "result")) = 0 then some .RESULT
  else if mir_strcmpi (some szType) (some (literal "error")) = 0 then some .ERROR
  else none

def answered (nIqType : JABBER_IQ_TYPE) (pNode : Option TiXmlElement) (pInfo : CJabberIqInfo φ)
    : CJabberIqInfo φ :=
  let m_pChildNode :=
    if nIqType = .RESULT ∧ pInfo.m_dwParamsToParse &&& JABBER_IQ_PARSE_CHILD_TAG_NODE ≠ 0 then
      XmlFirstChild pNode
    else pInfo.m_pChildNode
  let m_szChildTagName :=
    match m_pChildNode with
    | some child =>
      if nIqType = .RESULT ∧ pInfo.m_dwParamsToParse &&& JABBER_IQ_PARSE_CHILD_TAG_NAME ≠ 0 then
        some child.Name
      else pInfo.m_szChildTagName
    | none => pInfo.m_szChildTagName
  let m_szChildTagXmlns :=
    if nIqType = .RESULT ∧ m_pChildNode.isSome ∧
        pInfo.m_dwParamsToParse &&& JABBER_IQ_PARSE_CHILD_TAG_XMLNS ≠ 0 then
      XmlGetAttr pNode (literal "xmlns")
    else pInfo.m_szChildTagXmlns
  let m_szFrom := XmlGetAttr pNode (literal "from")
  let m_hContact :=
    match m_szFrom with
    | some szFrom =>
      if pInfo.m_dwParamsToParse &&& JABBER_IQ_PARSE_HCONTACT ≠ 0 then env.HContactFromJID szFrom
      else pInfo.m_hContact
    | none => pInfo.m_hContact
  { pInfo with
    m_nIqType := nIqType
    m_pChildNode := m_pChildNode
    m_szChildTagName := m_szChildTagName
    m_szChildTagXmlns := m_szChildTagXmlns
    m_szId := XmlGetAttr pNode (literal "id")
    m_szTo := XmlGetAttr pNode (literal "to")
    m_szFrom := m_szFrom
    m_hContact := m_hContact }

def AnswerInfo (call : IqCall φ) (nIqType : JABBER_IQ_TYPE) (pNode : Option TiXmlElement)
    (pInfo : CJabberIqInfo φ)
    : Outcome (CJabberIqManager φ) Unit :=
  match pInfo.m_pHandler with
  | none => .returned mgr ()
  | some pHandler =>
    .returned (mgr.invoke env call pHandler pNode (answered env nIqType pNode pInfo)) ()

def expireWhile (call : IqCall φ)
    (next : CJabberIqManager φ → Option (CJabberIqInfo φ) × CJabberIqManager φ) (n : Nat)
    : Outcome (CJabberIqManager φ) Unit :=
  whileSome next (fun mgr pInfo => mgr.ExpireInfo env call (some pInfo)) n mgr

def CheckExpired (n : Nat) : Outcome (CJabberIqManager φ) Unit :=
  mgr.expireWhile env .CheckExpired (DetachExpired env) n

def ExpireIq (n : Nat) (nIqId : Int32) : Outcome (CJabberIqManager φ) Unit :=
  mgr.expireWhile env (.ExpireIq nIqId) (DetachInfoById · nIqId) n

def ExpireByUserData (n : Nat) (pUserData : Nat) : Outcome (CJabberIqManager φ) Bool :=
  let bRet := (mgr.DetachInfoByUserData pUserData).1.isSome
  (mgr.expireWhile env (.ExpireByUserData pUserData) (DetachInfoByUserData · pUserData) n).bind
    fun mgr _ => .returned mgr bRet

def ExpireAll (n : Nat) : Outcome (CJabberIqManager φ) Unit :=
  mgr.expireWhile env .ExpireAll DetachInfo n

def DeleteHandler (address : Nat) : Outcome (CJabberIqManager φ) Bool :=
  match mgr.detach fun it => it.address = address with
  | (some pInfo, mgr) =>
    (mgr.ExpireInfo env (.DeleteHandler address) (some pInfo)).bind fun mgr _ => .returned mgr true
  | (none, mgr) => .returned mgr false

-- The loop tests at its end: its first round is there when there is a request to begin with.
def HandleIq (n : Nat) (nIqId : Int32) (pNode : Option TiXmlElement)
    : Outcome (CJabberIqManager φ) Bool :=
  if nIqId = -1 ∨ pNode.isNone then
    .returned mgr false
  else
    match XmlGetAttr pNode (literal "type") with
    | none => .returned mgr false
    | some szType =>
      match answerType szType with
      | none => .returned mgr false
      | some nIqType =>
        if (mgr.DetachInfoById nIqId).1.isNone then
          .returned mgr false
        else
          (whileSome (DetachInfoById · nIqId)
            (fun mgr pInfo => mgr.AnswerInfo env (.HandleIq nIqId pNode) nIqType pNode pInfo)
            n mgr).bind fun mgr _ => .returned mgr true

def step (n : Nat) : IqCall φ → Outcome (CJabberIqManager φ) Unit
  | .AddHandler request => .returned (mgr.AddHandler env request) ()
  | .SetParamsToParse address dwParamsToParse =>
    .returned (mgr.SetParamsToParse address dwParamsToParse) ()
  | .SetTimeout address dwTimeout => .returned (mgr.SetTimeout address dwTimeout) ()
  | .HandleIq nIqId pNode => (mgr.HandleIq env n nIqId pNode).bind fun mgr _ => .returned mgr ()
  | .CheckExpired => mgr.CheckExpired env n
  | .ExpireIq nIqId => mgr.ExpireIq env n nIqId
  | .ExpireByUserData pUserData =>
    (mgr.ExpireByUserData env n pUserData).bind fun mgr _ => .returned mgr ()
  | .ExpireAll => mgr.ExpireAll env n
  | .DeleteHandler address => (mgr.DeleteHandler env address).bind fun mgr _ => .returned mgr ()

def call (o : Outcome (CJabberIqManager φ) Unit) (c : Nat × IqCall φ)
    : Outcome (CJabberIqManager φ) Unit :=
  o.bind fun mgr _ => mgr.step env c.1 c.2

end CJabberIqManager
end Jabber
