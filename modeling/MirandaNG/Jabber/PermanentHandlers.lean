import MirandaNG.Core.ObjList
import MirandaNG.Jabber.IqManager
import MirandaNG.Transition.Run

/-!
This module contains the permanent handlers of requests and of messages: they are registered with a
priority, a stanza is offered to them in the order of their priorities, and they are deleted by the
pointer that registering gave out.
-/

namespace Jabber

open Transition

def JABBER_IQ_TYPE_ANY : Int32 := 15
def JABBER_MESSAGE_TYPE_ANY : Int32 := 31

def JABBER_MESSAGE_PARSE_HCONTACT : UInt32 := 24

def JH_PRIORITY_DEFAULT : Int32 := 1000

def JABBER_IQ_TYPE.bits : JABBER_IQ_TYPE → Int32
  | .FAIL => 0
  | .RESULT => 1
  | .ERROR => 2
  | .GET => 4
  | .SET => 8

inductive JABBER_MESSAGE_TYPE where
  | FAIL
  | NORMAL
  | ERROR
  | CHAT
  | GROUPCHAT
  | HEADLINE
deriving DecidableEq

def JABBER_MESSAGE_TYPE.bits : JABBER_MESSAGE_TYPE → Int32
  | .FAIL => 0
  | .NORMAL => 1
  | .ERROR => 2
  | .CHAT => 4
  | .GROUPCHAT => 8
  | .HEADLINE => 16

-- `CJabberIqPermanentInfo` and `CJabberMessagePermanentInfo`, at the address of the object; `m_nTypes`
-- is `m_nIqTypes` in the one and `m_nMessageTypes` in the other.
structure CJabberPermanentInfo (φ : Type) where
  address : Nat
  m_pHandler : φ
  m_dwParamsToParse : UInt32
  m_nTypes : Int32
  m_szXmlns : Option CStr
  m_szTag : Option CStr
  m_bAllowPartialNs : Bool
  m_pUserData : Nat
  m_pUserDataFree : Option Nat
  m_iPriority : Int32

structure CJabberMessageInfo where
  m_pUserData : Nat
  m_nMessageType : JABBER_MESSAGE_TYPE
  m_szFrom : Option CStr
  m_szChildTagXmlns : Option CStr
  m_szChildTagName : CStr
  m_hChildNode : TiXmlElement
  m_hContact : UInt32
  m_szTo : Option CStr
  m_szId : Option CStr

structure HandlerArgs (φ : Type) where
  pHandler : φ
  nTypes : Int32
  dwParamsToParse : UInt32
  szXmlns : Option CStr
  bAllowPartialNs : Bool
  szTag : Option CStr
  pUserData : Nat
  pUserDataFree : Option Nat
  iPriority : Int32

structure HandlerProto (φ : Type) where
  HContactFromJID : Option CStr → UInt32
  answerIq : φ → Option TiXmlElement → CJabberIqInfo φ → Bool
  answerMessage : φ → Option TiXmlElement → CJabberMessageInfo → Bool

abbrev Handlers (φ : Type) := ObjList (CJabberPermanentInfo φ)

variable {φ : Type}

def ComparePermanent : CJabberPermanentInfo φ → CJabberPermanentInfo φ → Int :=
  ObjList.byPriority CJabberPermanentInfo.m_iPriority

def CJabberPermanentInfo.suits (pInfo : CJabberPermanentInfo φ) (child : TiXmlElement) : Bool :=
  (pInfo.m_szXmlns.isNone || pInfo.m_szXmlns == XmlGetAttr (some child) (literal "xmlns")) &&
    (pInfo.m_szTag.isNone || pInfo.m_szTag == some child.Name)

namespace Handlers

def newInfo (any : Int32) (address : Nat) (args : HandlerArgs φ) : CJabberPermanentInfo φ where
  address := address
  m_pHandler := args.pHandler
  m_dwParamsToParse := args.dwParamsToParse
  m_nTypes := if args.nTypes ≠ 0 then args.nTypes else any
  m_szXmlns := args.szXmlns
  m_szTag := args.szTag
  m_bAllowPartialNs := args.bAllowPartialNs
  m_pUserData := args.pUserData
  m_pUserDataFree := args.pUserDataFree
  m_iPriority := args.iPriority

def AddPermanentHandler (any : Int32) (handlers : Handlers φ) (address : Nat) (args : HandlerArgs φ)
    : Handlers φ :=
  handlers.insert ComparePermanent (newInfo any address args)

def DeletePermanentHandler (handlers : Handlers φ) (pInfo : CJabberPermanentInfo φ)
    : Handlers φ × Bool :=
  let removed := handlers.remove ComparePermanent pInfo
  (removed.1, removed.2 == 1)

end Handlers

namespace CJabberIqManager

def AddPermanentHandler : Handlers φ → Nat → HandlerArgs φ → Handlers φ :=
  Handlers.AddPermanentHandler JABBER_IQ_TYPE_ANY

def permanentType (szType : CStr) : Option JABBER_IQ_TYPE :=
  if mir_strcmpi (some szType) (some (literal "get")) = 0 then some .GET
  else if mir_strcmpi (some szType) (some (literal "set")) = 0 then some .SET
  else none

def permanentInfo (env : HandlerProto φ) (pNode : Option TiXmlElement)
    (pInfo : CJabberPermanentInfo φ) (nIqType : JABBER_IQ_TYPE) (pFirstChild : TiXmlElement)
    : CJabberIqInfo φ :=
  let m_szFrom := XmlGetAttr pNode (literal "from")
  { number := 0
    address := 0
    m_pHandler := none
    m_nIqId := 0
    m_dwParamsToParse := 0
    m_dwRequestTime := 0
    m_dwTimeout := 0
    m_szReceiver := none
    m_iPriority := 0
    m_pUserData := pInfo.m_pUserData
    m_nIqType := nIqType
    m_szFrom := m_szFrom
    m_szChildTagXmlns := XmlGetAttr (some pFirstChild) (literal "xmlns")
    m_szChildTagName := some pFirstChild.Name
    m_pChildNode := some pFirstChild
    m_hContact :=
      if pInfo.m_dwParamsToParse &&& JABBER_IQ_PARSE_HCONTACT ≠ 0 ∧ m_szFrom.isSome then
        env.HContactFromJID m_szFrom
      else 0
    m_szTo := XmlGetAttr pNode (literal "to")
    m_szId := XmlGetAttr pNode (literal "id") }

def offer (env : HandlerProto φ) (pNode : Option TiXmlElement) (pInfo : CJabberPermanentInfo φ)
    : Option (List (CJabberIqInfo φ) × Bool) :=
  match (XmlGetAttr pNode (literal "type")).bind permanentType with
  | none => none
  | some nIqType =>
    if pInfo.m_nTypes &&& nIqType.bits = 0 then
      some ([], false)
    else
      match XmlFirstChild pNode with
      | none => none
      | some pFirstChild =>
        if pInfo.suits pFirstChild then
          let iqInfo := permanentInfo env pNode pInfo nIqType pFirstChild
          some ([iqInfo], env.answerIq pInfo.m_pHandler pNode iqInfo)
        else
          some ([], false)

def HandleIqPermanent (env : HandlerProto φ) (handlers : Handlers φ) (pNode : Option TiXmlElement)
    : List (CJabberPermanentInfo φ × CJabberIqInfo φ) × Bool :=
  ObjList.dispatch (offer env pNode) handlers.items

end CJabberIqManager

namespace CJabberMessageManager

def AddPermanentHandler : Handlers φ → Nat → HandlerArgs φ → Handlers φ :=
  Handlers.AddPermanentHandler JABBER_MESSAGE_TYPE_ANY

def messageType (szType : Option CStr) : Option JABBER_MESSAGE_TYPE :=
  if szType.isNone then some .NORMAL
  else if mir_strcmpi szType (some (literal "normal")) = 0 then some .NORMAL
  else if mir_strcmpi szType (some (literal "error")) = 0 then some .ERROR
  else if mir_strcmpi szType (some (literal "chat")) = 0 then some .CHAT
  else if mir_strcmpi szType (some (literal "groupchat")) = 0 then some .GROUPCHAT
  else if mir_strcmpi szType (some (literal "headline")) = 0 then some .HEADLINE
  else none

def messageInfo (env : HandlerProto φ) (node : Option TiXmlElement) (it : CJabberPermanentInfo φ)
    (nMessageType : JABBER_MESSAGE_TYPE) (child : TiXmlElement)
    : CJabberMessageInfo :=
  let m_szFrom := XmlGetAttr node (literal "from")
  { m_pUserData := it.m_pUserData
    m_nMessageType := nMessageType
    m_szFrom := m_szFrom
    m_szChildTagXmlns := XmlGetAttr (some child) (literal "xmlns")
    m_szChildTagName := child.Name
    m_hChildNode := child
    m_hContact :=
      if it.m_dwParamsToParse &&& JABBER_MESSAGE_PARSE_HCONTACT ≠ 0 then env.HContactFromJID m_szFrom
      else 0
    m_szTo := XmlGetAttr node (literal "to")
    m_szId := XmlGetAttr node (literal "id") }

def offer (env : HandlerProto φ) (node : Option TiXmlElement) (it : CJabberPermanentInfo φ)
    : Option (List CJabberMessageInfo × Bool) :=
  match messageType (XmlGetAttr node (literal "type")) with
  | none => none
  | some nMessageType =>
    if it.m_nTypes &&& nMessageType.bits = 0 then
      some ([], false)
    else
      let offered := ObjList.dispatch (fun child =>
        if it.suits child then
          let messageInfo := messageInfo env node it nMessageType child
          some ([messageInfo], env.answerMessage it.m_pHandler node messageInfo)
        else
          some ([], false)) ((node.map TiXmlElement.children).getD [])
      some (offered.1.map Prod.snd, offered.2)

def HandleMessagePermanent (env : HandlerProto φ) (handlers : Handlers φ) (node : Option TiXmlElement)
    : List (CJabberPermanentInfo φ × CJabberMessageInfo) × Bool :=
  ObjList.dispatch (offer env node) handlers.items

end CJabberMessageManager

inductive HandlerCall (φ : Type) where
  | AddPermanentHandler (address : Nat) (args : HandlerArgs φ)
  | DeletePermanentHandler (pInfo : CJabberPermanentInfo φ)

namespace Handlers

def call (any : Int32) (handlers : Handlers φ) : HandlerCall φ → Handlers φ
  | .AddPermanentHandler address args => handlers.AddPermanentHandler any address args
  | .DeletePermanentHandler pInfo => (handlers.DeletePermanentHandler pInfo).1

def Valid (handlers : Handlers φ) : HandlerCall φ → Prop
  | .AddPermanentHandler address _ => ∀ it ∈ handlers.items, it.address ≠ address
  | .DeletePermanentHandler pInfo => pInfo ∈ handlers.items

def Fits (handlers : Handlers φ) : HandlerCall φ → Prop
  | .AddPermanentHandler address args =>
    handlers.Valid (.AddPermanentHandler address args) ∧
      ∀ it ∈ handlers.items, ObjList.Near it.m_iPriority args.iPriority
  | .DeletePermanentHandler pInfo => handlers.Valid (.DeletePermanentHandler pInfo)

def Distinct (handlers : Handlers φ) : Prop :=
  ∀ p ∈ handlers.items, ∀ q ∈ handlers.items, p.m_iPriority = q.m_iPriority → p = q

-- The handler `p` and no other is gone, the others are in the order of their priorities and are called
-- with every stanza they were called with before.
structure DeletesOnly {ν κ : Type} (handle : Handlers φ → ν → List (CJabberPermanentInfo φ × κ) × Bool)
    (handlers : Handlers φ) (p : CJabberPermanentInfo φ)
    : Prop where
  returned : (handlers.DeletePermanentHandler p).2 = true
  without : handlers.Without p (handlers.DeletePermanentHandler p).1
  inOrder : ObjList.InOrder CJabberPermanentInfo.m_iPriority (handlers.DeletePermanentHandler p).1.items
  called : ∀ node, ∀ call ∈ (handle handlers node).1, call.1 ≠ p →
    call ∈ (handle (handlers.DeletePermanentHandler p).1 node).1

structure Ranked (handlers : Handlers φ) : Prop where
  inOrder : ObjList.InOrder CJabberPermanentInfo.m_iPriority handlers.items
  near : ∀ p ∈ handlers.items, ∀ q ∈ handlers.items, ObjList.Near p.m_iPriority q.m_iPriority

variable {any : Int32} {handlers : Handlers φ} {p q : CJabberPermanentInfo φ}

theorem Ranked.add (h : handlers.Ranked) {address : Nat} {args : HandlerArgs φ}
    (hnear : ∀ it ∈ handlers.items, ObjList.Near it.m_iPriority args.iPriority)
    : (handlers.AddPermanentHandler any address args).Ranked where
  inOrder := ObjList.insert_inOrder h.inOrder hnear
  near := by
    intro x hx y hy
    rcases ObjList.mem_insert.1 hx with rfl | hx
    . rcases ObjList.mem_insert.1 hy with rfl | hy
      . exact .refl _
      . exact (hnear y hy).symm
    . rcases ObjList.mem_insert.1 hy with rfl | hy
      . exact hnear x hx
      . exact h.near x hx y hy

theorem Ranked.delete (h : handlers.Ranked) : (handlers.DeletePermanentHandler p).1.Ranked := by
  have hsub : (handlers.DeletePermanentHandler p).1.items.Sublist handlers.items :=
    ObjList.remove_sublist ComparePermanent handlers p
  exact ⟨h.inOrder.sublist hsub, fun x hx y hy => h.near x (hsub.subset hx) y (hsub.subset hy)⟩

theorem Ranked.call (h : handlers.Ranked) (c : HandlerCall φ) (hok : handlers.Fits c)
    : (handlers.call any c).Ranked := by
  cases c with
  | AddPermanentHandler address args => exact h.add hok.2
  | DeletePermanentHandler pInfo => exact h.delete

theorem Ranked.of_run (h : Run (Handlers.call any) Fits {} handlers) : handlers.Ranked :=
  h.inv (fun _ c hi hok => hi.call c hok) ⟨.nil, nofun⟩

variable {ν κ : Type} {round : ν → CJabberPermanentInfo φ → Option (List κ × Bool)}

theorem Ranked.deletesOnly (h : handlers.Ranked) (hdistinct : handlers.Distinct) (hp : p ∈ handlers.items)
    : DeletesOnly (fun handlers node => ObjList.dispatch (round node) handlers.items) handlers p := by
  obtain ⟨hwithout, hone⟩ := ObjList.remove_spec hp h.inOrder (fun x hx => h.near x hx p hp)
    fun x hx heq => hdistinct x hx p hp heq
  refine ⟨beq_iff_eq.2 hone, hwithout, h.delete.inOrder, ?_⟩
  intro node c hc hne
  obtain ⟨pre, post, hitems, heq⟩ := hwithout
  have hrest : (handlers.DeletePermanentHandler p).1.items = pre ++ post := congrArg ObjList.items heq
  rw [hitems] at hc
  rw [hrest]
  exact ObjList.mem_dispatch_of_without hc hne

theorem eq_of_deletesOnly {handle : Handlers φ → ν → List (CJabberPermanentInfo φ × κ) × Bool}
    (hp : DeletesOnly handle handlers p) (hq : DeletesOnly handle handlers q)
    (h : p.m_iPriority = q.m_iPriority)
    : p = q := by
  have heq : handlers.DeletePermanentHandler p = handlers.DeletePermanentHandler q := by
    unfold DeletePermanentHandler ComparePermanent
    rw [ObjList.remove_congr h]
  have hwithout := hp.without
  rw [heq] at hwithout
  exact hwithout.unique hq.without

end Handlers

theorem DeletePermanentHandler_exact (env : HandlerProto φ) (handlers : Handlers φ)
    : (Run (Handlers.call JABBER_IQ_TYPE_ANY) Handlers.Fits {} handlers → handlers.Distinct →
        ∀ p ∈ handlers.items, handlers.DeletesOnly (CJabberIqManager.HandleIqPermanent env) p) ∧
      (Run (Handlers.call JABBER_MESSAGE_TYPE_ANY) Handlers.Fits {} handlers → handlers.Distinct →
        ∀ p ∈ handlers.items, handlers.DeletesOnly (CJabberMessageManager.HandleMessagePermanent env) p) ∧
      ((∀ p ∈ handlers.items, handlers.DeletesOnly (CJabberIqManager.HandleIqPermanent env) p) →
        handlers.Distinct) ∧
      ((∀ p ∈ handlers.items, handlers.DeletesOnly (CJabberMessageManager.HandleMessagePermanent env) p) →
        handlers.Distinct) := by
  refine ⟨fun h hdistinct p hp => ?_, fun h hdistinct p hp => ?_, ?_, ?_⟩
  . exact (Handlers.Ranked.of_run h).deletesOnly hdistinct hp
  . exact (Handlers.Ranked.of_run h).deletesOnly hdistinct hp
  . exact fun h p hp q hq heq => Handlers.eq_of_deletesOnly (h p hp) (h q hq) heq
  . exact fun h p hp q hq heq => Handlers.eq_of_deletesOnly (h p hp) (h q hq) heq

def plainArgs (iPriority : Int32) : HandlerArgs Unit where
  pHandler := ()
  nTypes := 0
  dwParamsToParse := 0
  szXmlns := none
  bAllowPartialNs := false
  szTag := none
  pUserData := 0
  pUserDataFree := none
  iPriority := iPriority

def plainProto : HandlerProto Unit where
  HContactFromJID _ := 0
  answerIq _ _ _ := true
  answerMessage _ _ _ := true

def twoHandlers (first second : Int32) : Handlers Unit :=
  [.AddPermanentHandler 8 (plainArgs first), .AddPermanentHandler 16 (plainArgs second)].foldl
    (Handlers.call JABBER_IQ_TYPE_ANY) {}

theorem mem_twoHandlers {first second : Int32} {p : CJabberPermanentInfo Unit}
    : p ∈ (twoHandlers first second).items ↔
        p = Handlers.newInfo JABBER_IQ_TYPE_ANY 16 (plainArgs second) ∨
          p = Handlers.newInfo JABBER_IQ_TYPE_ANY 8 (plainArgs first) := by
  have hempty : p ∉ ({} : Handlers Unit).items := nofun
  exact ObjList.mem_insert.trans (or_congr_right (ObjList.mem_insert.trans (or_iff_left hempty)))

theorem twoHandlers_valid (first second : Int32)
    : Run (Handlers.call JABBER_IQ_TYPE_ANY) Handlers.Valid {} (twoHandlers first second) := by
  refine .of_along ⟨nofun, ?_, trivial⟩
  intro it hit
  rcases ObjList.mem_insert.1 hit with rfl | hit
  . nofun
  . cases hit

theorem DeletePermanentHandler_distinct
    : ∀ p ∈ (twoHandlers 50 1000).items,
        (twoHandlers 50 1000).DeletesOnly (CJabberIqManager.HandleIqPermanent plainProto) p := by
  refine (DeletePermanentHandler_exact plainProto (twoHandlers 50 1000)).1 (.of_along ?_) ?_
  . refine ⟨⟨nofun, nofun⟩, ⟨?_, ?_⟩, trivial⟩ <;>
    . intro it hit
      rcases ObjList.mem_insert.1 hit with rfl | hit
      . decide
      . cases hit
  . intro p hp q hq heq
    rcases mem_twoHandlers.1 hp with rfl | rfl <;> rcases mem_twoHandlers.1 hq with rfl | rfl <;>
      first | rfl | exact absurd heq (by decide)

theorem not_DeletePermanentHandler
    : ¬ ∀ handlers : Handlers Unit, Run (Handlers.call JABBER_IQ_TYPE_ANY) Handlers.Valid {} handlers →
        ∀ p ∈ handlers.items, handlers.DeletesOnly (CJabberIqManager.HandleIqPermanent plainProto) p := by
  intro hall
  have hdeletes := hall _ (twoHandlers_valid JH_PRIORITY_DEFAULT JH_PRIORITY_DEFAULT)
  have hsecond := hdeletes _ (mem_twoHandlers.2 (.inl rfl))
  have hfirst := hdeletes _ (mem_twoHandlers.2 (.inr rfl))
  have heq := Handlers.eq_of_deletesOnly hfirst hsecond rfl
  exact absurd (congrArg CJabberPermanentInfo.address heq) (by decide)

end Jabber
