import MirandaNG.Data.CInt

/-!
This module contains stream management: the client keeps the stanzas that the server has not yet told
it to have handled, and sends them again when a lost connection is resumed. It runs against a server
that counts the stanzas it handles.
-/

open CInt

namespace Jabber

-- A stanza or an element of stream management. Sessions are numbered, and `enabled` has a number when
-- the session can be resumed.
inductive SmNode (σ : Type) where
  | stanza (s : σ)
  | enable
  | resume (h : Int) (previd : Nat)
  | enabled (id : Option Nat) (max : Option Int)
  | resumed (h : Int) (previd : Nat)
  | r
  | a (h : Int)
deriving DecidableEq

namespace SmNode

variable {σ : Type}

def stanza? : SmNode σ → Option σ
  | .stanza s => some s
  | _ => none

def isRequest : SmNode σ → Bool
  | .r => true
  | _ => false

def isAnswer : SmNode σ → Bool
  | .a _ => true
  | _ => false

end SmNode

structure strm_mgmt (σ : Type) where
  m_bEnabled : Bool := false
  m_bHalfEnabled : Bool := false
  m_bPendingEnable : Bool := false
  m_bResumeSupported : Bool := false
  m_bSessionResumed : Bool := false
  m_bRequestPending : Bool := false
  m_nLocalHCount : Int := 0
  m_nLocalSCount : Int := 0
  m_nReqLocalSCount : Int := 0
  m_nResumeMaxSeconds : Int := 0
  m_tConnLostTime : Int := 0
  m_sResumeId : Option Nat := none
  NodeCache : List (SmNode σ) := []

inductive Line where
  | offline
  | online
  -- sending fails, and the client has not yet noticed
  | broken
deriving DecidableEq

-- The client, the connection and the server. `isOpen` tells that the session was begun on this
-- connection, `sent` are its stanzas and `acked` how many of them the client knows to be handled.
structure SmWorld (σ : Type) where
  mgr : strm_mgmt σ := {}
  line : Line := .offline
  toServer : List (SmNode σ) := []
  toClient : List (SmNode σ) := []
  wire : List (SmNode σ) := []
  current : Option Nat := none
  -- the number of the last session, and how many stanzas were handled when its connection was lost
  lastId : Nat := 0
  stored : Nat := 0
  isOpen : Bool := false
  sent : List σ := []
  acked : Nat := 0

inductive SmEvent (σ : Type) where
  | connect
  | features (sm : Bool) (m_bJabberOnline : Bool) (now : Int)
  | CheckState
  | send (s : σ)
  | SendAck
  | serverHandles (resumable : Bool) (max : Option Int)
  | serverSends (s : σ)
  | serverRequests
  | clientHandles
  | socketError
  | connectionLost (now : Int)

namespace SmWorld

variable {σ : Type} (w : SmWorld σ)

def CACHE_SIZE : Nat := 10

def note (node : SmNode σ) : SmWorld σ :=
  match node with
  | .enable => { w with isOpen := true, sent := [], acked := 0 }
  | .resume _ _ => { w with isOpen := true }
  | .stanza s => if w.isOpen then { w with sent := w.sent ++ [s] } else w
  | _ => w

def send_no_strm_mgmt (node : SmNode σ) : Bool × SmWorld σ :=
  if w.line = .online then
    (true, { w.note node with toServer := w.toServer ++ [node], wire := w.wire ++ [node] })
  else
    (false, w)

def RequestAck : SmWorld σ :=
  if !w.mgr.m_bEnabled then
    w
  else if !w.mgr.m_bRequestPending then
    let mgr := { w.mgr with m_bRequestPending := true, m_nReqLocalSCount := w.mgr.m_nLocalSCount }
    ({ w with mgr := mgr }.send_no_strm_mgmt .r).2
  else
    w

def HandleOutgoingNode (node : SmNode σ) : SmWorld σ :=
  if !w.mgr.m_bHalfEnabled then
    w
  else
    let mgr := { w.mgr with
      m_nLocalSCount := int32 (w.mgr.m_nLocalSCount + 1)
      NodeCache := w.mgr.NodeCache ++ [node] }
    if mgr.NodeCache.length ≥ CACHE_SIZE then { w with mgr := mgr }.RequestAck else { w with mgr := mgr }

def send (node : SmNode σ) : SmWorld σ :=
  match w.send_no_strm_mgmt node with
  | (true, w) => w.HandleOutgoingNode node
  | (false, w) => w

def SendAck : SmWorld σ :=
  if !w.mgr.m_bEnabled then w else (w.send_no_strm_mgmt (.a w.mgr.m_nLocalHCount)).2

def ResetState : SmWorld σ :=
  { w with mgr := { w.mgr with
      m_bEnabled := false
      m_bPendingEnable := false
      m_bHalfEnabled := false
      m_bRequestPending := false
      m_nReqLocalSCount := 0
      m_nResumeMaxSeconds := 0
      m_tConnLostTime := 0
      m_nLocalHCount := 0
      m_nLocalSCount := 0
      m_sResumeId := none } }

def expired (now : Int) : Bool :=
  w.mgr.m_tConnLostTime ≠ 0 ∧ w.mgr.m_nResumeMaxSeconds ≠ 0 ∧
    now - w.mgr.m_tConnLostTime > w.mgr.m_nResumeMaxSeconds

def IsResumeIdPresent (now : Int) : Bool × SmWorld σ :=
  if w.expired now then (false, w.ResetState) else (w.mgr.m_sResumeId.isSome, w)

def EnableStrmMgmt : SmWorld σ :=
  if w.mgr.m_bEnabled then
    w
  else
    let w := { w with mgr := { w.mgr with m_bHalfEnabled := true } }
    match w.mgr.m_sResumeId with
    | none =>
      let w := w.send .enable
      { w with mgr := { w.mgr with m_nLocalSCount := 0 } }
    | some id => w.send (.resume w.mgr.m_nLocalHCount id)

def CheckState : SmWorld σ :=
  if !w.mgr.m_bEnabled ∧ w.mgr.m_bPendingEnable then w.EnableStrmMgmt else w

def CheckStreamFeatures (sm m_bJabberOnline : Bool) (now : Int) : SmWorld σ :=
  let w :=
    match w.IsResumeIdPresent now with
    | (true, w) => w
    | (false, w) => w.ResetState
  if !sm then
    w
  else if !m_bJabberOnline then
    { w with mgr := { w.mgr with m_bPendingEnable := true } }
  else
    w.EnableStrmMgmt

def HandleConnectionLost (now : Int) : SmWorld σ :=
  { w with mgr := { w.mgr with
      m_bEnabled := false
      m_bHalfEnabled := false
      m_bRequestPending := false
      m_nReqLocalSCount := 0
      m_tConnLostTime := now } }

def popFront : SmWorld σ := { w with mgr := { w.mgr with NodeCache := w.mgr.NodeCache.drop 1 } }

def resend : Nat → SmWorld σ → SmWorld σ
  | 0, w => w
  | n + 1, w =>
    match w.mgr.NodeCache with
    | [] => w
    | it :: _ => resend n (w.send it).popFront

-- The sum of the two numbers is compared as a `size_t`.
def ProcessCache (nSrvHCount : Int) (resuming : Bool) : SmWorld σ :=
  let lost := int32 (w.mgr.m_nReqLocalSCount - nSrvHCount % 2 ^ 32)
  let untracked := int32 (w.mgr.m_nLocalSCount - w.mgr.m_nReqLocalSCount)
  if w.mgr.m_nReqLocalSCount < 0 ∨ lost < 0 ∨ untracked < 0 ∨
      int32 (lost + untracked) % 2 ^ 64 > w.mgr.NodeCache.length then
    { w with mgr := { w.mgr with NodeCache := [] } }
  else
    let todelete := int32 (int32 w.mgr.NodeCache.length - (lost + untracked))
    let w := { w with mgr := { w.mgr with NodeCache := w.mgr.NodeCache.drop todelete.toNat } }
    let toresend := if resuming then lost + untracked else lost
    resend toresend.toNat w

def OnProcessSMa (h : Int) : SmWorld σ :=
  if !w.mgr.m_bRequestPending then
    w
  else
    { w with mgr := { w.mgr with m_bRequestPending := false } }.ProcessCache h false

def OnProcessEnabled (id : Option Nat) (max : Option Int) : SmWorld σ :=
  let mgr := { w.mgr with m_bEnabled := true, m_tConnLostTime := 0, m_nLocalHCount := 0 }
  match id with
  | some id =>
    { w with mgr := { mgr with
        m_bResumeSupported := true
        m_sResumeId := some id
        m_nResumeMaxSeconds := max.getD 86400 } }
  | none => { w with mgr := mgr }

def OnProcessResumed (onLoggedIn : List σ) (h : Int) (previd : Nat) : SmWorld σ :=
  if w.mgr.m_sResumeId ≠ some previd then
    w
  else
    let w := { w with mgr := { w.mgr with
      m_bSessionResumed := true
      m_bEnabled := true
      m_bPendingEnable := false
      m_tConnLostTime := 0 } }
    ((onLoggedIn.foldl (fun w s => w.send (.stanza s)) w).CheckState).ProcessCache h true

def HandleIncommingNode (node : SmNode σ) : Bool × SmWorld σ :=
  if !w.mgr.m_bEnabled then
    (false, w)
  else
    match node with
    | .r => (true, w.SendAck)
    | .a h => (true, w.OnProcessSMa h)
    | _ =>
      (false, { w with mgr := { w.mgr with m_nLocalHCount := int32 (w.mgr.m_nLocalHCount + 1) } })

def OnProcessProtocol (onLoggedIn : List σ) (node : SmNode σ) : SmWorld σ :=
  match w.HandleIncommingNode node with
  | (true, w) => w
  | (false, w) =>
    match node with
    | .enabled id max => w.OnProcessEnabled id max
    | .resumed h previd => w.OnProcessResumed onLoggedIn h previd
    | _ => w

def learn (onLoggedIn : List σ) (node : SmNode σ) (sent : List σ) : SmWorld σ :=
  match node with
  | .a h => { w with acked := h.toNat }
  | .resumed h _ =>
    { w with sent := sent.take h.toNat ++ onLoggedIn ++ sent.drop h.toNat, acked := h.toNat }
  | _ => w

def answer (node : SmNode σ) : SmWorld σ := { w with toClient := w.toClient ++ [node] }

def serve (node : SmNode σ) (resumable : Bool) (max : Option Int) : SmWorld σ :=
  match node with
  | .enable =>
    let id := w.lastId + 1
    { w with current := some 0, lastId := id }.answer
      (.enabled (if resumable then some id else none) max)
  | .resume _ previd =>
    if previd = w.lastId ∧ w.current = none then
      { w with current := some w.stored }.answer (.resumed w.stored previd)
    else w
  | .stanza _ => { w with current := w.current.map (· + 1) }
  | .r =>
    match w.current with
    | some h => w.answer (.a h)
    | none => w
  | _ => w

def lose (now : Int) : SmWorld σ :=
  let w := { w with
    line := .offline
    toServer := []
    toClient := []
    stored := w.current.getD w.stored
    current := none
    isOpen := false }
  match w.IsResumeIdPresent now with
  | (true, w) => w.HandleConnectionLost now
  | (false, w) => w.ResetState

def step (onLoggedIn : List σ) : SmEvent σ → SmWorld σ
  | .connect => if w.line = .offline then { w with line := .online } else w
  | .features sm m_bJabberOnline now =>
    if w.line = .online ∧ !w.isOpen then w.CheckStreamFeatures sm m_bJabberOnline now else w
  | .CheckState => if w.line = .offline then w else w.CheckState
  | .send s => w.send (.stanza s)
  | .SendAck => w.SendAck
  | .serverHandles resumable max =>
    match w.toServer with
    | [] => w
    | node :: rest => { w with toServer := rest }.serve node resumable max
  | .serverSends s => if w.line = .online then w.answer (.stanza s) else w
  | .serverRequests => if w.line = .online then w.answer .r else w
  | .clientHandles =>
    match w.toClient with
    | [] => w
    | node :: rest =>
      ({ w with toClient := rest }.OnProcessProtocol onLoggedIn node).learn onLoggedIn node w.sent
  | .socketError => if w.line = .online then { w with line := .broken } else w
  | .connectionLost now => if w.line = .offline then w else w.lose now

end SmWorld
end Jabber
