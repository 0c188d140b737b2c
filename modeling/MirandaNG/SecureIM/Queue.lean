import MirandaNG.Transition.Run

/-!
This module contains the messages that SecureIM holds back while it exchanges keys with a contact (one that is no chat
room, in native mode): the handlers that put them into the queue of the contact, and the threads that wait for the
exchange and send the queue.
-/

namespace SecureIM

inductive SiG where
  | KEYR | ENON | ENOF | RSND | INIT | DEIN | DISA | FAKE | KEYA | KEYB | PART | SECU | SECP | PGPM | NONE
deriving DecidableEq

abbrev Text := List UInt8

def ascii (s : String) : Text := s.toList.map fun c => c.toNat.toUInt8

def signs : List (Text × SiG) :=
  [(ascii "----Key3@hell----", .KEYR), (ascii "----Key4@hell----", .KEYR), (ascii "----Secured@hell----", .ENON),
   (ascii "----Offline@hell----", .ENOF), (ascii "----Resend@hell----", .RSND), (ascii "----INIT@HELL----", .INIT),
   (ascii "----DEINIT@HELL----", .DEIN), (ascii "----DISABLED@HELL----", .DISA), (ascii "----FAKE@HELL----", .FAKE),
   (ascii "----KeyA@hell----", .KEYA), (ascii "----KeyB@hell----", .KEYB), (ascii "----Part@hell----", .PART),
   (ascii "[SECURE]", .SECU), (ascii "[$ECURE]", .SECP), (ascii "-----BEGIN PGP MESSAGE-----", .PGPM)]

def getSecureSig (szMsg : Text) : SiG :=
  match signs.find? fun it => it.1.isPrefixOf szMsg with
  | some it => it.2
  | none => .NONE

inductive Exchange where
  | reset | launched | secure | unsecure
deriving DecidableEq

inductive Status where
  | DISABLED | ENABLED | ALWAYSTRY
deriving DecidableEq

inductive Presence where
  | unknown | offline | online
deriving DecidableEq

structure Keys where
  keya : Bool
  keyb : Bool
  keyx : Bool

structure Context where
  cntx : Option Keys
  offlineKey : Bool

namespace Context

variable (c : Context)

def cpp_keya : Bool := c.cntx.any (·.keya)
def cpp_keyb : Bool := c.cntx.any (·.keyb)
def cpp_keyx : Bool := c.cntx.any (·.keyx)

def sessionKey : Bool := c.cpp_keyx && !c.offlineKey

end Context

structure Answers where
  InitKeyA : Option Keys → Keys
  InitKeyB : Option Keys → Keys × Bool
  InitKeyX : Option Keys → Keys
  CalculateKeyX : Keys → Keys
  cpp_reset_context : Keys → Keys
  NEWPG : Bool
  decodeMsg : Text
  offlineKeyValid : Bool
  sendUnencrypted : Bool
  ket : Nat

def Answers.reset (a : Answers) (c : Context) : Context := { c with cntx := c.cntx.map a.cpp_reset_context }

structure Outside where
  context : Context
  status : Status
  presence : Presence
  bSOM : Bool
  isClientMiranda : Bool
  isSecureIM : Bool

structure Msg where
  wParam : Nat
  Message : Text
deriving DecidableEq

-- Where `sttWaitForExchange` stands when it does not hold the mutex: behind `i` rounds of the loop, behind the loop, at
-- the question, in front of the mutex with the answer yes, with the exchange completed or with nothing to send, and in
-- front of its last assignment
inductive Stage where
  | sleeping (i : Nat) | looking | asking | agreed | completed | clearing | closing
deriving DecidableEq

-- A handler in front of `addMsg2Queue`, or in front of the test that starts an exchange
inductive Sender where
  | queueing (msg : Msg) (typed : Bool)
  | connecting

-- The thread that holds the mutex and sends the queue: with `sendQueue` set or not. The first `freed` messages of the
-- queue have been sent and freed.
structure Walker where
  sendQueue : Bool
  freed : Nat

structure Sent where
  text : Text
  encrypted : Bool
  exposed : Bool
deriving DecidableEq

-- `added`, `handed`, `wasReset` and `out` are what has happened so far. Behind a freed message nothing is defined.
structure State where
  outside : Outside
  waitForExchange : Exchange
  msgQueue : List Msg
  walker : Option Walker
  threads : List Stage
  senders : List Sender
  added : List Msg
  handed : List Msg
  out : List Sent
  wasReset : Bool
  crashed : Bool

def Outside.exposed (o : Outside) : Bool :=
  o.context.sessionKey && o.presence == .online && o.status != .DISABLED

namespace State

variable (s : State)

def sendQueue : Bool := s.walker.any (·.sendQueue)

def setExchange (flag : Exchange) : State :=
  match flag with
  | .launched =>
    if s.waitForExchange = .reset then
      { s with waitForExchange := .launched, threads := s.threads ++ [.sleeping 0] }
    else
      s
  | flag =>
    let s := { s with wasReset := s.wasReset || flag = .reset }
    if s.waitForExchange = .reset then s else { s with waitForExchange := flag }

def addMsg2Queue (msg : Msg) : State :=
  match s.walker with
  | some ⟨_, _ + 1⟩ => { s with crashed := true }
  | _ => { s with msgQueue := s.msgQueue ++ [msg], added := s.added ++ [msg] }

inductive Fate where
  | plain | encrypted | dropped | queue | connect
deriving DecidableEq

def established (a : Answers) (ssig : SiG) (context : Context) : Context × Fate :=
  let context := if ssig = .INIT then a.reset context else context
  if ssig = .DEIN then
    if context.cntx.isSome then ({ context with cntx := none }, .plain) else (context, .dropped)
  else
    let context :=
      if context.cpp_keya && context.cpp_keyb && !context.cpp_keyx then
        { context with cntx := context.cntx.map a.CalculateKeyX }
      else
        context
    if context.cpp_keyx then
      (context, .encrypted)
    else if ssig = .INIT || (s.outside.status = .ALWAYSTRY && s.outside.isClientMiranda) || s.outside.isSecureIM ||
        s.waitForExchange ≠ .reset then
      (context, if ssig = .NONE then .queue else .connect)
    else
      (context, .plain)

def onSendMsg (a : Answers) (text : Text) : Context × Fate :=
  let ssig := getSecureSig text
  let context := s.outside.context
  if ssig = .PGPM || ssig = .SECU || ssig = .SECP || s.outside.presence = .unknown ||
      (ssig = .NONE && s.sendQueue) || (ssig = .NONE && s.outside.status = .DISABLED) then
    (context, .plain)
  else if s.outside.status = .DISABLED then
    if ssig = .INIT then (context, .dropped) else ({ context with cntx := none }, .plain)
  else if s.outside.presence = .offline then
    let context := if ssig = .INIT && context.cpp_keyx then a.reset context else context
    if s.outside.bSOM && s.outside.status = .ALWAYSTRY && s.outside.isClientMiranda then
      if a.offlineKeyValid then
        s.established a ssig { cntx := some (a.InitKeyX context.cntx), offlineKey := true }
      else
        (context, if a.sendUnencrypted then .plain else .dropped)
    else
      (context, if ssig = .NONE then .plain else .dropped)
  else
    let context := if context.offlineKey then { a.reset context with offlineKey := false } else context
    s.established a ssig context

def setContext (context : Context) : State := { s with outside := { s.outside with context } }

def leave (text : Text) (encrypted : Bool) : State :=
  { s with out := s.out ++ [{ text, encrypted, exposed := s.outside.exposed }] }

def connect (a : Answers) : State :=
  if s.waitForExchange = .reset then
    (s.setContext { s.outside.context with cntx := some (a.InitKeyA s.outside.context.cntx) }).setExchange .launched
  else
    s

def send (a : Answers) (msg : Msg) : State :=
  match s.onSendMsg a msg.Message with
  | (context, .plain) => (s.setContext context).leave msg.Message false
  | (context, .encrypted) => (s.setContext context).leave msg.Message true
  | (context, .dropped) => s.setContext context
  | (context, .queue) => { s.setContext context with senders := s.senders ++ [.queueing msg true] }
  | (context, .connect) => { s.setContext context with senders := s.senders ++ [.connecting] }

def goOn (i : Nat) (a : Answers) : State :=
  match s.senders[i]? with
  | some (.queueing msg typed) =>
    if s.walker.isSome then s
    else
      { s.addMsg2Queue msg with senders := if typed then s.senders.set i .connecting else s.senders.eraseIdx i }
  | some .connecting => { s.connect a with senders := s.senders.eraseIdx i }
  | none => s

def sessionEstablished (a : Answers) : State :=
  let context := s.outside.context
  let context :=
    if context.cpp_keya && context.cpp_keyb && !context.cpp_keyx then
      { context with cntx := context.cntx.map a.CalculateKeyX }
    else
      context
  (s.setContext context).setExchange .secure

def onRecvMsg (a : Answers) (wParam : Nat) (ssig : SiG) : State :=
  let context := s.outside.context
  if s.outside.status = .DISABLED then
    s
  else
    match ssig with
    | .RSND =>
      if context.cpp_keyx then
        { s with senders := s.senders ++ [.queueing ⟨wParam, a.decodeMsg⟩ false] }
      else
        s
    | .DISA => (s.setContext { context with cntx := none }).setExchange .unsecure
    | .DEIN => (s.setContext { context with cntx := none }).setExchange .unsecure
    | .KEYR =>
      let context := if context.cpp_keyb then a.reset context else context
      let (keys, isError) := a.InitKeyB context.cntx
      let context := { context with cntx := some keys }
      if isError then
        (s.setContext context).setExchange .unsecure
      else if a.NEWPG then
        let context := a.reset context
        (s.setContext { context with cntx := some (a.InitKeyA context.cntx) }).setExchange .launched
      else if context.cpp_keya then
        (s.setContext context).sessionEstablished a
      else
        (s.setContext { context with cntx := some (a.InitKeyA context.cntx) }).sessionEstablished a
    | .KEYA =>
      let context := a.reset context
      let (keys, isError) := a.InitKeyB context.cntx
      let context := { context with cntx := some keys }
      if isError then
        (s.setContext context).setExchange .unsecure
      else
        (s.setContext { context with cntx := some (a.InitKeyA context.cntx) }).sessionEstablished a
    | .KEYB =>
      if !context.cpp_keya then
        (s.setContext (a.reset context)).setExchange .unsecure
      else
        let (keys, isError) := a.InitKeyB context.cntx
        let context := { context with cntx := some keys }
        if isError then (s.setContext (a.reset context)).setExchange .unsecure
        else (s.setContext context).sessionEstablished a
    | _ => s

def handOver (w : Walker) (a : Answers) (msg : Msg) : State :=
  let t := { s with handed := s.handed ++ [msg] }
  let t :=
    match t.onSendMsg a msg.Message with
    | (context, .plain) => (t.setContext context).leave msg.Message false
    | (context, .encrypted) => (t.setContext context).leave msg.Message true
    | (context, .dropped) => t.setContext context
    | (context, .queue) => ((t.setContext context).addMsg2Queue msg).connect a
    | (context, .connect) => (t.setContext context).connect a
  { t with walker := some { w with freed := w.freed + 1 } }

def walk (a : Answers) : State :=
  match s.walker with
  | none => s
  | some w =>
    match s.msgQueue[w.freed]? with
    | some msg => s.handOver w a msg
    | none =>
      if w.sendQueue then { s with msgQueue := [], walker := none, threads := s.threads ++ [.closing] }
      else { s with msgQueue := [], walker := none, waitForExchange := .reset }

def wait (i : Nat) (a : Answers) : State :=
  match s.threads[i]? with
  | some (.sleeping k) =>
    if k < a.ket * 10 && s.waitForExchange = .launched then { s with threads := s.threads.set i (.sleeping (k + 1)) }
    else { s with threads := s.threads.set i .looking }
  | some .looking =>
    match s.waitForExchange with
    | .secure => { s with threads := s.threads.set i .completed }
    | .reset => { s with threads := s.threads.set i .clearing }
    | _ => { s with threads := s.threads.set i (if s.msgQueue = [] then .closing else .asking) }
  | some .asking => { s with threads := s.threads.set i (if a.sendUnencrypted then .agreed else .closing) }
  | some .agreed =>
    if s.walker.isSome then s else { s with threads := s.threads.eraseIdx i, walker := some ⟨true, 0⟩ }
  | some .completed =>
    if s.walker.isSome then s else { s with threads := s.threads.eraseIdx i, walker := some ⟨false, 0⟩ }
  | some .clearing =>
    if s.walker.isSome then s else { s with threads := s.threads.eraseIdx i, msgQueue := [] }
  | some .closing => { s with threads := s.threads.eraseIdx i, waitForExchange := .reset }
  | none => s

inductive Event where
  | send (a : Answers) (msg : Msg)
  | goOn (i : Nat) (a : Answers)
  | received (a : Answers) (wParam : Nat) (ssig : SiG)
  | walk (a : Answers)
  | wait (i : Nat) (a : Answers)
  | waitForExchange (flag : Exchange)
  | outside (o : Outside)

def step (s : State) (e : Event) : State :=
  if s.crashed then
    s
  else
    match e with
    | .send a msg => s.send a msg
    | .goOn i a => s.goOn i a
    | .received a wParam ssig => s.onRecvMsg a wParam ssig
    | .walk a => s.walk a
    | .wait i a => s.wait i a
    | .waitForExchange flag => s.setExchange flag
    | .outside o => { s with outside := o }

def start (outside : Outside) : State where
  outside
  waitForExchange := .reset
  msgQueue := []
  walker := none
  threads := []
  senders := []
  added := []
  handed := []
  out := []
  wasReset := false
  crashed := false

end State
end SecureIM
