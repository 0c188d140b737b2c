import MirandaNG.Import.EventInfo
import MirandaNG.Memory.Pages

/-!
This module contains the array of a history window: its pages of items and what adds, inserts, removes and finds items.
-/

namespace NewStory

open Import (DBEVENTINFO MCONTACT)
open Pages (Page)

abbrev MEVENT := UInt32

def EVENTTYPE_MESSAGE : UInt32 := 0

def HIST_BLOCK_SIZE : Nat := 1000

def MAXINT : Nat := 2147483647

inductive Grouping where
  | none
  | head
  | item
deriving DecidableEq

structure EventInfo extends DBEVENTINFO where
  m_bValid : Bool := false
  m_hEvent : MEVENT := 0
deriving DecidableEq

-- The values are those of `ItemData()`: everything is zero, and the height is not known.
structure ItemData where
  m_bSelected : Bool := false
  m_bHighlighted : Bool := false
  m_bDelivered : Bool := false
  m_bRemoteRead : Bool := false
  m_bNew : Bool := false
  m_bLoaded : Bool := false
  m_bIsResult : Bool := false
  m_bOfflineFile : Bool := false
  m_grouping : Grouping := .none
  m_bOfflineDownloaded : UInt8 := 0
  savedTop : Int := 0
  savedHeight : Int := -1
  leftOffset : Int := 0
  dbe : EventInfo := {}
  wtext : Option WStr := none
  qtext : Option WStr := none
  wszNick : Option WStr := none
  pOwner : Option Nat := none
  m_doc : Option Nat := none
deriving DecidableEq

structure Env where
  bMsgGrouping : Bool
  db_event_get : MEVENT → DBEVENTINFO → Option DBEVENTINFO
  createDocument : ItemData → Option Nat
  nick : MCONTACT → CStr → WStr
  IsGroupChat : MCONTACT → Bool
  Events : MCONTACT → MEVENT → List MEVENT

namespace ItemData

variable (env : Env)

def zeroed : ItemData := { savedHeight := 0 }

def getUnixtime (dbei : DBEVENTINFO) : UInt32 :=
  if dbei.flags.bMsec then (dbei.iTimestamp / 1000).toUInt32 else dbei.iTimestamp.toUInt32

def setEvent (p : ItemData) (hContact : MCONTACT) (hEvent : MEVENT) : ItemData :=
  { p with dbe := { p.dbe with hContact := hContact, m_hEvent := hEvent, m_bValid := false } }

def fetch (p : ItemData) : Bool × ItemData :=
  if p.dbe.m_hEvent = 0 then
    (false, p)
  else if p.dbe.m_bValid then
    (true, p)
  else
    match env.db_event_get p.dbe.m_hEvent p.dbe.toDBEVENTINFO with
    | some dbei => (true, { p with dbe := { toDBEVENTINFO := dbei, m_bValid := true, m_hEvent := p.dbe.m_hEvent } })
    | none => (false, p)

def setText (p : ItemData) : ItemData :=
  let p := { p with savedHeight := -1 }
  match env.createDocument p with
  | some doc => { p with m_doc := some doc }
  | none => p

def isEqual (p1 p2 : ItemData) : Bool :=
  p1.dbe.hContact == p2.dbe.hContact && p1.dbe.eventType == p2.dbe.eventType
    && p1.dbe.flags.bSent == p2.dbe.flags.bSent
    && getUnixtime p1.dbe.toDBEVENTINFO / 86400 == getUnixtime p2.dbe.toDBEVENTINFO / 86400

def isEqualGC (p1 p2 : ItemData) : Bool :=
  p1.dbe.eventType == p2.dbe.eventType && p1.wszNick.isSome && p1.wszNick == p2.wszNick
    && getUnixtime p1.dbe.toDBEVENTINFO / 86400 == getUnixtime p2.dbe.toDBEVENTINFO / 86400

def startGroup (pPrev : ItemData) : ItemData :=
  if pPrev.m_grouping = .none then
    let pPrev := { pPrev with m_grouping := .head }
    if pPrev.m_bLoaded then pPrev.setText env else pPrev
  else
    pPrev

def checkPrev (p : ItemData) (pPrev : Option ItemData) : ItemData × Option ItemData :=
  let p := { p with m_grouping := .none }
  match pPrev with
  | none => (p, none)
  | some prev =>
    if env.bMsgGrouping then
      let (fetched, p) := p.fetch env
      if fetched && p.dbe.eventType == EVENTTYPE_MESSAGE && isEqual p prev then
        ({ p with m_grouping := .item }, some (prev.startGroup env))
      else
        (p, some prev)
    else
      (p, some prev)

def checkPrevGC (p : ItemData) (pPrev : Option ItemData) : ItemData × Option ItemData :=
  let p := { p with m_grouping := .none }
  match pPrev with
  | none => (p, none)
  | some prev =>
    if env.bMsgGrouping && p.dbe.eventType == EVENTTYPE_MESSAGE && isEqualGC p prev then
      ({ p with m_grouping := .item }, some (prev.startGroup env))
    else
      (p, some prev)

def checkGC (p : ItemData) : ItemData :=
  let p := (p.fetch env).2
  match p.dbe.szUserId with
  | some szUserId => { p with wszNick := some (env.nick p.dbe.hContact szUserId) }
  | none => p

def fillEvent (pOwner : Nat) (hContact : MCONTACT) (hEvent : MEVENT) (bNew : Bool) (p : ItemData) : ItemData :=
  { setEvent { p with pOwner := some pOwner } hContact hEvent with m_bNew := bNew }

def checkEvent (isChat : Bool) (p : ItemData) (pPrev : Option ItemData) : ItemData × Option ItemData :=
  if isChat then (p.checkGC env).checkPrevGC env pPrev else p.checkPrev env pPrev

def fillResult (pOwner : Nat) (hContact : MCONTACT) (hEvent : MEVENT) (p : ItemData) : ItemData :=
  { setEvent { p with pOwner := some pOwner } hContact hEvent with m_bIsResult := true }

end ItemData

structure HistoryArray where
  pages : List (Page ItemData HIST_BLOCK_SIZE) := []
  iLastPageCounter : Nat := 0

structure NewItem where
  fill : ItemData → ItemData
  check : ItemData → Option ItemData → ItemData × Option ItemData

def addedEvents (env : Env) (hContact : MCONTACT) (hEvent : MEVENT) (count : Int) : List MEVENT :=
  let count := if count = -1 then MAXINT else count.toNat
  if count = 1 then [hEvent] else ((env.Events hContact hEvent).takeWhile (· ≠ 0)).take count

def newEvents (env : Env) (pOwner : Nat) (hContact : MCONTACT) (hEvent : MEVENT) (count : Int) (bNew : Bool)
    : List NewItem :=
  (addedEvents env hContact hEvent count).map fun hEvent =>
    { fill := ItemData.fillEvent pOwner hContact hEvent bNew
      check := ItemData.checkEvent env (env.IsGroupChat hContact) }

def newResults (env : Env) (pOwner : Nat) (pArray : List (MCONTACT × MEVENT)) : List NewItem :=
  pArray.map fun (hContact, hEvent) =>
    { fill := ItemData.fillResult pOwner hContact hEvent
      check := ItemData.checkPrev env }

namespace HistoryArray

def getCount (a : HistoryArray) : Nat :=
  if a.pages = [] then 0 else (a.pages.length - 1) * HIST_BLOCK_SIZE + a.iLastPageCounter

def get (a : HistoryArray) (id : Nat) : Option ItemData := Pages.get? a.pages id

def set (a : HistoryArray) (id : Nat) (p : ItemData) : HistoryArray := { a with pages := Pages.set a.pages id p }

def indexOf (found : ItemData → Bool) (l : List ItemData) : Int :=
  match l.findIdx? found with
  | some i => i
  | none => -1

def find (a : HistoryArray) (hEvent : MEVENT) : Int := indexOf (·.dbe.m_hEvent == hEvent) (Pages.slots a.pages)

def newBlock : Page ItemData HIST_BLOCK_SIZE := .replicate HIST_BLOCK_SIZE {}

def allocateItem (a : HistoryArray) : HistoryArray × Nat :=
  let a :=
    if a.iLastPageCounter = HIST_BLOCK_SIZE then
      { pages := a.pages ++ [newBlock], iLastPageCounter := 0 }
    else if a.pages = [] then
      { a with pages := [newBlock] }
    else
      a
  ({ a with iLastPageCounter := a.iLastPageCounter + 1 }, (a.pages.length - 1) * HIST_BLOCK_SIZE + a.iLastPageCounter)

def setPrev (a : HistoryArray) : Option Nat → Option ItemData → HistoryArray
  | some i, some prev => a.set i prev
  | _, _ => a

def addItem (a : HistoryArray) (pPrev : Option Nat) (new : NewItem) : HistoryArray × Option Nat :=
  let (a, i) := a.allocateItem
  match a.get i with
  | some p =>
    let (p, prev) := new.check (new.fill p) (pPrev.bind a.get)
    ((a.setPrev pPrev prev).set i p, some i)
  | none => (a, some i)

def addItems (a : HistoryArray) (pPrev : Option Nat) : List NewItem → HistoryArray
  | [] => a
  | new :: news =>
    let (a, pPrev) := a.addItem pPrev new
    a.addItems pPrev news

def lastItem (a : HistoryArray) : Option Nat := if a.getCount = 0 then none else some (a.getCount - 1)

def addEvent (env : Env) (a : HistoryArray) (pOwner : Nat) (hContact : MCONTACT) (hEvent : MEVENT) (count : Int)
    (bNew : Bool) : HistoryArray :=
  a.addItems a.lastItem (newEvents env pOwner hContact hEvent count bNew)

def addResults (env : Env) (a : HistoryArray) (pOwner : Nat) (pArray : List (MCONTACT × MEVENT)) : HistoryArray :=
  a.addItems a.lastItem (newResults env pOwner pArray)

def copy (a : HistoryArray) (pNew pPrev : Nat) : HistoryArray :=
  match a.get pPrev with
  | some p => a.set pNew p
  | none => a

def insertLoop (pos : Nat) : Nat → HistoryArray → Nat → Nat → HistoryArray × Nat
  | 0, a, pNew, pPrev => if pos = 0 then (a.copy pNew pPrev, pPrev) else (a, pNew)
  | i + 1, a, pNew, pPrev => if pos ≤ i + 1 then insertLoop pos i (a.copy pNew pPrev) pPrev i else (a, pNew)

def insert (a : HistoryArray) (pos : Nat) : HistoryArray :=
  let count := a.getCount
  let (a, pNew) := a.allocateItem
  let (a, pNew) := if count > 0 then insertLoop pos count a pNew (count - 1) else (a, pNew)
  a.set pNew {}

def remove (a : HistoryArray) (id : Nat) : HistoryArray :=
  let pageNo := id / HIST_BLOCK_SIZE
  match a.pages[pageNo]? with
  | none => a
  | some pPage =>
    let offset := id % HIST_BLOCK_SIZE
    let pPage := if offset ≠ HIST_BLOCK_SIZE - 1 then pPage.moveDown offset else pPage
    let pages := a.pages.take pageNo ++ Pages.cascade .zeroed pPage (a.pages.drop (pageNo + 1))
    if a.iLastPageCounter = 1 then
      { pages := pages.dropLast, iLastPageCounter := HIST_BLOCK_SIZE }
    else
      let iLastPageCounter := a.iLastPageCounter - 1
      { pages := Pages.set pages ((pages.length - 1) * HIST_BLOCK_SIZE + iLastPageCounter) {}
        iLastPageCounter := iLastPageCounter }

def clear (_ : HistoryArray) : HistoryArray := { pages := [], iLastPageCounter := 0 }

end HistoryArray

inductive Call where
  | addEvent (env : Env) (pOwner : Nat) (hContact : MCONTACT) (hEvent : MEVENT) (count : Int) (bNew : Bool)
  | addResults (env : Env) (pOwner : Nat) (pArray : List (MCONTACT × MEVENT))
  | insert (pos : Nat)
  | remove (id : Nat)
  | clear
  | write (id : Nat) (p : ItemData)

def HistoryArray.step (a : HistoryArray) : Call → HistoryArray
  | .addEvent env pOwner hContact hEvent count bNew => a.addEvent env pOwner hContact hEvent count bNew
  | .addResults env pOwner pArray => a.addResults env pOwner pArray
  | .insert pos => a.insert pos
  | .remove id => a.remove id
  | .clear => a.clear
  | .write id p => a.set id p

def HistoryArray.run (a : HistoryArray) (calls : List Call) : HistoryArray := calls.foldl HistoryArray.step a

end NewStory
