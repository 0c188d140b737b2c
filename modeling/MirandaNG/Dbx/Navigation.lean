import MirandaNG.Dbx.System
import MirandaNG.Kv.Cursor
import MirandaNG.Transition.Loop

/-!
This module contains the ways through the history of a contact: the `Find...Event` functions with the
position each cached contact remembers between two of them, and the cursors of the store and of its
base class.
-/

namespace Dbx

open Kv Transition

-- What a `DBCachedContact` remembers of the last search; its memory is zeroed when it is allocated.
structure Position where
  t_evLast : MEVENT := 0
  t_tsLast : Nat := 0
deriving DecidableEq

structure Session where
  store : Store
  last : MCONTACT → Position := fun _ => {}

namespace Session

def answer (n : Session) (contactID : MCONTACT) (cc : Position) : Session × MEVENT :=
  ({ n with last := Function.update n.last contactID cc }, cc.t_evLast)

def enter (n : Session) (contactID : MCONTACT) (key : Option DBEventSortingKey) : Session × MEVENT :=
  let cc := n.last contactID
  match key with
  | none => n.answer contactID { cc with t_evLast := 0 }
  | some pKey =>
    if pKey.hContact ≠ contactID then
      n.answer contactID { cc with t_evLast := 0 }
    else
      n.answer contactID { t_evLast := pKey.hEvent, t_tsLast := pKey.ts }

def FindFirstEvent (n : Session) (contactID : MCONTACT) : Session × MEVENT :=
  if (n.store.contact? contactID).isNone then
    (n, 0)
  else
    let keyVal := { hContact := contactID, hEvent := 0, ts := 0 }
    n.enter contactID (n.store.m_dbEventsSort.first? keyVal)

def FindLastEvent (n : Session) (contactID : MCONTACT) : Session × MEVENT :=
  if (n.store.contact? contactID).isNone then
    (n, 0)
  else
    let keyVal := { hContact := contactID, hEvent := 0xFFFFFFFF, ts := 0xFFFFFFFFFFFFFFFF }
    match n.store.m_dbEventsSort.first? keyVal with
    | none => n.enter contactID (n.store.m_dbEventsSort.last?.map Prod.fst)
    | some key => n.enter contactID (n.store.m_dbEventsSort.prev? key)

def locate (n : Session) (contactID : MCONTACT) (hDbEvent : MEVENT) : Option Position :=
  let cc := n.last contactID
  if cc.t_evLast ≠ hDbEvent then
    (n.store.m_dbEvents.get? hDbEvent).map fun data => { cc with t_tsLast := data.dbe.timestamp }
  else
    some cc

def findFrom (n : Session)
    (move : Table DBEventSortingKey (List UInt8) → DBEventSortingKey → Option DBEventSortingKey)
    (contactID : MCONTACT) (hDbEvent : MEVENT) : Session × MEVENT :=
  if (n.store.contact? contactID).isNone then
    (n, 0)
  else if hDbEvent = 0 then
    n.answer contactID { n.last contactID with t_evLast := 0 }
  else
    match n.locate contactID hDbEvent with
    | none => (n, 0)
    | some cc =>
      let keyVal := { hContact := contactID, hEvent := hDbEvent, ts := cc.t_tsLast }
      if keyVal ∉ n.store.m_dbEventsSort then
        n.answer contactID { cc with t_evLast := 0 }
      else
        match move n.store.m_dbEventsSort keyVal with
        | none => n.answer contactID { cc with t_evLast := 0 }
        | some pKey =>
          n.answer contactID {
            t_evLast := if pKey.hContact = contactID then pKey.hEvent else 0
            t_tsLast := pKey.ts }

def FindNextEvent (n : Session) (contactID : MCONTACT) (hDbEvent : MEVENT) : Session × MEVENT :=
  n.findFrom Table.next? contactID hDbEvent

def FindPrevEvent (n : Session) (contactID : MCONTACT) (hDbEvent : MEVENT) : Session × MEVENT :=
  n.findFrom Table.prev? contactID hDbEvent

end Session

structure CMdbxEventCursor where
  hContact : MCONTACT
  m_bForward : Bool
  m_bFirst : Bool := true
  m_key : DBEventSortingKey

namespace CMdbxEventCursor

def create (n : Session) (hContact : MCONTACT) (bForward : Bool) : Session × CMdbxEventCursor :=
  let (n, hEvent) := if bForward then n.FindFirstEvent hContact else n.FindLastEvent hContact
  let ts := if hEvent ≠ 0 then (n.last hContact).t_tsLast else 0
  (n, { hContact, m_bForward := bForward, m_key := { hContact, hEvent, ts } })

def FetchNext (s : Store) (cur : CMdbxEventCursor) : CMdbxEventCursor × MEVENT :=
  if cur.m_bFirst then
    if cur.m_key.hEvent = 0 then
      (cur, 0)
    else
      ({ cur with m_bFirst := false }, cur.m_key.hEvent)
  else if cur.m_key ∉ s.m_dbEventsSort then
    (cur, 0)
  else
    let key := if cur.m_bForward then
      s.m_dbEventsSort.next? cur.m_key
    else
      s.m_dbEventsSort.prev? cur.m_key
    match key with
    | none => (cur, 0)
    | some dbKey =>
      if dbKey.hContact ≠ cur.hContact then
        (cur, 0)
      else
        ({ cur with m_key := dbKey }, dbKey.hEvent)

end CMdbxEventCursor

-- `CCompatiblityCursor` and `CCompatiblityCursorRev` of the base class
structure CCompatiblityCursor where
  hContact : MCONTACT
  forward : Bool
  curr : MEVENT

namespace CCompatiblityCursor

def find (n : Session) (hContact : MCONTACT) (forward : Bool) (hEvent : MEVENT) : Session × MEVENT :=
  if forward then n.FindNextEvent hContact hEvent else n.FindPrevEvent hContact hEvent

def create (n : Session) (hContact : MCONTACT) (forward : Bool) (hEvent : MEVENT)
    : Session × CCompatiblityCursor :=
  let (n, curr) :=
    if hEvent = 0 then
      if forward then n.FindFirstEvent hContact else n.FindLastEvent hContact
    else
      find n hContact forward hEvent
  (n, { hContact, forward, curr })

def FetchNext (x : Session × CCompatiblityCursor) : (Session × CCompatiblityCursor) × MEVENT :=
  let (n, cur) := x
  if cur.curr = 0 then
    (x, 0)
  else
    let (n, curr) := find n cur.hContact cur.forward cur.curr
    ((n, { cur with curr }), cur.curr)

end CCompatiblityCursor

namespace Session

def openCursor (n : Session) (hContact : MCONTACT) (bForward : Bool)
    : Option (Session × CMdbxEventCursor) :=
  if (n.store.contact? hContact).isNone then
    none
  else
    some (CMdbxEventCursor.create n hContact bForward)

def EventCursor (n : Session) (hContact : MCONTACT) (_hEvent : MEVENT)
    : Option (Session × CMdbxEventCursor) :=
  n.openCursor hContact true

def EventCursorRev (n : Session) (hContact : MCONTACT) (_hEvent : MEVENT)
    : Option (Session × CMdbxEventCursor) :=
  n.openCursor hContact false

end Session

inductive Request where
  | call (c : Call)
  | FindFirstEvent (contactID : MCONTACT)
  | FindLastEvent (contactID : MCONTACT)
  | FindNextEvent (contactID : MCONTACT) (hDbEvent : MEVENT)
  | FindPrevEvent (contactID : MCONTACT) (hDbEvent : MEVENT)

namespace Session

def create (s : Store) : Session where
  store := s

-- `Load` builds every cached contact anew; otherwise those that were there keep their position.
def call (n : Session) (c : Call) : Session where
  store := n.store.step c
  last contactID :=
    match c with
    | .Load _ => {}
    | _ => if (n.store.contact? contactID).isSome then n.last contactID else {}

def step (n : Session) : Request → Session
  | .call c => n.call c
  | .FindFirstEvent contactID => (n.FindFirstEvent contactID).1
  | .FindLastEvent contactID => (n.FindLastEvent contactID).1
  | .FindNextEvent contactID hDbEvent => (n.FindNextEvent contactID hDbEvent).1
  | .FindPrevEvent contactID hDbEvent => (n.FindPrevEvent contactID hDbEvent).1

end Session
end Dbx
