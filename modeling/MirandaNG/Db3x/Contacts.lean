import MirandaNG.Core.ListItems
import MirandaNG.Data.CInt
import MirandaNG.Db3x.Events

/-!
This module contains the calls on whole histories, `MetaMergeHistory` and `MetaSplitHistory`. They
come with what their callers do to `parentID`: a contact is a sub before its history is merged, and
until its history has been split off.
-/

namespace Db3x

open Kv
open Dbx (MCONTACT)

-- The timestamps are cast to `LONG`, and so is their difference.
def SortEvent (p1 p2 : Nat) : Int := CInt.int32 (CInt.int32 p1 - CInt.int32 p2)

namespace Store

def timestamp (s : Store) (ofs : Nat) : Nat := ((s.events.get? ofs).map (·.timestamp)).getD 0

def gather (s : Store) : Nat → Nat → List Nat → Option (List Nat)
  | 0, _, _ => none
  | n + 1, ofs, arEvents =>
    if ofs = 0 then
      some arEvents
    else
      match s.events.get? ofs with
      | none => none
      | some pev =>
        let f p1 p2 := SortEvent (s.timestamp p1) (s.timestamp p2)
        gather s n pev.ofsNext (ListItems.insert f arEvents ofs)

def relink (s : Store) (ofsFirstUnread : Nat) : List Nat → Store × Nat
  | pPrev :: pNext :: arEvents =>
    let s := s.updateEvent pPrev fun pev => { pev with ofsNext := pNext }
    let s := s.updateEvent pNext fun pev => { pev with ofsPrev := pPrev }
    let read := ((s.events.get? pNext).map (·.markedRead)).getD true
    relink s (if ofsFirstUnread = 0 ∧ !read then pNext else ofsFirstUnread) (pNext :: arEvents)
  | _ => (s, ofsFirstUnread)

def relinkAll (s : Store) (dbMeta : DBContact) (arEvents : List Nat) : Store × DBContact :=
  match arEvents with
  | [] => (s, dbMeta)
  | pFirst :: rest =>
    let pLast := rest.getLastD pFirst
    let s := s.updateEvent pFirst fun pev => { pev with ofsPrev := 0 }
    let read := ((s.events.get? pFirst).map (·.markedRead)).getD true
    let s := s.updateEvent pLast fun pev => { pev with ofsNext := 0 }
    let (s, ofsFirstUnread) := s.relink (if read then 0 else pFirst) (pFirst :: rest)
    let dbMeta := {
      dbMeta with
      eventCount := (pFirst :: rest).length
      ofsFirstEvent := pFirst
      ofsLastEvent := pLast
      ofsFirstUnread
    }
    (s, dbMeta)

def MetaMergeHistory (s : Store) (ccMeta ccSub : MCONTACT) : Store × Bool :=
  match s.dbc? ccMeta, s.dbc? ccSub with
  | some dbMeta, some dbSub =>
    if dbSub.ofsFirstEvent = 0 then
      (s, true)
    else
      -- remove any traces of history from sub
      let traces dbSub : DBContact :=
        { dbSub with ofsFirstEvent := 0, ofsLastEvent := 0, ofsFirstUnread := 0, tsFirstUnread := 0 }
      if dbMeta.ofsFirstEvent = 0 then
        -- simply chain history to a meta
        let s := s.writeDbc ccMeta dbSub
        (s.updateDbc ccSub traces, true)
      else
        match (s.gather s.rounds dbMeta.ofsFirstEvent []).bind (s.gather s.rounds dbSub.ofsFirstEvent) with
        | none => (s, false)
        | some arEvents =>
          let (s, dbMeta) := s.relinkAll dbMeta arEvents
          let s := s.writeDbc ccMeta dbMeta
          (s.updateDbc ccSub traces, true)
  | _, _ => (s, false)

def wipe (s : Store) : Nat → Nat → Option Store
  | 0, _ => none
  | n + 1, dwOffset =>
    if dwOffset = 0 then
      some s
    else
      match s.events.get? dwOffset with
      | none => none
      | some pev => wipe (s.DeleteSpace dwOffset pev) n pev.ofsNext

def WipeContactHistory (s : Store) (dbc : DBContact) : Option (Store × DBContact) :=
  (s.wipe s.rounds dbc.ofsFirstEvent).map fun s => (s, {})

def extract (s : Store) (dbc : DBContact) (dwOffset : Nat) (evCurr : DBEvent) : Store × DBContact :=
  let ofsFirstEvent := if dbc.ofsLastEvent ≠ 0 then dbc.ofsFirstEvent else dwOffset
  let s := if dbc.ofsLastEvent ≠ 0 then
      s.updateEvent dbc.ofsLastEvent fun pev => { pev with ofsNext := dwOffset }
    else
      s
  let s := s.updateEvent dwOffset fun pev => { pev with ofsPrev := dbc.ofsLastEvent }
  let dbc := { dbc with eventCount := dbc.eventCount + 1, ofsFirstEvent, ofsLastEvent := dwOffset }
  if dbc.ofsFirstUnread = 0 ∧ !evCurr.markedRead then
    (s, { dbc with ofsFirstUnread := dwOffset, tsFirstUnread := evCurr.timestamp })
  else
    (s, dbc)

def split (ccSub : MCONTACT) (s : Store) (dbMeta dbSub : DBContact)
    : Nat → Nat → Option (Store × DBContact × DBContact)
  | 0, _ => none
  | n + 1, dwOffset =>
    if dwOffset = 0 then
      some (s, dbMeta, dbSub)
    else
      match s.events.get? dwOffset with
      | none => some (s, dbMeta, dbSub)
      | some evCurr =>
        let s := s.updateEvent dwOffset fun pev => { pev with ofsNext := 0 }
        if evCurr.contactID = ccSub then
          let (s, dbSub) := s.extract dbSub dwOffset evCurr
          split ccSub s dbMeta dbSub n evCurr.ofsNext
        else
          let (s, dbMeta) := s.extract dbMeta dwOffset evCurr
          split ccSub s dbMeta dbSub n evCurr.ofsNext

def MetaSplitHistory (s : Store) (ccMeta ccSub : MCONTACT) : Store × Bool :=
  match s.dbc? ccMeta, s.dbc? ccSub with
  | some dbMeta, some dbSub =>
    if dbMeta.ofsFirstEvent = 0 then
      (s, true)
    else
      match s.WipeContactHistory dbSub with
      | none => (s, false)
      | some (s₁, dbSub) =>
        match s₁.split ccSub {} dbSub s₁.rounds dbMeta.ofsFirstEvent with
        | none => (s, false)
        | some (s₁, dbMeta, dbSub) => ((s₁.writeDbc ccSub dbSub).writeDbc ccMeta dbMeta, true)
  | _, _ => (s, false)

inductive Call where
  | AddEvent (env : Env) (contactID : MCONTACT) (dbei : Dbx.DBEVENTINFO)
  | DeleteEvent (hDbEvent : Nat)
  | MarkEventRead (contactID : MCONTACT) (hDbEvent : Nat)
  | MetaMergeHistory (ccMeta ccSub : MCONTACT)
  | MetaSplitHistory (ccMeta ccSub : MCONTACT)

def run (s : Store) : Call → Store × Bool
  | .AddEvent env contactID dbei => let (s, hDbEvent) := s.AddEvent env contactID dbei; (s, hDbEvent ≠ 0)
  | .DeleteEvent hDbEvent => s.DeleteEvent hDbEvent
  | .MarkEventRead contactID hDbEvent =>
    let (s, flags) := s.MarkEventRead contactID hDbEvent
    (s, flags.isSome)
  | .MetaMergeHistory ccMeta ccSub => (s.setParent ccSub ccMeta).MetaMergeHistory ccMeta ccSub
  | .MetaSplitHistory ccMeta ccSub =>
    let (s, done) := s.MetaSplitHistory ccMeta ccSub
    (s.setParent ccSub 0, done)

def step (s : Store) (c : Call) : Store := (s.run c).1

end Store
end Db3x
