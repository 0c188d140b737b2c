import Mathlib.Data.List.DropRight
import MirandaNG.Core.ListItems
import MirandaNG.Data.CStr

/-!
This module contains the hookable events of the core, their subscribers, and the handles that stand
for subscriptions.
-/

namespace Modules

def toInt (n : Int) : Int := if n % 2 ^ 32 < 2 ^ 31 then n % 2 ^ 32 else n % 2 ^ 32 - 2 ^ 32

-- `call` counts the calls that subscribe; the code does not keep it. A window and its message are in
-- the places of `pfnHook` and of the low half of `object`.
structure THookSubscriber where
  hOwner : Nat
  type : Nat
  pfnHook : Nat
  object : Nat
  lParam : Int
  call : Nat
deriving DecidableEq

def THookSubscriber.isFree (s : THookSubscriber) : Bool := s.type == 0

def THookSubscriber.free (s : THookSubscriber) : THookSubscriber :=
  { s with type := 0, pfnHook := 0, hOwner := 0 }

structure THook where
  name : CStr
  id : Nat
  subscriber : List THookSubscriber := []
deriving DecidableEq

structure Hooks where
  hooks : List THook := []
  sttHookId : Nat := 1
  handles : List Int := []
deriving DecidableEq

namespace Hooks

def getIndex (st : Hooks) (name : CStr) : Option Nat :=
  ListItems.getIndex (fun p => CStr.strcmp p.name name) st.hooks

def CreateHookableEvent (st : Hooks) (name : CStr) : Hooks :=
  match st.getIndex name with
  | some _ => st
  | none =>
    { st with
      hooks := ListItems.insert (fun p q => CStr.strcmp p.name q.name) st.hooks
        { name := name.truncate 63, id := st.sttHookId }
      sttHookId := st.sttHookId + 1 }

-- An event is compared by its name, which stands in front.
def DestroyHookableEvent (st : Hooks) (name : CStr) : Hooks :=
  match st.getIndex name with
  | none => st
  | some idx => { st with hooks := st.hooks.eraseIdx idx }

-- Writes the subscriber behind the last one. The handle is an `int` that is widened to a pointer.
def subscribe (st : Hooks) (name : CStr) (s : THookSubscriber) : Hooks :=
  match st.getIndex name with
  | none => { st with handles := st.handles ++ [0] }
  | some idx =>
    match st.hooks[idx]? with
    | none => st
    | some p =>
      { st with
        hooks := st.hooks.set idx
          { p with subscriber := p.subscriber ++ [{ s with call := st.handles.length }] }
        handles := st.handles ++ [toInt (p.id <<< 16 ||| (p.subscriber.length + 1) : Nat)] }

section

variable (GetInstByAddress : Nat → Nat)

def HookEventInt (st : Hooks) (type : Nat) (name : CStr) (hookProc object : Nat) (lParam : Int)
    : Hooks :=
  st.subscribe name
    { type, pfnHook := hookProc, object, lParam, hOwner := GetInstByAddress hookProc, call := 0 }

def HookEvent (st : Hooks) (name : CStr) (hookProc : Nat) : Hooks :=
  st.HookEventInt GetInstByAddress 1 name hookProc 0 0

def HookEventParam (st : Hooks) (name : CStr) (hookProc : Nat) (lParam : Int) : Hooks :=
  st.HookEventInt GetInstByAddress 2 name hookProc 0 lParam

def HookEventObj (st : Hooks) (name : CStr) (hookProc object : Nat) : Hooks :=
  st.HookEventInt GetInstByAddress 3 name hookProc object 0

def HookEventObjParam (st : Hooks) (name : CStr) (hookProc object : Nat) (lParam : Int) : Hooks :=
  st.HookEventInt GetInstByAddress 4 name hookProc object lParam

def HookTemporaryEvent (st : Hooks) (name : CStr) (hookProc : Nat) : Hooks :=
  st.HookEventInt GetInstByAddress 1 name hookProc 0 0

end

-- `slot` is what the memory of the new slot held. The owner and the rest of `object` stay.
def HookEventMessage (st : Hooks) (name : CStr) (hwnd message : Nat) (slot : THookSubscriber)
    : Hooks :=
  st.subscribe name
    { slot with
      type := 5
      pfnHook := hwnd
      object := slot.object - slot.object % 2 ^ 32 + message % 2 ^ 32 }

def unhookSlot (p : THook) (subscriberId : Nat) : THook :=
  { p with
    subscriber := (p.subscriber.modify subscriberId THookSubscriber.free).rdropWhile
      THookSubscriber.isFree }

def UnhookEvent (st : Hooks) (hHook : Int) : Hooks :=
  if hHook = 0 then
    st
  else
    match st.hooks.findIdx? (fun it => (it.id : Int) = toInt (hHook / 2 ^ 16)) with
    | none => st
    | some i =>
      match st.hooks[i]? with
      | none => st
      | some p =>
        if hHook % 2 ^ 16 - 1 ≥ p.subscriber.length ∨ hHook % 2 ^ 16 - 1 < 0 then
          st
        else
          { st with hooks := st.hooks.set i (unhookSlot p (hHook % 2 ^ 16 - 1).toNat) }

section

variable (isOwn : THookSubscriber → Bool)

-- A slot that has been given back meanwhile is not taken by `UnhookEvent`.
def killSlots (i : Nat) : Nat → Hooks → Hooks
  | 0, st => st
  | j + 1, st =>
    match st.hooks[i]? with
    | none => st
    | some p =>
      match p.subscriber[j]? with
      | none => killSlots i j st
      | some s =>
        killSlots i j (if isOwn s then st.UnhookEvent (toInt (p.id <<< 16 + (j + 1) : Nat)) else st)

def killEvents : Nat → Hooks → Hooks
  | 0, st => st
  | i + 1, st =>
    match st.hooks[i]? with
    | none => st
    | some p => killEvents i (killSlots isOwn i p.subscriber.length st)

end

def KillModuleEventHooks (st : Hooks) (hInst : Nat) : Hooks :=
  killEvents (fun s => s.hOwner == hInst) st.hooks.length st

def KillObjectEventHooks (st : Hooks) (pObject : Nat) : Hooks :=
  killEvents (fun s => s.object == pObject) st.hooks.length st

end Hooks
end Modules
