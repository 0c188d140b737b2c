import MirandaNG.Data.CInt
import MirandaNG.Data.WStr
import MirandaNG.Kv.TableLemmas

/-!
This module contains group chats: the roles of a session, which are numbered by the bits of a status word in the order
they were added, and its users with their status words.
-/

namespace Chat

open CInt Kv

structure STATUSINFO where
  pszGroup : WStr
  iIconIndex : Int
  iStatus : Int

def sameText (towlower : UInt16 → UInt16) (p1 p2 : WStr) : Prop :=
  p1.chars.map towlower = p2.chars.map towlower

instance (towlower : UInt16 → UInt16) (p1 p2 : WStr) : Decidable (sameText towlower p1 p2) :=
  inferInstanceAs (Decidable (p1.chars.map towlower = p2.chars.map towlower))

-- The roles of a session. Each has twice the number of the one before it, as far as `int` goes.
structure Statuses (towlower : UInt16 → UInt16) where
  list : List STATUSINFO
  numbered : list.map (·.iStatus) = (List.range list.length).map fun k => int32 (2 ^ k)
  distinct : list.Pairwise fun a b => ¬sameText towlower a.pszGroup b.pszGroup

structure USERINFO where
  pszNick : WStr
  Status : UInt16

abbrev Users := Table WStr USERINFO

-- `pMe` is the UID of the user it points to. A session with a parent has its lists there.
structure SESSION_INFO (towlower : UInt16 → UInt16) where
  arStatuses : Statuses towlower
  arUsers : Users
  pParent : Option (Statuses towlower × Users)
  iStatusCount : Int
  pMe : Option WStr
  ptszName : Option WStr
  ptszTopic : Option WStr
  bPersistent : Bool
  bIsDirty : Bool

def STATUSICONCOUNT : Int := 6

variable {towlower : UInt16 → UInt16}

namespace Statuses

def empty : Statuses towlower := ⟨[], rfl, .nil⟩

def nextStatus (l : Statuses towlower) : Int :=
  match l.list.getLast? with
  | none => 1
  | some it => int32 (it.iStatus * 2)

theorem int32_pow_succ (k : Nat) : int32 (int32 (2 ^ k) * 2) = int32 (2 ^ (k + 1)) := by
  unfold int32
  rw [Int.bmod_mul_bmod, pow_succ (2 : Int) k]

theorem nextStatus_eq (l : Statuses towlower) : l.nextStatus = int32 (2 ^ l.list.length) := by
  unfold nextStatus
  cases hlast : l.list.getLast? with
  | none =>
    rw [List.getLast?_eq_none_iff] at hlast
    rw [hlast]
    rfl
  | some it =>
    have hnumber := congrArg List.getLast? l.numbered
    rw [List.getLast?_map, hlast] at hnumber
    obtain ⟨k, hk⟩ : ∃ k, l.list.length = k + 1 := by
      apply Nat.exists_eq_succ_of_ne_zero
      intro hzero
      rw [List.length_eq_zero_iff.mp hzero] at hlast
      cases hlast
    rw [hk, List.range_succ, List.map_append, List.map_singleton, List.getLast?_concat] at hnumber
    simp only [Option.map_some, Option.some.injEq] at hnumber
    rw [hk, ← int32_pow_succ, ← hnumber]

def insert (l : Statuses towlower) (pszGroup : WStr) (iIconIndex : Int)
    (hnew : ∀ it ∈ l.list, ¬sameText towlower it.pszGroup pszGroup)
    : Statuses towlower where
  list := l.list ++ [{ pszGroup, iIconIndex, iStatus := l.nextStatus }]
  numbered := by
    rw [List.map_append, l.numbered, List.length_append, List.length_singleton, List.range_succ, List.map_append]
    simp only [List.map_singleton, nextStatus_eq]
  distinct := by
    rw [List.pairwise_append]
    refine ⟨l.distinct, List.pairwise_singleton _ _, ?_⟩
    intro a ha b hb
    rw [List.mem_singleton.mp hb]
    exact hnew a ha

def names (l : Statuses towlower) : List WStr := l.list.map (·.pszGroup)

end Statuses

namespace SESSION_INFO

def start (bPersistent : Bool) (ptszName : Option WStr) : SESSION_INFO towlower where
  arStatuses := .empty
  arUsers := .empty
  pParent := none
  iStatusCount := 0
  pMe := none
  ptszName
  ptszTopic := none
  bPersistent
  bIsDirty := false

def getStatuses (si : SESSION_INFO towlower) : Statuses towlower :=
  match si.pParent with
  | some pParent => pParent.1
  | none => si.arStatuses

def setStatuses (si : SESSION_INFO towlower) (l : Statuses towlower) : SESSION_INFO towlower :=
  match si.pParent with
  | some pParent => { si with pParent := some (l, pParent.2) }
  | none => { si with arStatuses := l }

def getUserList (si : SESSION_INFO towlower) : Users :=
  match si.pParent with
  | some pParent => pParent.2
  | none => si.arUsers

def setUserList (si : SESSION_INFO towlower) (l : Users) : SESSION_INFO towlower :=
  match si.pParent with
  | some pParent => { si with pParent := some (pParent.1, l) }
  | none => { si with arUsers := l }

def TM_AddStatus (si : SESSION_INFO towlower) (pszStatus : WStr) : SESSION_INFO towlower :=
  if hnew : ∀ it ∈ si.getStatuses.list, ¬sameText towlower it.pszGroup pszStatus then
    { si.setStatuses (si.getStatuses.insert pszStatus (min si.iStatusCount (STATUSICONCOUNT - 1)) hnew) with
      bIsDirty := true
      iStatusCount := si.iStatusCount + 1 }
  else
    si

def word (iStatus : Int) : UInt16 := UInt16.ofNat (iStatus % 2 ^ 16).toNat

def TM_StringToWord (si : SESSION_INFO towlower) (pszStatus : WStr) : UInt16 :=
  match si.getStatuses.list.reverse.find? fun it => sameText towlower it.pszGroup pszStatus with
  | some it => word it.iStatus
  | none =>
    match si.getStatuses.list.getLast? with
    | some it => word it.iStatus
    | none => 0

def wordToString : List STATUSINFO → UInt16 → Option WStr
  | [], _ => none
  | it :: rest, Status =>
    if word it.iStatus &&& Status ≠ 0 then
      let Status := Status - word it.iStatus
      if Status = 0 then some it.pszGroup else wordToString rest Status
    else
      wordToString rest Status

def TM_WordToString (si : SESSION_INFO towlower) (Status : UInt16) : Option WStr :=
  wordToString si.getStatuses.list.reverse Status

def UM_AddUser (si : SESSION_INFO towlower) (pszUID pszNick : WStr) (wStatus : UInt16) : SESSION_INFO towlower :=
  si.setUserList (si.getUserList.put pszUID { pszNick, Status := wStatus })

end SESSION_INFO
end Chat
