import MirandaNG.Chat.Session
import MirandaNG.Core.ListItems

/-!
This module contains the user list of a chat session as `SM_RemoveUser` walks it, and when it removes the user it has
announced.
-/

namespace Chat.UserList

variable {towlower : UInt16 → UInt16} {pszUID : WStr}

structure USERINFO where
  address : Nat
  pszUID : WStr
  pszNick : WStr
  Status : UInt16
  ContactStatus : UInt16
  iStatusEx : Int

structure Users where
  items : List USERINFO
  distinct : (items.map (·.address)).Nodup

-- `pMe` is an address. A session with a parent has its users there.
structure SESSION_INFO where
  arUsers : Users
  pParent : Option Users
  pMe : Option Nat

variable {si : SESSION_INFO} {users : Users} {ui : USERINFO}

def CompareUser (pszUID1 pszUID2 : WStr) : Int := WStr.wcscmp pszUID1 pszUID2

def getUserList (si : SESSION_INFO) : Users := si.pParent.getD si.arUsers

def setUserList (si : SESSION_INFO) (users : Users) : SESSION_INFO :=
  match si.pParent with
  | some _ => { si with pParent := some users }
  | none => { si with arUsers := users }

def UM_FindUser (si : SESSION_INFO) (pszUID : WStr) : Option USERINFO :=
  ListItems.find (fun ui => CompareUser ui.pszUID pszUID) (getUserList si).items

-- The loop over the users. What it compares with is `mir_wstrcmpi`.
def removeFirst (towlower : UInt16 → UInt16) (pszUID : WStr) (users : Users) : Users where
  items := users.items.eraseP fun it => sameText towlower it.pszUID pszUID
  distinct := users.distinct.sublist (List.eraseP_sublist.map _)

def SM_RemoveUser (towlower : UInt16 → UInt16) (si : SESSION_INFO) (pszUID : WStr) : Option USERINFO × SESSION_INFO :=
  match UM_FindUser si pszUID with
  | none => (none, si)
  | some ui =>
    let si := if si.pMe = some ui.address then { si with pMe := none } else si
    (some ui, setUserList si (removeFirst towlower pszUID (getUserList si)))

def RemovesUser (towlower : UInt16 → UInt16) (si : SESSION_INFO) (pszUID : WStr) : Prop :=
  match SM_RemoveUser towlower si pszUID with
  | (none, si') =>
    (∀ ui ∈ (getUserList si).items, CompareUser ui.pszUID pszUID ≠ 0) ∧ (getUserList si').items = (getUserList si).items
  | (some ui, si') =>
    ui ∈ (getUserList si).items ∧ CompareUser ui.pszUID pszUID = 0 ∧
      (getUserList si').items = (getUserList si).items.filter fun it => it.address ≠ ui.address

def FindsFirst (towlower : UInt16 → UInt16) (si : SESSION_INFO) (pszUID : WStr) : Prop :=
  (∀ ui ∈ (getUserList si).items, CompareUser ui.pszUID pszUID ≠ 0) ∨
    UM_FindUser si pszUID = (getUserList si).items.find? fun it => sameText towlower it.pszUID pszUID

theorem compareUser_eq_zero {pszUID1 pszUID2 : WStr} : CompareUser pszUID1 pszUID2 = 0 ↔ pszUID1 = pszUID2 :=
  Compare.ofOrder_eq_zero

theorem getUserList_setUserList (si : SESSION_INFO) (users : Users) : getUserList (setUserList si users) = users := by
  unfold getUserList setUserList
  split
  . rfl
  . next h =>
    dsimp only
    rw [h]
    rfl

theorem eraseP_eq_filter_iff {items : List USERINFO} {p : USERINFO → Bool} (hdistinct : (items.map (·.address)).Nodup)
    (hmem : ui ∈ items) (hp : p ui)
    : items.eraseP p = items.filter (fun it => it.address ≠ ui.address) ↔ items.find? p = some ui := by
  induction items with
  | nil => cases hmem
  | cons it items ih =>
    rw [List.map_cons, List.nodup_cons] at hdistinct
    have hne : ∀ it' ∈ items, it'.address ≠ it.address := by
      intro it' hit' heq
      apply hdistinct.1
      rw [← heq]
      exact List.mem_map_of_mem hit'
    by_cases hit : p it
    . rw [List.eraseP_cons_of_pos hit, List.find?_cons_of_pos hit, Option.some_inj]
      constructor
      . intro heq
        rcases List.mem_cons.1 hmem with rfl | hmem
        . rfl
        . -- the user is still there
          rw [heq, List.mem_filter] at hmem
          exact absurd rfl (of_decide_eq_true hmem.2)
      . rintro rfl
        rw [List.filter_cons_of_neg (by simp), List.filter_eq_self.2]
        intro it' hit'
        exact decide_eq_true (hne it' hit')
    . rcases List.mem_cons.1 hmem with rfl | hmem
      . exact absurd hp hit
      . have hkeep : decide (it.address ≠ ui.address) = true := decide_eq_true (hne ui hmem).symm
        rw [List.eraseP_cons_of_neg hit, List.find?_cons_of_neg hit, ← ih hdistinct.2 hmem, List.filter_cons, if_pos hkeep,
          List.cons.injEq, eq_self, true_and]

theorem removesUser_iff (towlower : UInt16 → UInt16) (si : SESSION_INFO) (pszUID : WStr)
    : RemovesUser towlower si pszUID ↔ FindsFirst towlower si pszUID := by
  unfold RemovesUser FindsFirst SM_RemoveUser
  cases hfind : UM_FindUser si pszUID with
  | none =>
    dsimp only
    constructor
    . exact fun h => .inl h.1
    . rintro (hnone | hfirst)
      . exact ⟨hnone, rfl⟩
      . refine ⟨?_, rfl⟩
        intro ui hui hzero
        have hno := List.find?_eq_none.1 hfirst.symm ui hui
        rw [compareUser_eq_zero.1 hzero] at hno
        exact hno (decide_eq_true rfl)
  | some ui =>
    obtain ⟨hmem, hzero⟩ := ListItems.mem_of_find hfind
    have hsame : decide (sameText towlower ui.pszUID pszUID) = true := by
      rw [compareUser_eq_zero.1 hzero]
      exact decide_eq_true rfl
    have hpMe : getUserList (if si.pMe = some ui.address then { si with pMe := none } else si) = getUserList si := by
      split
      . rfl
      . rfl
    have herase := eraseP_eq_filter_iff (p := fun it => sameText towlower it.pszUID pszUID) (getUserList si).distinct hmem
      hsame
    dsimp only
    rw [getUserList_setUserList, hpMe]
    change _ ∧ _ ∧ (getUserList si).items.eraseP _ = _ ↔ _
    rw [herase]
    constructor
    . exact fun h => .inr h.2.2.symm
    . rintro (hnone | hfirst)
      . exact absurd hzero (hnone ui hmem)
      . exact ⟨hmem, hzero, hfirst.symm⟩

def twoCases : SESSION_INFO where
  arUsers :=
    { items := [⟨1, .lit "B", .lit "Bob", 0, 0, 0⟩, ⟨2, .lit "b", .lit "Bea", 0, 0, 0⟩]
      distinct := by decide }
  pParent := none
  pMe := none

theorem not_removesUser_case : ¬RemovesUser (fun c => if 65 ≤ c ∧ c ≤ 90 then c + 32 else c) twoCases (.lit "b") := by
  rintro ⟨-, -, hitems⟩
  exact absurd (congrArg (List.map (·.address)) hitems) (by decide +kernel)

end Chat.UserList
