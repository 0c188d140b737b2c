import MirandaNG.Jabber.RosterList

/-!
This module proves that in any sequence of calls on the list of roster entries an item is found by the
JID it was added for, and only that item is removed, as long as roster entries are compared in one way.
-/

open Transition

namespace Jabber
namespace RosterList

variable {w : RosterList} {list : JABBER_LIST} {jid : CStr}

structure Clear (w : RosterList) (list : JABBER_LIST) (jid : CStr) : Prop where
  coherent : Coherent (w.probe list jid :: w.m_lstRoster)
  kept : (w.probe list jid).bUseResource = true → JabberStripJid jid ≠ jid →
    ∀ x ∈ w.m_lstRoster, (list, jid, x.addr) ∈ w.added → x.bUseResource = true

def Plain (w : RosterList) : Call → Prop
  | .ListAdd list jid _ => w.Clear list jid ∧ (list = .LIST_BOOKMARK → stripResource jid = jid)
  | .ListRemove list (some jid) => w.Clear list jid
  | .ListGetItemPtr list (some jid) => w.Clear list jid
  | _ => True

structure Keeps (ok : RosterList → Call → Prop) (w : RosterList) : Prop where
  preorder : ∀ list jid, ok w (.ListGetItemPtr list (some jid)) →
    Compare.TotalPreorder fun x y : {x // x ∈ w.probe list jid :: w.m_lstRoster} =>
      compareListItems x y
  sorted : Compare.Sorted compareListItems w.m_lstRoster
  found : ∀ list jid, ok w (.ListGetItemPtr list (some jid)) → ∀ x ∈ w.m_lstRoster,
    (list, jid, x.addr) ∈ w.added → w.ListGetItemPtr list (some jid) = some x
  removed : ∀ list jid, ok w (.ListRemove list (some jid)) → ∀ x ∈ w.m_lstRoster,
    (list, jid, x.addr) ∈ w.added →
    (w.step (.ListRemove list (some jid))).m_lstRoster = w.m_lstRoster.filter (·.addr ≠ x.addr)

theorem find_isSome {α : Type} (result : α → Int) (xs : List α)
    : (ListItems.find result xs).isSome = (ListItems.getIndex result xs).isSome := by
  unfold ListItems.find
  cases hindex : ListItems.getIndex result xs with
  | none => rfl
  | some i =>
    obtain ⟨x, hx, _⟩ := ListItems.getElem?_of_getIndex hindex
    rw [Option.bind_some, hx]
    rfl

theorem ListGetItemPtr_chatRoom (w : RosterList) (jid : CStr)
    : (w.ListGetItemPtr .LIST_CHATROOM (some jid)).isSome = w.hasChatRoom jid :=
  find_isSome _ _

theorem hasChatRoom_stripResource (w : RosterList) (jid : CStr)
    : w.hasChatRoom (stripResource jid) = w.hasChatRoom jid := by
  unfold hasChatRoom ListItems.getIndex
  rw [ListItems.search_congr]
  intro x _
  by_cases hlist : x.list = .LIST_CHATROOM
  . have hother : x.list ≠ .LIST_ROSTER := by
      rw [hlist]
      nofun
    rw [compareListItems_other hother hlist false, compareListItems_other hother hlist false]
    change _ = CStr.stricmp _ (JabberStripJid jid)
    rw [← JabberStripJid_stripResource]
    rfl
  . rw [compareListItems_ne hlist, compareListItems_ne hlist]
    rfl

theorem ChatRoomHContactFromJID_of_none (h : w.hasChatRoom jid = false)
    : w.ChatRoomHContactFromJID jid = 0 := by
  unfold ChatRoomHContactFromJID
  split
  . rename_i heq
    rw [← ListGetItemPtr_chatRoom, heq] at h
    cases h
  . rfl

theorem probe_flag (w : RosterList) (list : JABBER_LIST) (jid : CStr)
    : (w.probe list jid).bUseResource = decide (list = .LIST_ROSTER ∧ w.hasChatRoom jid) :=
  rfl

theorem newItem_eq (w : RosterList) (list : JABBER_LIST) (jid : CStr) (hContact : UInt32)
    : w.newItem list jid hContact =
      ⟨w.next, list, if (w.probe list jid).bUseResource ∨ list = .LIST_VCARD_TEMP then jid
        else stripResource jid, hContact, (w.probe list jid).bUseResource⟩ := by
  unfold newItem
  simp only [ListGetItemPtr_chatRoom, probe_flag]
  by_cases hroom : list = .LIST_ROSTER ∧ w.hasChatRoom jid = true
  . simp only [decide_eq_true hroom, Bool.not_true, Bool.false_eq_true, false_and, if_false, true_or,
      if_true]
  . simp only [decide_eq_false hroom, Bool.not_false, true_and, Bool.false_eq_true, false_or]
    rw [if_neg]
    . by_cases hvcard : list = .LIST_VCARD_TEMP
      . rw [if_pos hvcard, if_neg (not_not.2 hvcard)]
      . rw [if_neg hvcard, if_pos hvcard]
    . intro hcontact
      obtain ⟨hlist, hcontact⟩ := hcontact
      apply hcontact
      apply ChatRoomHContactFromJID_of_none
      have hne : list ≠ .LIST_VCARD_TEMP := by
        rw [hlist]
        nofun
      rw [if_pos hne, hasChatRoom_stripResource]
      exact Bool.eq_false_iff.2 fun hhas => hroom ⟨hlist, hhas⟩

theorem newItem_list (w : RosterList) (list : JABBER_LIST) (jid : CStr) (hContact : UInt32)
    : (w.newItem list jid hContact).list = list := by
  rw [newItem_eq]

theorem newItem_flag (w : RosterList) (list : JABBER_LIST) (jid : CStr) (hContact : UInt32)
    : (w.newItem list jid hContact).bUseResource = (w.probe list jid).bUseResource := by
  rw [newItem_eq]

theorem newItem_bare (w : RosterList) (list : JABBER_LIST) (jid : CStr) (hContact : UInt32)
    : JabberStripJid (w.newItem list jid hContact).jid = JabberStripJid jid := by
  rw [newItem_eq]
  simp only []
  split
  . rfl
  . exact JabberStripJid_stripResource jid

theorem newItem_full (w : RosterList) {list : JABBER_LIST} {jid : CStr} (hContact : UInt32)
    (h : (w.probe list jid).bUseResource = true ∨ list = .LIST_VCARD_TEMP ∨ stripResource jid = jid)
    : (w.newItem list jid hContact).jid = jid := by
  rw [newItem_eq]
  simp only []
  split
  . rfl
  . rename_i hneither
    rw [not_or] at hneither
    exact (h.resolve_left hneither.1).resolve_left hneither.2

theorem itemKey_full {full : Bool} {x : JABBER_LIST_ITEM}
    (h : (x.list = .LIST_ROSTER ∧ full) ∨ x.list = .LIST_BOOKMARK ∨ x.list = .LIST_VCARD_TEMP)
    : itemKey full x = x.jid :=
  if_pos h

theorem itemKey_bare {full : Bool} {x : JABBER_LIST_ITEM}
    (h : ¬((x.list = .LIST_ROSTER ∧ full) ∨ x.list = .LIST_BOOKMARK ∨ x.list = .LIST_VCARD_TEMP))
    : itemKey full x = JabberStripJid x.jid :=
  if_neg h

theorem itemKey_newItem (w : RosterList) {list : JABBER_LIST} {jid : CStr} (hContact : UInt32)
    (hlist : list ≠ .LIST_ROSTER) (hbookmark : list = .LIST_BOOKMARK → stripResource jid = jid)
    : itemKey false (w.newItem list jid hContact) = itemKey false (w.probe list jid) := by
  have hnew := w.newItem_list list jid hContact
  by_cases hfull : (list = .LIST_ROSTER ∧ false = true) ∨ list = .LIST_BOOKMARK ∨
      list = .LIST_VCARD_TEMP
  . rw [itemKey_full (by rwa [hnew]), @itemKey_full _ (w.probe list jid) hfull]
    apply newItem_full
    rcases hfull with hroster | hfull | hfull
    . exact absurd hroster.1 hlist
    . exact Or.inr (Or.inr (hbookmark hfull))
    . exact Or.inr (Or.inl hfull)
  . rw [itemKey_bare (by rwa [hnew]), @itemKey_bare _ (w.probe list jid) hfull, newItem_bare]
    rfl

theorem compare_newItem (hcoherent : Coherent (w.probe list jid :: w.m_lstRoster))
    (hbookmark : list = .LIST_BOOKMARK → stripResource jid = jid) (hContact : UInt32)
    {x : JABBER_LIST_ITEM} (hx : x ∈ w.m_lstRoster)
    : compareListItems x (w.newItem list jid hContact) = compareListItems x (w.probe list jid) := by
  by_cases hxlist : x.list = list
  . by_cases hlist : list = .LIST_ROSTER
    . rw [compareListItems_roster (hxlist.trans hlist) ((newItem_list ..).trans hlist),
        compareListItems_roster (hxlist.trans hlist) hlist, newItem_flag]
      split
      . rename_i hflag
        rw [newItem_full]
        . rfl
        . rcases hflag with hflag | hflag
          . rcases hcoherent with hnone | hall
            . have := hnone x (List.mem_cons_of_mem _ hx) (hxlist.trans hlist)
              rw [hflag] at this
              cases this
            . rcases hall _ List.mem_cons_self hlist with hprobe | hprobe
              . exact Or.inl hprobe
              . exact Or.inr (Or.inr (stripResource_of_bare hprobe))
          . exact Or.inl hflag
      . rw [newItem_bare]
        rfl
    . have hother : x.list ≠ .LIST_ROSTER := by rwa [hxlist]
      rw [compareListItems_other hother (hxlist.trans (newItem_list ..).symm) false,
        compareListItems_other (y := w.probe list jid) hother hxlist false,
        itemKey_newItem w hContact hlist hbookmark]
  . have hprobe : x.list ≠ (w.probe list jid).list := hxlist
    rw [compareListItems_ne hprobe, compareListItems_ne]
    . rw [newItem_list]
      rfl
    . rwa [newItem_list]

theorem coherent_newItem (hcoherent : Coherent (w.probe list jid :: w.m_lstRoster))
    (hContact : UInt32)
    : Coherent (w.newItem list jid hContact :: w.m_lstRoster) := by
  rcases hcoherent with hnone | hall
  . left
    intro x hx hlist
    rcases List.mem_cons.1 hx with rfl | hx
    . rw [newItem_flag]
      rw [newItem_list] at hlist
      exact hnone _ List.mem_cons_self hlist
    . exact hnone x (List.mem_cons_of_mem _ hx) hlist
  . right
    intro x hx hlist
    rcases List.mem_cons.1 hx with rfl | hx
    . rw [newItem_flag]
      rw [newItem_list] at hlist
      apply (hall _ List.mem_cons_self hlist).imp_right
      intro hbare
      change JabberStripJid jid = jid at hbare
      rw [newItem_full w hContact (Or.inr (Or.inr (stripResource_of_bare hbare)))]
      exact hbare
    . exact hall x (List.mem_cons_of_mem _ hx) hlist

structure Matches (list : JABBER_LIST) (jid : CStr) (x : JABBER_LIST_ITEM) : Prop where
  list_eq : x.list = list
  roster : list = .LIST_ROSTER → (JabberStripJid x.jid).stricmp (JabberStripJid jid) = 0
  resource : list = .LIST_ROSTER → x.bUseResource = true → x.jid.stricmp jid = 0
  other : list ≠ .LIST_ROSTER → (itemKey false x).stricmp (itemKey false (tmp list jid false)) = 0

theorem matches_of_compare {x : JABBER_LIST_ITEM} (h : compareListItems x (w.probe list jid) = 0)
    : Matches list jid x := by
  have hlist : x.list = list := list_eq_of_compare h
  by_cases hroster : list = .LIST_ROSTER
  . rw [compareListItems_roster (hlist.trans hroster) hroster] at h
    split at h
    . exact ⟨hlist, fun _ => stricmp_JabberStripJid h, fun _ _ => h, fun hne => absurd hroster hne⟩
    . rename_i hflag
      exact ⟨hlist, fun _ => h, fun _ htrue => absurd (Or.inl htrue) hflag,
        fun hne => absurd hroster hne⟩
  . have hother : x.list ≠ .LIST_ROSTER := by rwa [hlist]
    rw [compareListItems_other (y := w.probe list jid) hother hlist false] at h
    exact ⟨hlist, fun heq => absurd heq hroster, fun heq => absurd heq hroster, fun _ => h⟩

theorem Matches.compare {x : JABBER_LIST_ITEM} (h : Matches list jid x) (hx : x ∈ w.m_lstRoster)
    (hadded : (list, jid, x.addr) ∈ w.added) (hclear : w.Clear list jid)
    : compareListItems x (w.probe list jid) = 0 := by
  by_cases hroster : list = .LIST_ROSTER
  . rw [compareListItems_roster (h.list_eq.trans hroster) hroster]
    split
    . rename_i hflag
      cases hxflag : x.bUseResource with
      | true => exact h.resource hroster hxflag
      | false =>
        rw [hxflag] at hflag
        have hprobe := hflag.resolve_left nofun
        have hbare : JabberStripJid jid = jid := by
          by_contra hne
          have := hclear.kept hprobe hne x hx hadded
          rw [hxflag] at this
          cases this
        have hxbare : JabberStripJid x.jid = x.jid := by
          rcases hclear.coherent with hnone | hall
          . have := hnone _ List.mem_cons_self hroster
            rw [hprobe] at this
            cases this
          . apply (hall x (List.mem_cons_of_mem _ hx) (h.list_eq.trans hroster)).resolve_left
            rw [hxflag]
            nofun
        have := h.roster hroster
        rwa [hxbare, hbare] at this
    . exact h.roster hroster
  . have hother : x.list ≠ .LIST_ROSTER := by rwa [h.list_eq]
    rw [compareListItems_other (y := w.probe list jid) hother h.list_eq false]
    exact h.other hroster

theorem matches_newItem (w : RosterList) (hbookmark : list = .LIST_BOOKMARK → stripResource jid = jid)
    (hContact : UInt32)
    : Matches list jid (w.newItem list jid hContact) where
  list_eq := newItem_list ..
  roster _ := by
    rw [newItem_bare, CStr.stricmp_eq_zero]
  resource _ hflag := by
    rw [newItem_flag] at hflag
    rw [newItem_full w hContact (Or.inl hflag), CStr.stricmp_eq_zero]
  other hne := by
    rw [itemKey_newItem w hContact hne hbookmark, CStr.stricmp_eq_zero]
    rfl

structure Inv (w : RosterList) : Prop where
  coherent : Coherent w.m_lstRoster
  strict : Strict w.m_lstRoster
  addrs : w.m_lstRoster.Pairwise fun x y => x.addr ≠ y.addr
  fresh : ∀ x ∈ w.m_lstRoster, x.addr < w.next
  addedFresh : ∀ list jid addr, (list, jid, addr) ∈ w.added → addr < w.next
  matched : ∀ list jid, ∀ x ∈ w.m_lstRoster, (list, jid, x.addr) ∈ w.added → Matches list jid x

theorem inv_init : Inv {} where
  coherent := Or.inl (by intro x hx; cases hx)
  strict := ⟨.nil, .nil⟩
  addrs := .nil
  fresh := by intro x hx; cases hx
  addedFresh := by intro _ _ _ h; cases h
  matched := by intro _ _ x hx; cases hx

theorem Inv.sublist (h : Inv w) {items : List JABBER_LIST_ITEM} (hsub : items.Sublist w.m_lstRoster)
    : Inv { w with m_lstRoster := items } where
  coherent := h.coherent.sub fun _ hx => hsub.subset hx
  strict := h.strict.sublist hsub
  addrs := h.addrs.sublist hsub
  fresh x hx := h.fresh x (hsub.subset hx)
  addedFresh := h.addedFresh
  matched list jid x hx := h.matched list jid x (hsub.subset hx)

theorem Inv.ListRemove (h : Inv w) (list : JABBER_LIST) (jid : Option CStr)
    : Inv (w.ListRemove list jid) := by
  unfold RosterList.ListRemove
  split
  . exact h.sublist (ListItems.remove_sublist ..)
  . exact h

structure SameKey (x y : JABBER_LIST_ITEM) : Prop where
  addr : y.addr = x.addr
  list : y.list = x.list
  jid : y.jid = x.jid
  bUseResource : y.bUseResource = x.bUseResource

theorem SameKey.compare {x x' y y' : JABBER_LIST_ITEM} (h : SameKey x x') (h' : SameKey y y')
    : compareListItems x' y' = compareListItems x y := by
  unfold compareListItems
  rw [h.list, h'.list, h.jid, h'.jid, h.bUseResource, h'.bUseResource]

theorem Inv.map (h : Inv w) {f : JABBER_LIST_ITEM → JABBER_LIST_ITEM} (hf : ∀ x, SameKey x (f x))
    : Inv { w with m_lstRoster := w.m_lstRoster.map f } := by
  have hback : ∀ {P : JABBER_LIST_ITEM → Prop}, (∀ x ∈ w.m_lstRoster, P (f x)) →
      ∀ y ∈ w.m_lstRoster.map f, P y := by
    intro P hall y hy
    obtain ⟨x, hx, rfl⟩ := List.mem_map.1 hy
    exact hall x hx
  constructor
  . apply h.coherent.imp
    . intro hnone
      apply hback
      intro x hx
      rw [(hf x).list, (hf x).bUseResource]
      exact hnone x hx
    . intro hall
      apply hback
      intro x hx
      rw [(hf x).list, (hf x).bUseResource, (hf x).jid]
      exact hall x hx
  . constructor
    . unfold Compare.Sorted
      rw [List.pairwise_map]
      apply h.strict.sorted.imp
      intro x y hle
      rwa [(hf x).compare (hf y)]
    . rw [List.pairwise_map]
      apply h.strict.distinct.imp
      intro x y hne
      rwa [(hf x).compare (hf y)]
  . rw [List.pairwise_map]
    apply h.addrs.imp
    intro x y hne
    rwa [(hf x).addr, (hf y).addr]
  . apply hback
    intro x hx
    rw [(hf x).addr]
    exact h.fresh x hx
  . exact h.addedFresh
  . intro list jid
    apply hback
    intro x hx hadded
    rw [(hf x).addr] at hadded
    have hmatched := h.matched list jid x hx hadded
    have hkey : itemKey false (f x) = itemKey false x := by
      unfold itemKey
      rw [(hf x).list, (hf x).jid]
    refine ⟨(hf x).list.trans hmatched.list_eq, ?_, ?_, ?_⟩
    . rw [(hf x).jid]
      exact hmatched.roster
    . rw [(hf x).jid, (hf x).bUseResource]
      exact hmatched.resource
    . rw [hkey]
      exact hmatched.other

theorem Inv.setContact (h : Inv w) (addr : Nat) (hContact : UInt32)
    : Inv (w.setContact addr hContact) := by
  apply h.map
  intro x
  split
  . exact ⟨rfl, rfl, rfl, rfl⟩
  . exact ⟨rfl, rfl, rfl, rfl⟩

theorem Inv.addFound (h : Inv w) {x : JABBER_LIST_ITEM} (hx : x ∈ w.m_lstRoster)
    (hzero : compareListItems x (w.probe list jid) = 0)
    : Inv { w with added := (list, jid, x.addr) :: w.added } := by
  refine ⟨h.coherent, h.strict, h.addrs, h.fresh, ?_, ?_⟩
  . intro list' jid' addr hadded
    rcases List.mem_cons.1 hadded with heq | hadded
    . injection heq with _ heq
      injection heq with _ heq
      rw [heq]
      exact h.fresh x hx
    . exact h.addedFresh list' jid' addr hadded
  . intro list' jid' y hy hadded
    rcases List.mem_cons.1 hadded with heq | hadded
    . injection heq with hlist heq
      injection heq with hjid haddr
      have hyx : y = x := by
        by_contra hne
        have hsymm : Std.Symm fun x y : JABBER_LIST_ITEM => x.addr ≠ y.addr :=
          ⟨fun _ _ hxy => hxy.symm⟩
        exact h.addrs.forall hy hx hne haddr
      rw [hlist, hjid, hyx]
      exact matches_of_compare hzero
    . exact h.matched list' jid' y hy hadded

theorem Inv.addNew (h : Inv w) (hclear : w.Clear list jid)
    (hbookmark : list = .LIST_BOOKMARK → stripResource jid = jid) (hContact : UInt32)
    (hnone : ∀ x ∈ w.m_lstRoster, compareListItems x (w.probe list jid) ≠ 0)
    : Inv { w with
        m_lstRoster := ListItems.insert compareListItems w.m_lstRoster (w.newItem list jid hContact)
        next := w.next + 1
        added := (list, jid, w.next) :: w.added } := by
  have hcoherent := coherent_newItem hclear.coherent hContact
  have hperm := ListItems.insert_perm compareListItems w.m_lstRoster (w.newItem list jid hContact)
  have haddr : (w.newItem list jid hContact).addr = w.next := by rw [newItem_eq]
  constructor
  . exact hcoherent.sub fun x hx => hperm.mem_iff.1 hx
  . apply h.strict.insert hcoherent
    intro x hx
    rw [compare_newItem hclear.coherent hbookmark hContact hx]
    exact hnone x hx
  . rw [hperm.pairwise_iff fun hxy => hxy.symm, List.pairwise_cons]
    refine ⟨?_, h.addrs⟩
    intro x hx
    have := h.fresh x hx
    omega
  . intro x hx
    change x.addr < w.next + 1
    rcases List.mem_cons.1 (hperm.mem_iff.1 hx) with rfl | hx
    . omega
    . have := h.fresh x hx
      omega
  . intro list' jid' addr hadded
    change addr < w.next + 1
    rcases List.mem_cons.1 hadded with heq | hadded
    . injection heq with _ heq
      injection heq with _ heq
      omega
    . have := h.addedFresh list' jid' addr hadded
      omega
  . intro list' jid' x hx hadded
    rcases List.mem_cons.1 (hperm.mem_iff.1 hx) with rfl | hx
    . rcases List.mem_cons.1 hadded with heq | hadded
      . injection heq with hlist heq
        injection heq with hjid _
        rw [hlist, hjid]
        exact matches_newItem w hbookmark hContact
      . have := h.addedFresh list' jid' _ hadded
        omega
    . rcases List.mem_cons.1 hadded with heq | hadded
      . injection heq with _ heq
        injection heq with _ heq
        have := h.fresh x hx
        omega
      . exact h.matched list' jid' x hx hadded

theorem ListAdd_found {x : JABBER_LIST_ITEM} (h : w.ListGetItemPtr list (some jid) = some x)
    (hContact : UInt32)
    : w.ListAdd list jid hContact =
      (x.addr, if hContact ≠ 0 then w.setContact x.addr hContact else w) := by
  unfold ListAdd
  rw [h]

theorem ListAdd_new (h : w.ListGetItemPtr list (some jid) = none) (hContact : UInt32)
    : w.ListAdd list jid hContact =
      (w.next, { w with
        m_lstRoster := ListItems.insert compareListItems w.m_lstRoster (w.newItem list jid hContact)
        next := w.next + 1 }) := by
  unfold ListAdd
  rw [h]
  simp only [newItem_eq]

theorem Inv.ListAdd (h : Inv w) (hclear : w.Clear list jid)
    (hbookmark : list = .LIST_BOOKMARK → stripResource jid = jid) (hContact : UInt32)
    : Inv (w.step (.ListAdd list jid hContact)) := by
  unfold RosterList.step
  cases hfind : w.ListGetItemPtr list (some jid) with
  | some x =>
    obtain ⟨hx, hzero⟩ := ListItems.mem_of_find hfind
    have hinv := h.addFound hx hzero
    simp only [ListAdd_found hfind]
    split
    . exact hinv.setContact x.addr hContact
    . exact hinv
  | none =>
    have hordered := h.strict.ordered hclear.coherent
    have hnone := (ListItems.find_eq_none_iff hordered).1 hfind
    simp only [ListAdd_new hfind]
    exact h.addNew hclear hbookmark hContact hnone

theorem Inv.step (h : Inv w) (c : Call) (hplain : w.Plain c) : Inv (w.step c) := by
  cases c with
  | ListGetItemPtr list jid => exact h
  | ListRemove list jid => exact h.ListRemove list jid
  | ListRemoveList list => exact h.sublist List.filter_sublist
  | ListAdd list jid hContact => exact h.ListAdd hplain.1 hplain.2 hContact

theorem Inv.found (h : Inv w) (hclear : w.Clear list jid) {x : JABBER_LIST_ITEM}
    (hx : x ∈ w.m_lstRoster) (hadded : (list, jid, x.addr) ∈ w.added)
    : w.ListGetItemPtr list (some jid) = some x :=
  h.strict.find hclear.coherent hx ((h.matched list jid x hx hadded).compare hx hadded hclear)

theorem found_of_run {w : RosterList} (h : Run RosterList.step Plain {} w) : Keeps Plain w := by
  have hinv : Inv w := h.inv (fun _ c hw hplain => hw.step c hplain) inv_init
  constructor
  . intro list jid hclear
    obtain ⟨full, hfull⟩ := hclear.coherent.compare
    have hpreorder := (compareBy_preorder full).comap
      fun x : {x // x ∈ w.probe list jid :: w.m_lstRoster} => x.1
    constructor
    . intro x y
      rw [hfull x.1 x.2 y.1 y.2, hfull y.1 y.2 x.1 x.2]
      exact hpreorder.flip x y
    . intro x y z
      rw [hfull x.1 x.2 y.1 y.2, hfull y.1 y.2 z.1 z.2, hfull x.1 x.2 z.1 z.2]
      exact hpreorder.trans x y z
  . exact hinv.strict.sorted
  . intro list jid hclear x hx hadded
    exact hinv.found hclear hx hadded
  . intro list jid hclear x hx hadded
    change (w.ListRemove list (some jid)).m_lstRoster = _
    unfold RosterList.ListRemove
    rw [hinv.found hclear hx hadded]
    exact hinv.strict.remove hinv.coherent hinv.addrs hx

def room : CStr := ⟨[114, 64, 99], by decide⟩

def member : CStr := ⟨[114, 64, 99, 47, 98], by decide⟩

theorem found_of_run_member
    : Keeps Plain ((({} : RosterList).step (.ListAdd .LIST_ROSTER member 1)).step
        (.ListRemove .LIST_ROSTER (some member))) := by
  have hadd := (@Run.init _ _ RosterList.step Plain {}).call (.ListAdd .LIST_ROSTER member 1)
    ⟨⟨Or.inl (by decide +kernel), by decide +kernel⟩, nofun⟩
  exact found_of_run (hadd.call (.ListRemove .LIST_ROSTER (some member))
    ⟨Or.inl (by decide +kernel), by decide +kernel⟩)

def leaving : List Call :=
  [.ListAdd .LIST_CHATROOM room 1, .ListAdd .LIST_ROSTER member 2,
    .ListRemove .LIST_CHATROOM (some room), .ListAdd .LIST_ROSTER room 3]

-- The chat room is found for its member.
theorem found_of_run_leaving
    : ¬ ∀ w, Run RosterList.step (fun _ _ => True) {} w → Keeps (fun _ _ => True) w := by
  intro hkeeps
  have hrun := @Run.foldl _ _ RosterList.step (fun _ _ => True) (fun _ _ => trivial) leaving {}
  have hfound := (hkeeps _ hrun).found .LIST_ROSTER member trivial
    ⟨1, .LIST_ROSTER, member, 2, true⟩ (by decide +kernel) (by decide +kernel)
  exact absurd hfound (by decide +kernel)

end RosterList
end Jabber
