import MirandaNG.Core.ListItems
import MirandaNG.Data.NoCase
import MirandaNG.Transition.Run

/-!
This module contains the list of roster entries, chat rooms, bookmarks and other items of a Jabber
account. All items are in one list that is sorted by `compareListItems`.

It proves that the list of roster entries is searched in the order it is sorted in, as long as
roster entries are compared in one way.
-/

namespace CStr

def before (c : UInt8) (s : CStr) : CStr :=
  ⟨s.bytes.takeWhile (· ≠ c), fun h => s.nul_notMem ((List.takeWhile_prefix _).subset h)⟩

end CStr

namespace Jabber

def JABBER_MAX_JID_LEN : Nat := 1024

def slash : UInt8 := 47

def atSign : UInt8 := 64

def JabberStripJid (jid : CStr) : CStr := (jid.truncate (JABBER_MAX_JID_LEN - 1)).before slash

inductive JABBER_LIST where
  | LIST_ROSTER
  | LIST_CHATROOM
  | LIST_ROOM
  | LIST_FILE
  | LIST_BYTE
  | LIST_FTRECV
  | LIST_BOOKMARK
  | LIST_VCARD_TEMP
  | LIST_FTIQID
deriving DecidableEq

def JABBER_LIST.value : JABBER_LIST → Int
  | .LIST_ROSTER => 0
  | .LIST_CHATROOM => 1
  | .LIST_ROOM => 2
  | .LIST_FILE => 3
  | .LIST_BYTE => 4
  | .LIST_FTRECV => 5
  | .LIST_BOOKMARK => 6
  | .LIST_VCARD_TEMP => 7
  | .LIST_FTIQID => 8

structure JABBER_LIST_ITEM where
  addr : Nat
  list : JABBER_LIST
  jid : CStr
  hContact : UInt32
  bUseResource : Bool
deriving DecidableEq

def compareListItems (p1 p2 : JABBER_LIST_ITEM) : Int :=
  if p1.list ≠ p2.list then
    p1.list.value - p2.list.value
  else if (p1.list = .LIST_ROSTER ∧ (p1.bUseResource ∨ p2.bUseResource)) ∨
      p1.list = .LIST_BOOKMARK ∨ p1.list = .LIST_VCARD_TEMP then
    p1.jid.stricmp p2.jid
  else
    (JabberStripJid p1.jid).stricmp (JabberStripJid p2.jid)

def stripResource (jid : CStr) : CStr where
  bytes :=
    jid.bytes.takeWhile (· ≠ atSign) ++ (jid.bytes.dropWhile (· ≠ atSign)).takeWhile (· ≠ slash)
  nul_notMem := by
    intro h
    apply jid.nul_notMem
    rw [← @List.takeWhile_append_dropWhile _ (· ≠ atSign) jid.bytes]
    rw [List.mem_append] at h ⊢
    exact h.imp_right fun hmem => (List.takeWhile_prefix _).subset hmem

structure RosterList where
  m_lstRoster : List JABBER_LIST_ITEM := []
  next : Nat := 0
  added : List (JABBER_LIST × CStr × Nat) := []

namespace RosterList

variable (w : RosterList)

def tmp (list : JABBER_LIST) (jid : CStr) (bUseResource : Bool) : JABBER_LIST_ITEM :=
  ⟨0, list, jid, 0, bUseResource⟩

def hasChatRoom (jid : CStr) : Bool :=
  (ListItems.getIndex (compareListItems · (tmp .LIST_CHATROOM jid false)) w.m_lstRoster).isSome

def probe (list : JABBER_LIST) (jid : CStr) : JABBER_LIST_ITEM :=
  tmp list jid (list = .LIST_ROSTER ∧ w.hasChatRoom jid)

def ListGetItemPtr (list : JABBER_LIST) : Option CStr → Option JABBER_LIST_ITEM
  | none => none
  | some jid => ListItems.find (compareListItems · (w.probe list jid)) w.m_lstRoster

def ChatRoomHContactFromJID (jid : CStr) : UInt32 :=
  match w.ListGetItemPtr .LIST_CHATROOM (some jid) with
  | some item => item.hContact
  | none => 0

def newItem (list : JABBER_LIST) (jid : CStr) (hContact : UInt32) : JABBER_LIST_ITEM :=
  let isChatRoom : Bool :=
    list = .LIST_ROSTER ∧ (w.ListGetItemPtr .LIST_CHATROOM (some jid)).isSome
  let s := if !isChatRoom ∧ list ≠ .LIST_VCARD_TEMP then stripResource jid else jid
  if !isChatRoom ∧ list = .LIST_ROSTER ∧ w.ChatRoomHContactFromJID s ≠ 0 then
    ⟨w.next, list, jid, hContact, true⟩
  else
    ⟨w.next, list, s, hContact, isChatRoom⟩

def setContact (addr : Nat) (hContact : UInt32) : RosterList :=
  { w with m_lstRoster := w.m_lstRoster.map fun it =>
      if it.addr = addr then { it with hContact := hContact } else it }

def ListAdd (list : JABBER_LIST) (jid : CStr) (hContact : UInt32) : Nat × RosterList :=
  match w.ListGetItemPtr list (some jid) with
  | some item => (item.addr, if hContact ≠ 0 then w.setContact item.addr hContact else w)
  | none =>
    let item := w.newItem list jid hContact
    (item.addr, { w with
      m_lstRoster := ListItems.insert compareListItems w.m_lstRoster item
      next := w.next + 1 })

def ListRemove (list : JABBER_LIST) (jid : Option CStr) : RosterList :=
  match w.ListGetItemPtr list jid with
  | some LI => { w with m_lstRoster := ListItems.remove compareListItems w.m_lstRoster LI }
  | none => w

def ListRemoveList (list : JABBER_LIST) : RosterList :=
  { w with m_lstRoster := w.m_lstRoster.filter (·.list ≠ list) }

inductive Call where
  | ListAdd (list : JABBER_LIST) (jid : CStr) (hContact : UInt32)
  | ListRemove (list : JABBER_LIST) (jid : Option CStr)
  | ListRemoveList (list : JABBER_LIST)
  | ListGetItemPtr (list : JABBER_LIST) (jid : Option CStr)

def step : Call → RosterList
  | .ListAdd list jid hContact =>
    let (addr, w) := w.ListAdd list jid hContact
    { w with added := (list, jid, addr) :: w.added }
  | .ListRemove list jid => w.ListRemove list jid
  | .ListRemoveList list => w.ListRemoveList list
  | .ListGetItemPtr _ _ => w

end RosterList
end Jabber

namespace CStr

theorem toLower_eq_slash {c : UInt8} : toLower c = Jabber.slash ↔ c = Jabber.slash := by
  unfold toLower Jabber.slash
  split
  . next hupper =>
    have hlow := UInt8.le_iff_toNat_le.1 hupper.1
    have hhigh := UInt8.le_iff_toNat_le.1 hupper.2
    simp only [UInt8.reduceToNat] at hlow hhigh
    constructor
    . intro heq
      have := congrArg UInt8.toNat heq
      rw [UInt8.toNat_add] at this
      simp only [UInt8.reduceToNat] at this
      omega
    . rintro rfl
      simp only [UInt8.reduceToNat] at hlow
      omega
  . exact Iff.rfl

theorem stricmp_eq_zero {s t : CStr} : s.stricmp t = 0 ↔ s.lower = t.lower := Compare.ofOrder_eq_zero

end CStr

namespace Jabber

theorem lower_JabberStripJid (jid : CStr) : (JabberStripJid jid).lower = JabberStripJid jid.lower := by
  apply CStr.ext_bytes
  change ((jid.bytes.take _).takeWhile _).map CStr.toLower =
    ((jid.bytes.map CStr.toLower).take _).takeWhile _
  rw [← List.map_take, List.takeWhile_map]
  congr 2
  funext c
  simp only [Function.comp, ne_eq, CStr.toLower_eq_slash]

theorem stricmp_JabberStripJid {s t : CStr} (h : s.stricmp t = 0)
    : (JabberStripJid s).stricmp (JabberStripJid t) = 0 := by
  rw [CStr.stricmp_eq_zero] at h ⊢
  rw [lower_JabberStripJid, lower_JabberStripJid, h]

theorem takeWhile_take_cut {p : UInt8 → Bool} {s u : List UInt8} (n : Nat)
    (hu : ∀ c ∈ u.head?, p c = false)
    : ((s ++ u).take n).takeWhile p = (s.take n).takeWhile p := by
  rw [List.take_append, List.takeWhile_append]
  split
  . rename_i hall
    have hnil : (u.take (n - s.length)).takeWhile p = [] := by
      cases u with
      | nil => rw [List.take_nil]; rfl
      | cons c u =>
        cases n - s.length with
        | zero => rfl
        | succ m => rw [List.take_succ_cons, List.takeWhile_cons, hu c rfl]; rfl
    rw [hnil, List.append_nil]
    exact (List.takeWhile_prefix p).eq_of_length hall |>.symm
  . rfl

theorem stripResource_append (jid : CStr)
    : ∃ u, jid.bytes = (stripResource jid).bytes ++ u ∧ ∀ c ∈ u.head?, c = slash := by
  refine ⟨(jid.bytes.dropWhile (· ≠ atSign)).dropWhile (· ≠ slash), ?_, ?_⟩
  . unfold stripResource
    rw [List.append_assoc, List.takeWhile_append_dropWhile, List.takeWhile_append_dropWhile]
  . intro c hc
    have := List.head?_dropWhile_not (· ≠ slash) (jid.bytes.dropWhile (· ≠ atSign))
    rw [Option.mem_def.1 hc] at this
    simpa using this

theorem JabberStripJid_stripResource (jid : CStr)
    : JabberStripJid (stripResource jid) = JabberStripJid jid := by
  obtain ⟨u, hu, hslash⟩ := stripResource_append jid
  apply CStr.ext_bytes
  change (List.take _ (stripResource jid).bytes).takeWhile _ = (List.take _ jid.bytes).takeWhile _
  rw [hu]
  refine (takeWhile_take_cut _ ?_).symm
  intro c hc
  simp [hslash c hc]

theorem stripResource_of_bare {jid : CStr} (h : JabberStripJid jid = jid) : stripResource jid = jid := by
  have hslash : slash ∉ jid.bytes := by
    intro hmem
    rw [← h] at hmem
    have := List.mem_takeWhile_imp hmem
    simp at this
  obtain ⟨u, hu, hhead⟩ := stripResource_append jid
  apply CStr.ext_bytes
  cases u with
  | nil => rw [hu, List.append_nil]
  | cons c u =>
    apply absurd _ hslash
    rw [hu, ← hhead c rfl]
    exact List.mem_append_right _ List.mem_cons_self

theorem JABBER_LIST.value_inj {l l' : JABBER_LIST} : l.value = l'.value ↔ l = l' := by
  cases l <;> cases l' <;> decide

-- What an item is compared by when all roster entries are compared with their resource, or none is
def itemKey (full : Bool) (p : JABBER_LIST_ITEM) : CStr :=
  if (p.list = .LIST_ROSTER ∧ full) ∨ p.list = .LIST_BOOKMARK ∨ p.list = .LIST_VCARD_TEMP then p.jid
  else JabberStripJid p.jid

def compareBy (full : Bool) (p1 p2 : JABBER_LIST_ITEM) : Int :=
  if p1.list.value ≠ p2.list.value then p1.list.value - p2.list.value
  else (itemKey full p1).stricmp (itemKey full p2)

theorem compareBy_preorder (full : Bool) : Compare.TotalPreorder (compareBy full) :=
  (CStr.stricmp_preorder.comap (itemKey full)).lex fun p => p.list.value

def Coherent (items : List JABBER_LIST_ITEM) : Prop :=
  (∀ x ∈ items, x.list = .LIST_ROSTER → x.bUseResource = false) ∨
    ∀ x ∈ items, x.list = .LIST_ROSTER → x.bUseResource = true ∨ JabberStripJid x.jid = x.jid

theorem Coherent.sub {items items' : List JABBER_LIST_ITEM} (h : Coherent items)
    (hsub : ∀ x ∈ items', x ∈ items)
    : Coherent items' :=
  h.imp (fun hall x hx => hall x (hsub x hx)) fun hall x hx => hall x (hsub x hx)

section Items

variable {x y : JABBER_LIST_ITEM}

theorem compareListItems_ne (h : x.list ≠ y.list) : compareListItems x y = x.list.value - y.list.value :=
  if_pos h

theorem compareBy_ne (full : Bool) (h : x.list ≠ y.list)
    : compareBy full x y = x.list.value - y.list.value :=
  if_pos fun hvalue => h (JABBER_LIST.value_inj.1 hvalue)

theorem compareBy_eq (full : Bool) (h : x.list = y.list)
    : compareBy full x y = (itemKey full x).stricmp (itemKey full y) :=
  if_neg fun hne => hne (congrArg JABBER_LIST.value h)

theorem compareListItems_roster (hx : x.list = .LIST_ROSTER) (hy : y.list = .LIST_ROSTER)
    : compareListItems x y =
      if x.bUseResource ∨ y.bUseResource then x.jid.stricmp y.jid
      else (JabberStripJid x.jid).stricmp (JabberStripJid y.jid) := by
  unfold compareListItems
  simp only [hx, hy, ne_eq, not_true_eq_false, if_false, true_and, reduceCtorEq, or_false]

theorem itemKey_roster (full : Bool) (hx : x.list = .LIST_ROSTER)
    : itemKey full x = if full then x.jid else JabberStripJid x.jid := by
  unfold itemKey
  simp only [hx, true_and, reduceCtorEq, or_false]

theorem compareListItems_other (hx : x.list ≠ .LIST_ROSTER) (hxy : x.list = y.list) (full : Bool)
    : compareListItems x y = (itemKey full x).stricmp (itemKey full y) := by
  unfold compareListItems itemKey
  simp only [hxy, ne_eq, not_true_eq_false, if_false]
  rw [hxy] at hx
  simp only [hx, false_and, false_or]
  split
  . rfl
  . rfl

theorem Coherent.compare {items : List JABBER_LIST_ITEM} (h : Coherent items)
    : ∃ full, ∀ x ∈ items, ∀ y ∈ items, compareListItems x y = compareBy full x y := by
  have hgeneral : ∀ full : Bool, (∀ x ∈ items, ∀ y ∈ items, x.list = .LIST_ROSTER →
      y.list = .LIST_ROSTER →
      compareListItems x y = (itemKey full x).stricmp (itemKey full y)) →
      ∀ x ∈ items, ∀ y ∈ items, compareListItems x y = compareBy full x y := by
    intro full hroster x hx y hy
    by_cases hlist : x.list = y.list
    . rw [compareBy_eq full hlist]
      by_cases hxlist : x.list = .LIST_ROSTER
      . exact hroster x hx y hy hxlist (hlist ▸ hxlist)
      . exact compareListItems_other hxlist hlist full
    . rw [compareListItems_ne hlist, compareBy_ne full hlist]
  rcases h with hnone | hall
  . refine ⟨false, hgeneral false fun x hx y hy hxlist hylist => ?_⟩
    rw [compareListItems_roster hxlist hylist, itemKey_roster false hxlist, itemKey_roster false hylist,
      hnone x hx hxlist, hnone y hy hylist]
    rfl
  . refine ⟨true, hgeneral true fun x hx y hy hxlist hylist => ?_⟩
    rw [compareListItems_roster hxlist hylist, itemKey_roster true hxlist, itemKey_roster true hylist]
    split
    . rfl
    . rename_i hflag
      rw [not_or] at hflag
      rw [(hall x hx hxlist).resolve_left hflag.1, (hall y hy hylist).resolve_left hflag.2]
      rfl

theorem compareListItems_swap (h : compareListItems x y = 0) : compareListItems y x = 0 := by
  by_cases hlist : x.list = y.list
  . by_cases hxlist : x.list = .LIST_ROSTER
    . have hylist := hlist ▸ hxlist
      rw [compareListItems_roster hxlist hylist] at h
      rw [compareListItems_roster hylist hxlist]
      split at h
      . rename_i hflag
        rw [if_pos hflag.symm, CStr.stricmp_eq_zero] at *
        exact h.symm
      . rename_i hflag
        rw [if_neg fun hor => hflag hor.symm, CStr.stricmp_eq_zero] at *
        exact h.symm
    . rw [compareListItems_other hxlist hlist false, CStr.stricmp_eq_zero] at h
      rw [compareListItems_other (hlist ▸ hxlist) hlist.symm false, CStr.stricmp_eq_zero]
      exact h.symm
  . rw [compareListItems_ne hlist] at h
    apply absurd (JABBER_LIST.value_inj.1 _) hlist
    omega

theorem list_eq_of_compare (h : compareListItems x y = 0) : x.list = y.list := by
  by_contra hlist
  rw [compareListItems_ne hlist] at h
  apply hlist
  apply JABBER_LIST.value_inj.1
  omega

end Items

structure Strict (items : List JABBER_LIST_ITEM) : Prop where
  sorted : Compare.Sorted compareListItems items
  distinct : items.Pairwise fun x y => compareListItems x y ≠ 0

section Search

variable {items : List JABBER_LIST_ITEM} {p : JABBER_LIST_ITEM}

theorem Strict.preorder (hcoherent : Coherent (p :: items)) (hstrict : Strict items)
    : ∃ full, Compare.Sorted (compareBy full) items ∧
        (∀ x ∈ p :: items, ∀ y ∈ p :: items, compareListItems x y = compareBy full x y) := by
  obtain ⟨full, hfull⟩ := hcoherent.compare
  refine ⟨full, ?_, hfull⟩
  apply List.Pairwise.imp_of_mem _ hstrict.sorted
  intro x y hx hy hle
  rwa [← hfull x (List.mem_cons_of_mem p hx) y (List.mem_cons_of_mem p hy)]

theorem Strict.ordered (hcoherent : Coherent (p :: items)) (hstrict : Strict items)
    : BinarySearch.Ordered (items.map (compareListItems · p)) := by
  obtain ⟨full, hsorted, hfull⟩ := hstrict.preorder hcoherent
  have hmap : items.map (compareListItems · p) = items.map (compareBy full · p) := by
    apply List.map_congr_left
    intro x hx
    exact hfull x (List.mem_cons_of_mem p hx) p List.mem_cons_self
  rw [hmap]
  exact (compareBy_preorder full).ordered hsorted p

theorem eq_of_distinct {x y : JABBER_LIST_ITEM}
    (h : items.Pairwise fun x y => compareListItems x y ≠ 0) (hx : x ∈ items) (hy : y ∈ items)
    (hzero : compareListItems x y = 0)
    : x = y := by
  by_contra hne
  have hsymm : Std.Symm fun x y => compareListItems x y ≠ 0 :=
    ⟨fun _ _ hxy hyx => hxy (compareListItems_swap hyx)⟩
  exact h.forall hx hy hne hzero

theorem Strict.eq_of_compare (hcoherent : Coherent (p :: items)) (hstrict : Strict items)
    {x y : JABBER_LIST_ITEM} (hx : x ∈ items) (hy : y ∈ items) (hxp : compareListItems x p = 0)
    (hyp : compareListItems y p = 0)
    : x = y := by
  obtain ⟨full, hfull⟩ := hcoherent.compare
  have hmem : ∀ {z}, z ∈ items → z ∈ p :: items := fun hz => List.mem_cons_of_mem p hz
  rw [hfull x (hmem hx) p List.mem_cons_self] at hxp
  rw [hfull y (hmem hy) p List.mem_cons_self] at hyp
  apply eq_of_distinct hstrict.distinct hx hy
  rw [hfull x (hmem hx) y (hmem hy)]
  have hpreorder := compareBy_preorder full
  have hpy : compareBy full p y ≤ 0 := (hpreorder.le_iff p y).2 hyp.ge
  have hpx : compareBy full p x ≤ 0 := (hpreorder.le_iff p x).2 hxp.ge
  have hxy := hpreorder.trans x p y hxp.le hpy
  have hyx := hpreorder.trans y p x hyp.le hpx
  have := (hpreorder.le_iff y x).1 hyx
  omega

theorem Strict.find (hcoherent : Coherent (p :: items)) (hstrict : Strict items)
    {x : JABBER_LIST_ITEM} (hx : x ∈ items) (hxp : compareListItems x p = 0)
    : ListItems.find (compareListItems · p) items = some x := by
  cases hfind : ListItems.find (compareListItems · p) items with
  | none =>
    have hnone := (ListItems.find_eq_none_iff (hstrict.ordered hcoherent)).1 hfind
    exact absurd hxp (hnone x hx)
  | some y =>
    obtain ⟨hy, hyp⟩ := ListItems.mem_of_find hfind
    rw [hstrict.eq_of_compare hcoherent hx hy hxp hyp]

theorem Strict.insert (hcoherent : Coherent (p :: items)) (hstrict : Strict items)
    (hnone : ∀ x ∈ items, compareListItems x p ≠ 0)
    : Strict (ListItems.insert compareListItems items p) := by
  obtain ⟨full, hsorted, hfull⟩ := hstrict.preorder hcoherent
  have hperm := ListItems.insert_perm compareListItems items p
  constructor
  . have hinsert : ListItems.insert compareListItems items p =
        ListItems.insert (compareBy full) items p := by
      apply ListItems.insert_congr
      intro x hx
      exact hfull x (List.mem_cons_of_mem p hx) p List.mem_cons_self
    have := ListItems.sorted_insert (compareBy_preorder full) hsorted p
    rw [← hinsert] at this
    apply List.Pairwise.imp_of_mem _ this
    intro x y hx hy hle
    rwa [hfull x (hperm.mem_iff.1 hx) y (hperm.mem_iff.1 hy)]
  . rw [hperm.pairwise_iff fun hxy hyx => hxy (compareListItems_swap hyx), List.pairwise_cons]
    exact ⟨fun x hx hzero => hnone x hx (compareListItems_swap hzero), hstrict.distinct⟩

theorem Strict.sublist {items' : List JABBER_LIST_ITEM} (hstrict : Strict items)
    (hsub : items'.Sublist items)
    : Strict items' :=
  ⟨hstrict.sorted.sublist hsub, hstrict.distinct.sublist hsub⟩

theorem eraseIdx_eq_filter {i : Nat} {x : JABBER_LIST_ITEM} (hi : items[i]? = some x)
    (haddrs : items.Pairwise fun x y => x.addr ≠ y.addr)
    : items.eraseIdx i = items.filter (·.addr ≠ x.addr) := by
  induction items generalizing i with
  | nil => cases hi
  | cons y items ih =>
    obtain ⟨hhead, htail⟩ := List.pairwise_cons.1 haddrs
    cases i with
    | zero =>
      injection hi with hi
      rw [hi] at hhead
      rw [List.eraseIdx_cons_zero, List.filter_cons_of_neg (by simp [hi]), eq_comm, List.filter_eq_self]
      intro z hz
      simpa using (hhead z hz).symm
    | succ i =>
      have hne := hhead x (List.mem_of_getElem? hi)
      rw [List.eraseIdx_cons_succ, List.filter_cons_of_pos (by simpa using hne), ih hi htail]

theorem Strict.remove (hcoherent : Coherent items) (hstrict : Strict items)
    (haddrs : items.Pairwise fun x y => x.addr ≠ y.addr) {x : JABBER_LIST_ITEM} (hx : x ∈ items)
    : ListItems.remove compareListItems items x = items.filter (·.addr ≠ x.addr) := by
  have hcons : Coherent (x :: items) := by
    apply hcoherent.sub
    intro y hy
    rcases List.mem_cons.1 hy with rfl | hy
    . exact hx
    . exact hy
  have hself : compareListItems x x = 0 := by
    obtain ⟨full, hfull⟩ := hcoherent.compare
    rw [hfull x hx x hx]
    exact (compareBy_preorder full).self x
  unfold ListItems.remove
  cases hindex : ListItems.getIndex (compareListItems · x) items with
  | none =>
    have hnone := (ListItems.getIndex_eq_none_iff (hstrict.ordered hcons)).1 hindex
    exact absurd hself (hnone x hx)
  | some i =>
    obtain ⟨y, hy, hzero⟩ := ListItems.getElem?_of_getIndex hindex
    have heq := eq_of_distinct hstrict.distinct (List.mem_of_getElem? hy) hx hzero
    rw [heq] at hy
    exact eraseIdx_eq_filter hy haddrs

end Search

end Jabber
