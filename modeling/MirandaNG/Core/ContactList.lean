import MirandaNG.Core.SortFunc
import MirandaNG.Data.CStr
import MirandaNG.Transition.Run

/-!
This module contains the list of the contacts that the cache holds, and the search for the contacts of a protocol. A loop
over them finds every one of them once, although contacts come and go while it runs.
-/

namespace ContactList

structure DBCachedContact where
  contactID : UInt32
  szProto : Option CStr
deriving DecidableEq

def DBCachedContact.key (cc : DBCachedContact) : Nat := cc.contactID.toNat

-- `protocol` is what `GetContactSettingStatic` reads from the setting "p" of the module "Protocol", if that is a string.
structure MDatabaseCommon where
  m_lContacts : List DBCachedContact
  protocol : UInt32 → Option CStr

namespace MDatabaseCommon

variable {s t : MDatabaseCommon} {szProto : Option CStr} {contactID : UInt32} {cc : DBCachedContact} {i j : Nat}

section

variable (s : MDatabaseCommon)

-- The list compares by `NumericKeySortT`, which reads the contact's ID at the beginning of the record.
def getIndex (contactID : UInt32) : Option Nat :=
  ListItems.getIndex (KeySort DBCachedContact.key · ⟨contactID, none⟩) s.m_lContacts

def AddContactToCache (contactID : UInt32) : MDatabaseCommon :=
  match s.getIndex contactID with
  | some _ => s
  | none => { s with m_lContacts := ListItems.insert (KeySort DBCachedContact.key) s.m_lContacts ⟨contactID, none⟩ }

def GetCachedContact (contactID : UInt32) : Option DBCachedContact := (s.getIndex contactID).bind (s.m_lContacts[·]?)

def GetFirstContact : Option DBCachedContact := s.m_lContacts[0]?

def GetNextContact (contactID : UInt32) : Option DBCachedContact := (s.getIndex contactID).bind (s.m_lContacts[· + 1]?)

def FreeCachedContact (contactID : UInt32) : MDatabaseCommon :=
  match s.getIndex contactID with
  | some index => { s with m_lContacts := s.m_lContacts.eraseIdx index }
  | none => s

-- The protocol is read from the database once, and then kept in the contact's record.
def CheckProto (cc : DBCachedContact) (proto : CStr) : Bool × MDatabaseCommon :=
  match cc.szProto with
  | some szProto => (decide (CStr.strcmp szProto proto = 0), s)
  | none =>
    match s.protocol cc.contactID with
    | some protobuf =>
      (decide (CStr.strcmp protobuf proto = 0),
        { s with m_lContacts := s.m_lContacts.map fun x => if x = cc then { cc with szProto := some protobuf } else x })
    | none => (false, s)

-- `!szProto || CheckProto(cc, szProto)`
def accepts (szProto : Option CStr) (cc : DBCachedContact) : Bool × MDatabaseCommon :=
  match szProto with
  | some proto => s.CheckProto cc proto
  | none => (true, s)

end

def findNext (szProto : Option CStr) : Nat → MDatabaseCommon → UInt32 → Option (UInt32 × MDatabaseCommon)
  | 0, _, _ => none
  | n + 1, s, contactID =>
    if contactID = 0 then
      some (0, s)
    else
      match s.GetNextContact contactID with
      | none => some (0, s)
      | some cc =>
        if (s.accepts szProto cc).1 then
          some (cc.contactID, (s.accepts szProto cc).2)
        else
          findNext szProto n (s.accepts szProto cc).2 cc.contactID

def FindNextContact (s : MDatabaseCommon) (contactID : UInt32) (szProto : Option CStr) : Option (UInt32 × MDatabaseCommon) :=
  findNext szProto (s.m_lContacts.length + 1) s contactID

def FindFirstContact (s : MDatabaseCommon) (szProto : Option CStr) : Option (UInt32 × MDatabaseCommon) :=
  match s.GetFirstContact with
  | none => some (0, s)
  | some cc =>
    if (s.accepts szProto cc).1 then
      some (cc.contactID, (s.accepts szProto cc).2)
    else
      (s.accepts szProto cc).2.FindNextContact cc.contactID szProto

def ids (s : MDatabaseCommon) : List UInt32 := s.m_lContacts.map (·.contactID)

structure WellFormed (s : MDatabaseCommon) : Prop where
  sorted : s.ids.Pairwise (· < ·)
  nonzero : 0 ∉ s.ids

-- The contact is one that a search for the protocol is to find; without a protocol, every contact of the list is.
def Listed (s : MDatabaseCommon) (szProto : Option CStr) (contactID : UInt32) : Prop :=
  ∃ cc ∈ s.m_lContacts, cc.contactID = contactID ∧
    ∀ proto ∈ szProto, cc.szProto.or (s.protocol contactID) = some proto

theorem Listed.mem (h : s.Listed szProto contactID) : contactID ∈ s.ids := by
  obtain ⟨cc, hcc, rfl, -⟩ := h
  exact List.mem_map_of_mem hcc

structure Alike (s t : MDatabaseCommon) : Prop where
  ids : t.ids = s.ids
  listed : ∀ szProto contactID, t.Listed szProto contactID ↔ s.Listed szProto contactID

theorem Alike.refl (s : MDatabaseCommon) : Alike s s := ⟨rfl, fun _ _ => Iff.rfl⟩

theorem Alike.trans {u : MDatabaseCommon} (h : Alike s t) (h' : Alike t u) : Alike s u :=
  ⟨h'.ids.trans h.ids, fun p c => (h'.listed p c).trans (h.listed p c)⟩

theorem Alike.map {f : DBCachedContact → DBCachedContact} (hid : ∀ x, (f x).contactID = x.contactID)
    (hproto : ∀ x, (f x).szProto.or (s.protocol x.contactID) = x.szProto.or (s.protocol x.contactID))
    : Alike s { s with m_lContacts := s.m_lContacts.map f } := by
  constructor
  . unfold MDatabaseCommon.ids
    rw [List.map_map]
    exact List.map_congr_left fun x _ => hid x
  . intro szProto contactID
    constructor
    . rintro ⟨y, hy, rfl, hlisted⟩
      obtain ⟨x, hx, rfl⟩ := List.mem_map.1 hy
      refine ⟨x, hx, (hid x).symm, fun proto hproto' => ?_⟩
      have := hlisted proto hproto'
      dsimp only at this
      rw [hid, hproto] at this
      rw [hid]
      exact this
    . rintro ⟨x, hx, rfl, hlisted⟩
      refine ⟨f x, List.mem_map_of_mem hx, hid x, fun proto hproto' => ?_⟩
      rw [← hlisted proto hproto']
      exact hproto x

theorem CheckProto_alike (s : MDatabaseCommon) (cc : DBCachedContact) (proto : CStr) : Alike s (s.CheckProto cc proto).2 := by
  unfold CheckProto
  split
  . exact .refl s
  . next hnone =>
    split
    . next protobuf hproto =>
      apply Alike.map
      . intro x
        split
        . next heq => rw [heq]
        . rfl
      . intro x
        split
        . next heq => rw [heq, hnone, hproto]; rfl
        . rfl
    . exact .refl s

theorem accepts_alike (s : MDatabaseCommon) (szProto : Option CStr) (cc : DBCachedContact)
    : Alike s (s.accepts szProto cc).2 := by
  unfold accepts
  split
  . apply CheckProto_alike
  . exact .refl s

theorem strcmp_eq_zero {p q : CStr} : CStr.strcmp p q = 0 ↔ p = q := by
  unfold CStr.strcmp
  split
  . next hlt => exact iff_of_false (by decide) hlt.ne
  . split
    . next heq => exact iff_of_true rfl heq
    . next hne => exact iff_of_false (by decide) hne

theorem accepts_eq_true : (s.accepts szProto cc).1 = true
    ↔ ∀ proto ∈ szProto, cc.szProto.or (s.protocol cc.contactID) = some proto := by
  unfold accepts
  cases szProto with
  | none => exact iff_of_true rfl fun proto h => absurd h (Option.not_mem_none proto)
  | some proto =>
    have hall (p : Option CStr) : (∀ proto' ∈ some proto, p = some proto') ↔ p = some proto := by
      constructor
      . intro h
        exact h proto rfl
      . rintro h proto' ⟨⟩
        exact h
    rw [hall]
    dsimp only
    unfold CheckProto
    cases cc.szProto with
    | some p => exact decide_eq_true_iff.trans (strcmp_eq_zero.trans (Option.some_inj).symm)
    | none =>
      rw [Option.none_or]
      cases s.protocol cc.contactID with
      | some p => exact decide_eq_true_iff.trans (strcmp_eq_zero.trans (Option.some_inj).symm)
      | none => exact iff_of_false Bool.false_ne_true (Option.some_ne_none proto).symm

namespace WellFormed

theorem alike (h : s.WellFormed) (ha : Alike s t) : t.WellFormed := by
  constructor
  . rw [ha.ids]
    exact h.sorted
  . rw [ha.ids]
    exact h.nonzero

theorem keySorted (h : s.WellFormed) : Compare.Sorted (KeySort DBCachedContact.key) s.m_lContacts := by
  have hsorted := List.pairwise_map.1 h.sorted
  apply hsorted.imp
  intro x y hlt
  have := UInt32.lt_iff_toNat_lt.1 hlt
  unfold KeySort DBCachedContact.key
  omega

theorem ordered (h : s.WellFormed) (contactID : UInt32)
    : BinarySearch.Ordered (s.m_lContacts.map (KeySort DBCachedContact.key · ⟨contactID, none⟩)) :=
  (SortedList.KeySort_preorder _).ordered h.keySorted _

theorem keySort_eq_zero : KeySort DBCachedContact.key cc ⟨contactID, none⟩ = 0 ↔ cc.contactID = contactID := by
  rw [← UInt32.toNat_inj]
  unfold KeySort DBCachedContact.key
  dsimp only
  omega

theorem getIndex_eq_none (h : s.WellFormed) : s.getIndex contactID = none ↔ contactID ∉ s.ids := by
  unfold getIndex
  rw [ListItems.getIndex_eq_none_iff (h.ordered contactID)]
  unfold ids
  rw [List.mem_map, not_exists]
  apply forall_congr'
  intro x
  rw [not_and, Ne, keySort_eq_zero]

theorem getElem?_of_getIndex (hi : s.getIndex contactID = some i) : ∃ cc, s.m_lContacts[i]? = some cc ∧ cc.contactID = contactID := by
  obtain ⟨cc, hcc, hzero⟩ := ListItems.getElem?_of_getIndex hi
  exact ⟨cc, hcc, keySort_eq_zero.1 hzero⟩

theorem lt_of_lt (h : s.WellFormed) {a b : DBCachedContact} (ha : s.m_lContacts[i]? = some a) (hb : s.m_lContacts[j]? = some b)
    (hij : i < j)
    : a.contactID < b.contactID := by
  obtain ⟨hi, rfl⟩ := List.getElem?_eq_some_iff.1 ha
  obtain ⟨hj, rfl⟩ := List.getElem?_eq_some_iff.1 hb
  exact List.pairwise_iff_getElem.1 (List.pairwise_map.1 h.sorted) i j hi hj hij

theorem index_eq (h : s.WellFormed) {a b : DBCachedContact} (ha : s.m_lContacts[i]? = some a)
    (hb : s.m_lContacts[j]? = some b) (heq : a.contactID = b.contactID)
    : i = j := by
  rcases Nat.lt_trichotomy i j with hij | hij | hji
  . exact absurd heq (UInt32.ne_of_lt (h.lt_of_lt ha hb hij))
  . exact hij
  . exact absurd heq.symm (UInt32.ne_of_lt (h.lt_of_lt hb ha hji))

theorem index_lt (h : s.WellFormed) {a b : DBCachedContact} (ha : s.m_lContacts[i]? = some a)
    (hb : s.m_lContacts[j]? = some b) (hlt : a.contactID < b.contactID)
    : i < j := by
  rcases Nat.lt_trichotomy i j with hij | rfl | hji
  . exact hij
  . rw [ha] at hb
    cases hb
    exact absurd hlt (UInt32.lt_irrefl _)
  . exact absurd (h.lt_of_lt hb ha hji) (UInt32.lt_asymm hlt)

theorem unique (h : s.WellFormed) {a b : DBCachedContact} (ha : s.m_lContacts[i]? = some a) (hb : b ∈ s.m_lContacts)
    (heq : b.contactID = a.contactID)
    : b = a := by
  obtain ⟨j, hj⟩ := List.mem_iff_getElem?.1 hb
  rw [h.index_eq hj ha heq, ha] at hj
  exact (Option.some.inj hj).symm

theorem getIndex_eq (h : s.WellFormed) (hcc : s.m_lContacts[i]? = some cc) : s.getIndex cc.contactID = some i := by
  cases hindex : s.getIndex cc.contactID with
  | none => exact absurd (List.mem_map_of_mem (List.mem_of_getElem? hcc)) (h.getIndex_eq_none.1 hindex)
  | some j =>
    obtain ⟨x, hx, heq⟩ := getElem?_of_getIndex hindex
    rw [h.index_eq hx hcc heq]

theorem GetNextContact_eq (h : s.WellFormed) (hcc : s.m_lContacts[i]? = some cc)
    : s.GetNextContact cc.contactID = s.m_lContacts[i + 1]? := by
  unfold GetNextContact
  rw [h.getIndex_eq hcc, Option.bind_some]

end WellFormed

-- What a search that begins at `contactID` returns
structure Finds (s : MDatabaseCommon) (szProto : Option CStr) (contactID r : UInt32) (t : MDatabaseCommon) : Prop where
  alike : Alike s t
  listed : r ≠ 0 → contactID < r ∧ s.Listed szProto r
  skipped : contactID ∈ s.ids → ∀ x, contactID < x → r = 0 ∨ x < r → ¬s.Listed szProto x

theorem findNext_spec (n : Nat)
    : ∀ (s : MDatabaseCommon) (i : Nat) (a : DBCachedContact), s.WellFormed → s.m_lContacts[i]? = some a →
        s.m_lContacts.length ≤ i + n →
        ∃ r t, findNext szProto n s a.contactID = some (r, t) ∧ Finds s szProto a.contactID r t := by
  induction n with
  | zero =>
    intro s i a _ ha hlen
    obtain ⟨hi, -⟩ := List.getElem?_eq_some_iff.1 ha
    omega
  | succ n ih =>
    intro s i a h ha hlen
    have hne : a.contactID ≠ 0 := by
      intro hzero
      apply h.nonzero
      rw [← hzero]
      exact List.mem_map_of_mem (List.mem_of_getElem? ha)
    unfold findNext
    rw [if_neg hne, h.GetNextContact_eq ha]
    cases hb : s.m_lContacts[i + 1]? with
    | none =>
      refine ⟨0, s, rfl, .refl s, fun hr => absurd rfl hr, ?_⟩
      rintro _ x hlt _ ⟨cc, hcc, rfl, -⟩
      obtain ⟨j, hj⟩ := List.mem_iff_getElem?.1 hcc
      obtain ⟨hj', -⟩ := List.getElem?_eq_some_iff.1 hj
      have hij := h.index_lt ha hj hlt
      rw [List.getElem?_eq_none_iff] at hb
      omega
    | some b =>
      have hlt := h.lt_of_lt ha hb (Nat.lt_succ_self i)
      -- There is no contact between two neighbours of the list.
      have hbetween : ∀ x, a.contactID < x → s.Listed szProto x → b.contactID ≤ x := by
        rintro x hx ⟨cc, hcc, rfl, -⟩
        obtain ⟨j, hj⟩ := List.mem_iff_getElem?.1 hcc
        by_contra hbx
        have hij := h.index_lt ha hj hx
        have hji := h.index_lt hj hb (UInt32.not_le.1 hbx)
        omega
      have halike := accepts_alike s szProto b
      dsimp only
      split
      . next haccepts =>
        refine ⟨_, _, rfl, halike, ?_, ?_⟩
        . intro _
          exact ⟨hlt, b, List.mem_of_getElem? hb, rfl, accepts_eq_true.1 haccepts⟩
        . intro _ x hx hend hlisted
          rcases hend with hzero | hxb
          . apply h.nonzero
            rw [← hzero]
            exact List.mem_map_of_mem (List.mem_of_getElem? hb)
          . exact absurd hxb (UInt32.not_lt.2 (hbetween x hx hlisted))
      . next haccepts =>
        obtain ⟨b', hb', hid⟩ : ∃ b', (s.accepts szProto b).2.m_lContacts[i + 1]? = some b' ∧ b'.contactID = b.contactID := by
          have hids : (s.accepts szProto b).2.ids[i + 1]? = some b.contactID := by
            rw [halike.ids]
            unfold ids
            rw [List.getElem?_map, hb]
            rfl
          unfold ids at hids
          rwa [List.getElem?_map, Option.map_eq_some_iff] at hids
        have hlength : (s.accepts szProto b).2.m_lContacts.length = s.m_lContacts.length := by
          have := congrArg List.length halike.ids
          unfold ids at this
          rwa [List.length_map, List.length_map] at this
        obtain ⟨r, t, hfind, hfinds⟩ := ih _ (i + 1) b' (h.alike halike) hb' (by omega)
        rw [hid] at hfind hfinds
        refine ⟨r, t, hfind, halike.trans hfinds.alike, ?_, ?_⟩
        . intro hr
          obtain ⟨hbr, hlisted⟩ := hfinds.listed hr
          exact ⟨UInt32.lt_trans hlt hbr, (halike.listed _ _).1 hlisted⟩
        . intro _ x hx hend hlisted
          rcases UInt32.lt_or_eq_of_le (hbetween x hx hlisted) with hbx | rfl
          . apply hfinds.skipped _ x hbx hend ((halike.listed _ _).2 hlisted)
            rw [halike.ids]
            exact List.mem_map_of_mem (List.mem_of_getElem? hb)
          . obtain ⟨cc, hcc, heq, hproto⟩ := hlisted
            rw [h.unique hb hcc heq] at hproto
            exact haccepts (accepts_eq_true.2 hproto)

theorem FindNextContact_spec (h : s.WellFormed) (szProto : Option CStr) (contactID : UInt32)
    : ∃ r t, s.FindNextContact contactID szProto = some (r, t) ∧ Finds s szProto contactID r t := by
  unfold FindNextContact
  by_cases hmem : contactID ∈ s.ids
  . obtain ⟨a, ha, rfl⟩ := List.mem_map.1 hmem
    obtain ⟨i, hi⟩ := List.mem_iff_getElem?.1 ha
    exact findNext_spec _ s i a h hi (by omega)
  . refine ⟨0, s, ?_, .refl s, fun hr => absurd rfl hr, fun hmem' => absurd hmem' hmem⟩
    unfold findNext
    split
    . rfl
    . have hnone : s.GetNextContact contactID = none := by
        unfold GetNextContact
        rw [h.getIndex_eq_none.2 hmem]
        rfl
      rw [hnone]

theorem FindFirstContact_spec (h : s.WellFormed) (szProto : Option CStr)
    : ∃ r t, s.FindFirstContact szProto = some (r, t) ∧ Alike s t ∧ (r ≠ 0 → s.Listed szProto r) ∧
        ∀ x, r = 0 ∨ x < r → ¬s.Listed szProto x := by
  unfold FindFirstContact GetFirstContact
  cases ha : s.m_lContacts[0]? with
  | none =>
    refine ⟨0, s, rfl, .refl s, fun hr => absurd rfl hr, ?_⟩
    rintro x - ⟨cc, hcc, -⟩
    rw [List.getElem?_eq_none_iff, Nat.le_zero, List.length_eq_zero_iff] at ha
    rw [ha] at hcc
    exact List.not_mem_nil hcc
  | some a =>
    have hmem := List.mem_map_of_mem (f := DBCachedContact.contactID) (List.mem_of_getElem? ha)
    have hfirst : ∀ x, s.Listed szProto x → a.contactID ≤ x := by
      rintro x ⟨cc, hcc, rfl, -⟩
      obtain ⟨j, hj⟩ := List.mem_iff_getElem?.1 hcc
      by_contra hlt
      have := h.index_lt hj ha (UInt32.not_le.1 hlt)
      omega
    have halike := accepts_alike s szProto a
    dsimp only
    split
    . next haccepts =>
      refine ⟨_, _, rfl, halike, fun _ => ⟨a, List.mem_of_getElem? ha, rfl, accepts_eq_true.1 haccepts⟩, ?_⟩
      rintro x (hzero | hlt) hlisted
      . apply h.nonzero
        rw [← hzero]
        exact hmem
      . exact absurd hlt (UInt32.not_lt.2 (hfirst x hlisted))
    . next haccepts =>
      obtain ⟨r, t, hfind, hfinds⟩ := FindNextContact_spec (h.alike halike) szProto a.contactID
      refine ⟨r, t, hfind, halike.trans hfinds.alike, fun hr => (halike.listed _ _).1 (hfinds.listed hr).2, ?_⟩
      intro x hend hlisted
      rcases UInt32.lt_or_eq_of_le (hfirst x hlisted) with hlt | rfl
      . apply hfinds.skipped _ x hlt hend ((halike.listed _ _).2 hlisted)
        rw [halike.ids]
        exact hmem
      . obtain ⟨cc, hcc, heq, hproto⟩ := hlisted
        rw [h.unique ha hcc heq] at hproto
        exact haccepts (accepts_eq_true.2 hproto)

inductive Call where
  | AddContactToCache (contactID : UInt32)
  | FreeCachedContact (contactID : UInt32)
  | CheckProto (contactID : UInt32) (proto : CStr)
  -- The setting of the protocol is written to the database; what the cache holds stays.
  | WriteProtocol (contactID : UInt32) (proto : Option CStr)
deriving DecidableEq

def step (s : MDatabaseCommon) : Call → MDatabaseCommon
  | .AddContactToCache contactID => s.AddContactToCache contactID
  | .FreeCachedContact contactID => s.FreeCachedContact contactID
  | .CheckProto contactID proto =>
    match s.GetCachedContact contactID with
    | some cc => (s.CheckProto cc proto).2
    | none => s
  | .WriteProtocol contactID proto => { s with protocol := Function.update s.protocol contactID proto }

-- 0 is not the ID of a contact.
def Call.Valid : Call → Prop
  | .AddContactToCache contactID => contactID ≠ 0
  | _ => True

def Call.Spares (contactID : UInt32) : Call → Prop
  | .AddContactToCache c | .FreeCachedContact c | .WriteProtocol c _ => c ≠ contactID
  | .CheckProto _ _ => True

theorem perm_of_FreeCachedContact (hi : s.getIndex contactID = some i)
    : ∃ cc, cc.contactID = contactID ∧ (cc :: s.m_lContacts.eraseIdx i).Perm s.m_lContacts := by
  obtain ⟨cc, hcc, hid⟩ := WellFormed.getElem?_of_getIndex hi
  obtain ⟨hlt, rfl⟩ := List.getElem?_eq_some_iff.1 hcc
  exact ⟨_, hid, List.getElem_cons_eraseIdx_perm hlt⟩

theorem WellFormed.step (h : s.WellFormed) {call : Call} (hvalid : call.Valid) : (s.step call).WellFormed := by
  unfold MDatabaseCommon.step
  cases call with
  | AddContactToCache contactID =>
    dsimp only
    unfold AddContactToCache
    split
    . exact h
    . next hnone =>
      have hperm := ListItems.insert_perm (KeySort DBCachedContact.key) s.m_lContacts ⟨contactID, none⟩
      have hsorted := ListItems.sorted_insert (SortedList.KeySort_preorder DBCachedContact.key) h.keySorted ⟨contactID, none⟩
      have hids := hperm.map DBCachedContact.contactID
      rw [List.map_cons] at hids
      have hnodup : (contactID :: s.ids).Nodup :=
        List.nodup_cons.2 ⟨h.getIndex_eq_none.1 hnone, h.sorted.imp fun hlt => UInt32.ne_of_lt hlt⟩
      constructor
      . have hdistinct := List.pairwise_map.1 (hids.nodup_iff.2 hnodup)
        refine List.pairwise_map.2 ((List.Pairwise.and hsorted hdistinct).imp ?_)
        rintro x y ⟨hle, hne⟩
        rw [Ne, ← UInt32.toNat_inj] at hne
        rw [UInt32.lt_iff_toNat_lt]
        unfold KeySort DBCachedContact.key at hle
        omega
      . intro hzero
        rcases List.mem_cons.1 (hids.mem_iff.1 hzero) with hzero | hzero
        . exact hvalid hzero.symm
        . exact h.nonzero hzero
  | FreeCachedContact contactID =>
    dsimp only
    unfold FreeCachedContact
    split
    . next index _ =>
      have hsub := (List.eraseIdx_sublist s.m_lContacts index).map DBCachedContact.contactID
      exact ⟨h.sorted.sublist hsub, fun hzero => h.nonzero (hsub.subset hzero)⟩
    . exact h
  | CheckProto contactID proto =>
    dsimp only
    split
    . exact h.alike (CheckProto_alike s _ proto)
    . exact h
  | WriteProtocol contactID proto => exact ⟨h.sorted, h.nonzero⟩

theorem Listed.step {call : Call} (hspares : call.Spares contactID)
    : (s.step call).Listed szProto contactID ↔ s.Listed szProto contactID := by
  unfold MDatabaseCommon.step
  cases call with
  | AddContactToCache c =>
    dsimp only
    unfold AddContactToCache
    split
    . rfl
    . have hperm := ListItems.insert_perm (KeySort DBCachedContact.key) s.m_lContacts ⟨c, none⟩
      constructor
      . rintro ⟨cc, hcc, hid, hproto⟩
        rcases List.mem_cons.1 (hperm.mem_iff.1 hcc) with rfl | hcc
        . exact absurd hid hspares
        . exact ⟨cc, hcc, hid, hproto⟩
      . rintro ⟨cc, hcc, hid, hproto⟩
        exact ⟨cc, hperm.mem_iff.2 (List.mem_cons_of_mem _ hcc), hid, hproto⟩
  | FreeCachedContact c =>
    dsimp only
    unfold FreeCachedContact
    split
    . next hi =>
      obtain ⟨freed, hfreed, hperm⟩ := perm_of_FreeCachedContact hi
      constructor
      . rintro ⟨cc, hcc, hid, hproto⟩
        exact ⟨cc, hperm.mem_iff.1 (List.mem_cons_of_mem _ hcc), hid, hproto⟩
      . rintro ⟨cc, hcc, hid, hproto⟩
        rcases List.mem_cons.1 (hperm.mem_iff.2 hcc) with rfl | hcc
        . exact absurd (hfreed.symm.trans hid) hspares
        . exact ⟨cc, hcc, hid, hproto⟩
    . rfl
  | CheckProto c proto =>
    dsimp only
    split
    . exact (CheckProto_alike s _ proto).listed _ _
    . rfl
  | WriteProtocol c proto =>
    unfold Listed
    dsimp only
    rw [Function.update_of_ne (Ne.symm hspares)]

theorem mem_ids_step {call : Call} (hfree : call ≠ .FreeCachedContact contactID) (hmem : contactID ∈ s.ids)
    : contactID ∈ (s.step call).ids := by
  unfold MDatabaseCommon.step
  cases call with
  | AddContactToCache c =>
    dsimp only
    unfold AddContactToCache
    split
    . exact hmem
    . have hperm := ListItems.insert_perm (KeySort DBCachedContact.key) s.m_lContacts ⟨c, none⟩
      exact ((hperm.map DBCachedContact.contactID).mem_iff).2 (List.mem_cons_of_mem _ hmem)
  | FreeCachedContact c =>
    dsimp only
    unfold FreeCachedContact
    split
    . next hi =>
      obtain ⟨freed, rfl, hperm⟩ := perm_of_FreeCachedContact hi
      rcases List.mem_cons.1 ((hperm.map DBCachedContact.contactID).mem_iff.2 hmem) with rfl | hmem
      . exact absurd rfl hfree
      . exact hmem
    . exact hmem
  | CheckProto c proto =>
    dsimp only
    split
    . rwa [(CheckProto_alike s _ proto).ids]
    . exact hmem
  | WriteProtocol c proto => exact hmem

theorem WellFormed.steps {calls : List Call} (h : s.WellFormed) (hvalid : ∀ call ∈ calls, call.Valid)
    : (calls.foldl MDatabaseCommon.step s).WellFormed := by
  induction calls generalizing s with
  | nil => exact h
  | cons call calls ih =>
    obtain ⟨hcall, hcalls⟩ := List.forall_mem_cons.1 hvalid
    exact ih (h.step hcall) hcalls

theorem Listed.steps {calls : List Call} (hspares : ∀ call ∈ calls, call.Spares contactID)
    : (calls.foldl MDatabaseCommon.step s).Listed szProto contactID ↔ s.Listed szProto contactID := by
  induction calls generalizing s with
  | nil => rfl
  | cons call calls ih =>
    obtain ⟨hcall, hcalls⟩ := List.forall_mem_cons.1 hspares
    exact (ih hcalls).trans (Listed.step hcall)

theorem mem_ids_steps {calls : List Call} (hfree : .FreeCachedContact contactID ∉ calls) (hmem : contactID ∈ s.ids)
    : contactID ∈ (calls.foldl MDatabaseCommon.step s).ids := by
  induction calls generalizing s with
  | nil => exact hmem
  | cons call calls ih =>
    rw [List.mem_cons, not_or] at hfree
    exact ih hfree.2 (mem_ids_step (Ne.symm hfree.1) hmem)

-- The loop over the contacts of a protocol: `bodies` are the calls that are made at one contact before the next one is
-- looked for. It returns the contacts it came by, and where it stands.
def walk (szProto : Option CStr) : List (List Call) → MDatabaseCommon → UInt32 → Option (List UInt32 × UInt32)
  | [], _, hContact => some ([], hContact)
  | calls :: bodies, s, hContact =>
    if hContact = 0 then
      some ([], 0)
    else do
      let (next, t) ← (calls.foldl step s).FindNextContact hContact szProto
      let (visited, last) ← walk szProto bodies t next
      some (hContact :: visited, last)

structure Visits (s : MDatabaseCommon) (szProto : Option CStr) (bodies : List (List Call)) (hContact : UInt32)
    (visited : List UInt32) (last : UInt32) : Prop where
  sorted : visited.Pairwise (· < ·)
  least : ∀ c ∈ visited, hContact ≤ c
  ended : 2 ^ 32 ≤ bodies.length + hContact.toNat → last = 0
  visits : last = 0 → (∀ e ∈ visited.zip bodies, .FreeCachedContact e.1 ∉ e.2) →
    ∀ c, (∀ calls ∈ bodies, ∀ call ∈ calls, call.Spares c) →
      (c ∈ visited ↔ hContact ≠ 0 ∧ hContact ≤ c ∧ s.Listed szProto c)

theorem Visits.zero (s : MDatabaseCommon) (szProto : Option CStr) (bodies : List (List Call)) : Visits s szProto bodies 0 [] 0 :=
  ⟨.nil, List.forall_mem_nil _, fun _ => rfl, fun _ _ _ _ => iff_of_false List.not_mem_nil fun h => h.1 rfl⟩

theorem walk_zero (szProto : Option CStr) (bodies : List (List Call)) (s : MDatabaseCommon)
    : walk szProto bodies s 0 = some ([], 0) := by
  cases bodies with
  | nil => rfl
  | cons calls bodies => rfl

theorem walk_spec (bodies : List (List Call)) {hContact : UInt32} (h : s.WellFormed)
    (hlisted : hContact ≠ 0 → s.Listed szProto hContact) (hvalid : ∀ calls ∈ bodies, ∀ call ∈ calls, call.Valid)
    : ∃ visited last, walk szProto bodies s hContact = some (visited, last) ∧
        Visits s szProto bodies hContact visited last := by
  induction bodies generalizing s hContact with
  | nil =>
    refine ⟨[], hContact, rfl, .nil, List.forall_mem_nil _, ?_, ?_⟩
    . intro hle
      have := hContact.toNat_lt
      rw [List.length_nil] at hle
      omega
    . intro hzero _ c _
      exact iff_of_false List.not_mem_nil fun hall => hall.1 hzero
  | cons calls bodies ih =>
    by_cases hzero : hContact = 0
    . rw [hzero]
      exact ⟨[], 0, rfl, .zero s szProto _⟩
    . obtain ⟨hcalls, hbodies⟩ := List.forall_mem_cons.1 hvalid
      have hwf := h.steps hcalls
      obtain ⟨next, t, hfind, hfinds⟩ := FindNextContact_spec hwf szProto hContact
      obtain ⟨visited, last, hwalk, hvisits⟩ :=
        ih (hwf.alike hfinds.alike) (fun hne => (hfinds.alike.listed _ _).2 (hfinds.listed hne).2) hbodies
      have hwalk' : walk szProto (calls :: bodies) s hContact = some (hContact :: visited, last) := by
        unfold walk
        rw [if_neg hzero, hfind]
        simp only [Option.bind_eq_bind, Option.bind_some, hwalk]
      refine ⟨hContact :: visited, last, hwalk', ?_⟩
      by_cases hnext : next = 0
      . -- The walk has ended.
        rw [hnext, walk_zero] at hwalk
        cases hwalk
        refine ⟨List.pairwise_singleton _ _, ?_, fun _ => rfl, ?_⟩
        . intro c hc
          rw [List.mem_singleton.1 hc]
          exact UInt32.le_refl _
        . intro _ hfree c hspares
          obtain ⟨hspare, -⟩ := List.forall_mem_cons.1 hspares
          rw [List.mem_singleton]
          constructor
          . rintro rfl
            exact ⟨hzero, UInt32.le_refl _, hlisted hzero⟩
          . rintro ⟨-, hle, hc⟩
            rcases UInt32.lt_or_eq_of_le hle with hlt | rfl
            . have hmem := mem_ids_steps (hfree (hContact, calls) List.mem_cons_self) (hlisted hzero).mem
              exact absurd ((Listed.steps hspare).2 hc) (hfinds.skipped hmem c hlt (.inl hnext))
            . rfl
      . obtain ⟨hlt, -⟩ := hfinds.listed hnext
        have habove : ∀ c ∈ visited, hContact < c := fun c hc => UInt32.lt_of_lt_of_le hlt (hvisits.least c hc)
        refine ⟨List.pairwise_cons.2 ⟨habove, hvisits.sorted⟩, ?_, ?_, ?_⟩
        . intro c hc
          rcases List.mem_cons.1 hc with rfl | hc
          . exact UInt32.le_refl _
          . exact UInt32.le_of_lt (habove c hc)
        . intro hle
          apply hvisits.ended
          have := UInt32.lt_iff_toNat_lt.1 hlt
          rw [List.length_cons] at hle
          omega
        . intro hlast hfree c hspares
          obtain ⟨hspare, hspares⟩ := List.forall_mem_cons.1 hspares
          rw [List.zip_cons_cons] at hfree
          obtain ⟨hfree, hfrees⟩ := List.forall_mem_cons.1 hfree
          have hrest := hvisits.visits hlast hfrees c hspares
          rw [hfinds.alike.listed, Listed.steps hspare] at hrest
          rw [List.mem_cons, hrest]
          constructor
          . rintro (rfl | ⟨-, hle, hc⟩)
            . exact ⟨hzero, UInt32.le_refl _, hlisted hzero⟩
            . exact ⟨hzero, UInt32.le_trans (UInt32.le_of_lt hlt) hle, hc⟩
          . rintro ⟨-, hle, hc⟩
            rcases UInt32.lt_or_eq_of_le hle with hgt | rfl
            . right
              refine ⟨hnext, UInt32.not_lt.1 ?_, hc⟩
              intro hbefore
              have hmem := mem_ids_steps hfree (hlisted hzero).mem
              exact hfinds.skipped hmem c hgt (.inr hbefore) ((Listed.steps hspare).2 hc)
            . exact .inl rfl

theorem visits_of_run {protocol : UInt32 → Option CStr} (hrun : Transition.Run step (fun _ call => call.Valid) ⟨[], protocol⟩ s)
    (szProto : Option CStr) (bodies : List (List Call)) (hvalid : ∀ calls ∈ bodies, ∀ call ∈ calls, call.Valid)
    : ∃ hContact t visited last, s.FindFirstContact szProto = some (hContact, t) ∧
        walk szProto bodies t hContact = some (visited, last) ∧ visited.Pairwise (· < ·) ∧
        (2 ^ 32 ≤ bodies.length → last = 0) ∧
        (last = 0 → (∀ e ∈ visited.zip bodies, .FreeCachedContact e.1 ∉ e.2) →
          ∀ c, (∀ calls ∈ bodies, ∀ call ∈ calls, call.Spares c) → (c ∈ visited ↔ s.Listed szProto c)) := by
  have h : s.WellFormed := hrun.inv (fun _ _ h hvalid => h.step hvalid) ⟨.nil, List.not_mem_nil⟩
  obtain ⟨hContact, t, hfirst, halike, hlisted, hskipped⟩ := FindFirstContact_spec h szProto
  obtain ⟨visited, last, hwalk, hvisits⟩ :=
    walk_spec bodies (h.alike halike) (fun hne => (halike.listed _ _).2 (hlisted hne)) hvalid
  refine ⟨hContact, t, visited, last, hfirst, hwalk, hvisits.sorted, fun hle => hvisits.ended (by omega), ?_⟩
  intro hlast hfree c hspares
  rw [hvisits.visits hlast hfree c hspares, halike.listed]
  constructor
  . intro hall
    exact hall.2.2
  . intro hc
    refine ⟨fun hzero => hskipped c (.inl hzero) hc, UInt32.not_lt.1 fun hlt => hskipped c (.inr hlt) hc, hc⟩

def jabber : CStr := ⟨[74, 65, 66, 66, 69, 82], by decide⟩

def ofJabber (contactID : UInt32) : Option CStr := if contactID = 2 then some jabber else none

def twoContacts : MDatabaseCommon := (AddContactToCache ⟨[], ofJabber⟩ 2).AddContactToCache 1

-- Contact 2 is found behind contact 1, while contact 3 is added.
theorem visits_of_run_jabber
    : ∃ hContact t visited last,
        twoContacts.FindFirstContact (some jabber) = some (hContact, t) ∧
        walk (some jabber) [[.AddContactToCache 3], []] t hContact = some (visited, last) ∧ visited.Pairwise (· < ·) ∧
        2 ∈ visited ∧ 3 ∉ visited := by
  have hrun : Transition.Run step (fun _ call => call.Valid) ⟨[], ofJabber⟩ twoContacts :=
    .call (.call .init (Call.AddContactToCache 2) (by decide : (2 : UInt32) ≠ 0)) (Call.AddContactToCache 1)
      (by decide : (1 : UInt32) ≠ 0)
  have hvalid : ∀ calls ∈ [[Call.AddContactToCache 3], []], ∀ call ∈ calls, call.Valid := by
    simp [Call.Valid]
  obtain ⟨hContact, t, visited, last, hfirst, hwalk, hsorted, -, hvisits⟩ :=
    visits_of_run hrun (some jabber) [[.AddContactToCache 3], []] hvalid
  have hfirst' : twoContacts.FindFirstContact (some jabber) =
      some (2, ⟨[⟨1, none⟩, ⟨2, some jabber⟩], ofJabber⟩) := rfl
  refine ⟨hContact, t, visited, last, hfirst, hwalk, hsorted, ?_⟩
  rw [hfirst'] at hfirst
  cases hfirst
  have hwalk' : walk (some jabber) [[.AddContactToCache 3], []] ⟨[⟨1, none⟩, ⟨2, some jabber⟩], ofJabber⟩ 2 = some ([2], 0) := rfl
  rw [hwalk'] at hwalk
  cases hwalk
  have htwo := hvisits rfl (by simp) 2 (by simp [Call.Spares])
  refine ⟨htwo.2 ⟨⟨2, none⟩, ?_, rfl, ?_⟩, by decide⟩
  . decide
  . decide

end MDatabaseCommon

end ContactList
