import MirandaNG.Dbx.WellFormed
import MirandaNG.Order.CachedLeast

/-!
This module contains the first unread event of a contact: in which runs the pair `evFirstUnread`,
`tsFirstUnread` names the least sorting key of the contact whose event is neither read nor sent.
-/

namespace Dbx

open Kv

def DBContact.firstUnread (dbc : DBContact) (c : MCONTACT) : DBEventSortingKey where
  hContact := c
  hEvent := dbc.evFirstUnread
  ts := dbc.tsFirstUnread

namespace Store

def IsUnread (s : Store) (e : MEVENT) : Prop :=
  ∃ data, s.m_dbEvents.get? e = some data ∧ data.dbe.markedRead = false

def Unread (s : Store) (c : MCONTACT) : Set DBEventSortingKey :=
  { k | k ∈ s.m_dbEventsSort ∧ k.hContact = c ∧ s.IsUnread k.hEvent }

def first? (s : Store) (c : MCONTACT) : Option DBEventSortingKey :=
  (s.dbc? c).map (·.firstUnread c)

def savedFirst? (s : Store) (c : MCONTACT) : Option DBEventSortingKey :=
  (s.saved? c).map (·.firstUnread c)

structure PairInv (s : Store) : Prop extends WellFormed s where
  first : ∀ c m, s.first? c = some m → CachedLeast ⟨c, 0, 0⟩ (s.Unread c) m
  saved : ∀ c, s.savedFirst? c = s.first? c

variable {s s' : Store} {env : Env} {c c' : MCONTACT} {e : MEVENT} {dbe : DBEvent}
variable {data : EventRecord} {k m : DBEventSortingKey} {f : DBContact → DBContact}

theorem first?_hContact (h : s.first? c = some m) : m.hContact = c := by
  rcases Option.map_eq_some_iff.1 h with ⟨dbc, _, rfl⟩
  rfl

/--
When the keys `gone` stop being unread, the pairs are right again if they were: a pair that is reset
has no unread key left, and a pair that is kept does not name one of the keys that go.
-/
def GoneSafe (s : Store) (reset : MCONTACT → DBEventSortingKey → Prop)
    (gone : Set DBEventSortingKey) : Prop :=
  ∀ c m, s.first? c = some m →
    (reset c m → s.Unread c ⊆ gone) ∧
    (¬ reset c m → ∀ u ∈ s.Unread c, u ∈ gone → ∃ u' ∈ s.Unread c, u' ∉ gone ∧ u' ≤ u)

theorem PairInv.first_of_gone (h : PairInv s) {reset : MCONTACT → DBEventSortingKey → Prop}
    {gone : Set DBEventSortingKey}
    (hunread : ∀ c, (s'.first? c).isSome → s'.Unread c = s.Unread c \ gone)
    (hfirst : ∀ c m', s'.first? c = some m' → ∃ m, s.first? c = some m ∧
      (reset c m ∧ m' = ⟨c, 0, 0⟩ ∨ ¬ reset c m ∧ m' = m))
    (hsafe : s.GoneSafe reset gone)
    : ∀ c m, s'.first? c = some m → CachedLeast ⟨c, 0, 0⟩ (s'.Unread c) m := by
  intro c m' hm'
  rw [hunread c (by simp [hm'])]
  rcases hfirst c m' hm' with ⟨m, hm, hcase⟩
  rcases hsafe c m hm with ⟨hreset, hkeep⟩
  rcases hcase with ⟨hr, rfl⟩ | ⟨hr, rfl⟩
  . rw [Set.sdiff_eq_empty.2 (hreset hr)]
    exact .empty _
  . apply (h.first c m' hm).subset Set.sdiff_subset
    intro u hu hgone
    have hgone : u ∈ gone := by
      by_contra hnot
      exact hgone ⟨hu, hnot⟩
    rcases hkeep hr u hu hgone with ⟨u', hu', hnot, hle⟩
    exact ⟨u', ⟨hu', hnot⟩, hle⟩

def advance (k : DBEventSortingKey) (marked : Bool) (m : DBEventSortingKey)
    : DBEventSortingKey :=
  if marked then
    m
  else if k.ts < m.ts ∨ m.ts = 0 then
    k
  else
    m

theorem firstUnread_Advance (dbc : DBContact)
    : (dbc.Advance e dbe).firstUnread c =
        advance ⟨c, e, dbe.timestamp⟩ dbe.markedRead (dbc.firstUnread c) := by
  unfold DBContact.Advance advance DBContact.firstUnread
  dsimp only
  split
  . rfl
  . split <;> rfl

theorem advance_advance (k : DBEventSortingKey) (marked : Bool) (m : DBEventSortingKey)
    : advance k marked (advance k marked m) = advance k marked m := by
  unfold advance
  split
  . rfl
  . split
    . split <;> rfl
    . rfl

theorem first?_fileEvent
    : (s.fileEvent c e dbe).first? c' =
        if c' = c then
          (s.first? c).map (advance ⟨c, e, dbe.timestamp⟩ dbe.markedRead)
        else
          s.first? c' := by
  unfold first?
  rw [dbc?_fileEvent]
  split
  . next heq =>
    rw [heq, Option.map_map, Option.map_map]
    congr 1
    funext dbc
    apply firstUnread_Advance
  . rfl

theorem saved_fileEvent (hc : (s.dbc? c).isSome) (hsaved : ∀ c, s.savedFirst? c = s.first? c)
    : ∀ c', (s.fileEvent c e dbe).savedFirst? c' = (s.fileEvent c e dbe).first? c' := by
  intro c'
  unfold first? savedFirst?
  rw [saved?_fileEvent hc, dbc?_fileEvent]
  split
  . rfl
  . exact hsaved c'

def Target (cc : MCONTACT) (ccSub : Option MCONTACT) (c : MCONTACT) : Prop :=
  c = cc ∨ ccSub = some c

instance (cc : MCONTACT) (ccSub : Option MCONTACT) (c : MCONTACT)
    : Decidable (Target cc ccSub c) :=
  inferInstanceAs (Decidable (c = cc ∨ ccSub = some c))

variable {cc : MCONTACT} {ccSub : Option MCONTACT} {szId : Option CStr}

theorem writeEvent_m_dbEventsSort
    : (s.writeEvent cc ccSub e data szId).m_dbEventsSort =
        match ccSub with
        | none => s.m_dbEventsSort.put ⟨cc, e, data.dbe.timestamp⟩ [0]
        | some c => (s.m_dbEventsSort.put ⟨cc, e, data.dbe.timestamp⟩ [0]).put
            ⟨c, e, data.dbe.timestamp⟩ [0] := by
  unfold writeEvent fileSub fileId
  cases ccSub <;> cases szId <;> simp [putId]

theorem mem_writeEvent_m_dbEventsSort
    : k ∈ (s.writeEvent cc ccSub e data szId).m_dbEventsSort ↔
        k ∈ s.m_dbEventsSort ∨
        k = ⟨k.hContact, e, data.dbe.timestamp⟩ ∧ Target cc ccSub k.hContact := by
  rcases k with ⟨c, e', ts⟩
  rw [writeEvent_m_dbEventsSort]
  unfold Target
  cases ccSub with
  | none =>
    simp only [Table.mem_put, DBEventSortingKey.mk.injEq]
    tauto
  | some c' =>
    simp only [Table.mem_put, DBEventSortingKey.mk.injEq, Option.some.injEq]
    constructor
    . rintro (⟨rfl, rfl, rfl⟩ | ⟨rfl, rfl, rfl⟩ | h)
      . simp
      . simp
      . exact .inl h
    . rintro (h | ⟨⟨-, rfl, rfl⟩, rfl | rfl⟩)
      . exact .inr (.inr h)
      . simp
      . simp

theorem first?_fileId (iModuleId : Nat)
    : (s.fileId iModuleId szId e).first? c = s.first? c := by
  cases szId <;> rfl

theorem first?_writeEvent
    : (s.writeEvent cc ccSub e data szId).first? c =
        if Target cc ccSub c then
          (s.first? c).map (advance ⟨c, e, data.dbe.timestamp⟩ data.dbe.markedRead)
        else
          s.first? c := by
  unfold writeEvent
  dsimp only
  rw [first?_fileId]
  have hput : (s.putEvent e data).first? = s.first? := rfl
  unfold fileSub Target
  cases ccSub with
  | none =>
    rw [first?_fileEvent, hput]
    by_cases heq : c = cc
    . simp [heq]
    . simp [heq]
  | some c' =>
    rw [first?_fileEvent, first?_fileEvent, first?_fileEvent, hput]
    by_cases heq' : c = c'
    . subst heq'
      by_cases heq : c = cc
      . subst heq
        simp only [↓reduceIte, or_self, Option.map_map]
        congr 1
        funext m
        apply advance_advance
      . simp [heq]
    . by_cases heq : c = cc
      . subst heq
        simp [heq']
      . simp [heq', heq, Ne.symm heq']

theorem writeEvent_saved (hcc : (s.dbc? cc).isSome) (hsub : ∀ c ∈ ccSub, (s.dbc? c).isSome)
    (hsaved : ∀ c, s.savedFirst? c = s.first? c)
    : ∀ c, (s.writeEvent cc ccSub e data szId).savedFirst? c =
        (s.writeEvent cc ccSub e data szId).first? c := by
  have hput : ∀ c, (s.putEvent e data).savedFirst? c = (s.putEvent e data).first? c := hsaved
  have hfile : ∀ c, ((s.putEvent e data).fileEvent cc e data.dbe).savedFirst? c =
      ((s.putEvent e data).fileEvent cc e data.dbe).first? c := saved_fileEvent hcc hput
  have hboth : ∀ c, (((s.putEvent e data).fileEvent cc e data.dbe).fileSub ccSub e
      data.dbe).savedFirst? c = (((s.putEvent e data).fileEvent cc e data.dbe).fileSub ccSub e
      data.dbe).first? c := by
    cases ccSub with
    | none => exact hfile
    | some c' =>
      refine saved_fileEvent ?_ hfile
      rw [dbc?_fileEvent]
      split
      . simpa using hcc
      . exact hsub c' rfl
  cases szId <;> exact hboth

theorem isUnread_putEvent {e' : MEVENT}
    : (s.putEvent e data).IsUnread e' ↔
        if e' = e then data.dbe.markedRead = false else s.IsUnread e' := by
  unfold IsUnread
  rw [putEvent_m_dbEvents, Table.get?_put]
  split
  . simp
  . rfl

theorem mem_unread_writeEvent
    : k ∈ (s.writeEvent cc ccSub e data szId).Unread c ↔
        k.hContact = c ∧
        (k ∈ s.m_dbEventsSort ∨ k = ⟨c, e, data.dbe.timestamp⟩ ∧ Target cc ccSub c) ∧
        (if k.hEvent = e then data.dbe.markedRead = false else s.IsUnread k.hEvent) := by
  have hunread : (s.writeEvent cc ccSub e data szId).IsUnread k.hEvent ↔
      (s.putEvent e data).IsUnread k.hEvent := by
    unfold IsUnread
    rw [writeEvent_m_dbEvents, putEvent_m_dbEvents]
  show _ ∧ _ ∧ _ ↔ _
  rw [hunread, isUnread_putEvent, mem_writeEvent_m_dbEventsSort]
  constructor
  . rintro ⟨hmem, rfl, hread⟩
    exact ⟨rfl, hmem, hread⟩
  . rintro ⟨rfl, hmem, hread⟩
    exact ⟨hmem, rfl, hread⟩

/--
`Advance` picks the right pair for a new unread key: a pair with timestamp 0 is replaced, so no
unread key may be below the new one then, and a pair with the timestamp of the new key is kept.
-/
def AdvanceSafe (s : Store) (k : DBEventSortingKey) : Prop :=
  ∀ m, s.first? k.hContact = some m →
    (m.ts = 0 → ∀ u ∈ s.Unread k.hContact, k ≤ u) ∧
    (m.ts = k.ts → m.ts ≠ 0 → m.hEvent ≤ k.hEvent)

/--
Writing event `e` leaves the pairs right. A read event must not be the one a pair names. Of an unread
event every key that is there already must have an unread key, or the new key of its contact, at or
below it.
-/
def WriteSafe (s : Store) (cc : MCONTACT) (ccSub : Option MCONTACT) (e : MEVENT) (ts : Nat)
    (marked : Bool) : Prop :=
  (marked = true → s.GoneSafe (fun _ _ => False) { u | u.hEvent = e }) ∧
  (marked = false →
    (∀ c, Target cc ccSub c → s.AdvanceSafe ⟨c, e, ts⟩) ∧
    ∀ k ∈ s.m_dbEventsSort, k.hEvent = e →
      Target cc ccSub k.hContact ∧ ts ≤ k.ts ∨ ∃ u ∈ s.Unread k.hContact, u ≤ k)

theorem unread_writeEvent_of_marked (hmarked : data.dbe.markedRead = true)
    : (s.writeEvent cc ccSub e data szId).Unread c = s.Unread c \ { u | u.hEvent = e } := by
  ext k
  rw [mem_unread_writeEvent, hmarked]
  simp only [Set.mem_sdiff, Unread, Set.mem_ofPred_eq]
  constructor
  . rintro ⟨hc, hmem, hread⟩
    split at hread
    . cases hread
    . next hne =>
      refine ⟨⟨?_, hc, hread⟩, hne⟩
      rcases hmem with hmem | ⟨heq, _⟩
      . exact hmem
      . exact absurd (congrArg DBEventSortingKey.hEvent heq) hne
  . rintro ⟨⟨hmem, hc, hread⟩, hne⟩
    rw [if_neg hne]
    exact ⟨hc, .inl hmem, hread⟩

theorem unread_writeEvent_of_unmarked (hmarked : data.dbe.markedRead = false)
    (htarget : Target cc ccSub c)
    : (s.writeEvent cc ccSub e data szId).Unread c =
        s.Unread c ∪ insert ⟨c, e, data.dbe.timestamp⟩
          { k | k ∈ s.m_dbEventsSort ∧ k.hContact = c ∧ k.hEvent = e } := by
  ext k
  rw [mem_unread_writeEvent, hmarked]
  simp only [Set.mem_union, Set.mem_insert_iff, Unread, Set.mem_ofPred_eq]
  constructor
  . rintro ⟨hc, hmem | ⟨heq, _⟩, hread⟩
    . split at hread
      . next he => exact .inr (.inr ⟨hmem, hc, he⟩)
      . exact .inl ⟨hmem, hc, hread⟩
    . exact .inr (.inl heq)
  . rintro (⟨hmem, hc, hread⟩ | rfl | ⟨hmem, hc, he⟩)
    . refine ⟨hc, .inl hmem, ?_⟩
      split
      . trivial
      . exact hread
    . simp [htarget]
    . simp [hc, hmem, he]

theorem unread_writeEvent_of_not_target (hmarked : data.dbe.markedRead = false)
    (htarget : ¬ Target cc ccSub c)
    : (s.writeEvent cc ccSub e data szId).Unread c =
        s.Unread c ∪ { k | k ∈ s.m_dbEventsSort ∧ k.hContact = c ∧ k.hEvent = e } := by
  ext k
  rw [mem_unread_writeEvent, hmarked]
  simp only [Set.mem_union, Unread, Set.mem_ofPred_eq]
  constructor
  . rintro ⟨hc, hmem | ⟨_, htarget'⟩, hread⟩
    . split at hread
      . next he => exact .inr ⟨hmem, hc, he⟩
      . exact .inl ⟨hmem, hc, hread⟩
    . exact absurd htarget' htarget
  . rintro (⟨hmem, hc, hread⟩ | ⟨hmem, hc, he⟩)
    . refine ⟨hc, .inl hmem, ?_⟩
      split
      . trivial
      . exact hread
    . simp [hc, hmem, he]

theorem WriteSafe.covered {ts : Nat}
    (hold : ∀ k ∈ s.m_dbEventsSort, k.hEvent = e →
      Target cc ccSub k.hContact ∧ ts ≤ k.ts ∨ ∃ u ∈ s.Unread k.hContact, u ≤ k)
    : ∀ k ∈ { k | k ∈ s.m_dbEventsSort ∧ k.hContact = c ∧ k.hEvent = e },
        (⟨c, e, ts⟩ : DBEventSortingKey) ≤ k ∨ ∃ u ∈ s.Unread c, u ≤ k := by
  rintro k ⟨hmem, rfl, rfl⟩
  rcases hold k hmem rfl with ⟨_, hle⟩ | hcovered
  . left
    rw [DBEventSortingKey.le_iff]
    refine .inr ⟨rfl, ?_⟩
    rcases Nat.lt_or_eq_of_le hle with hlt | heq
    . exact .inl hlt
    . exact .inr ⟨heq, le_rfl⟩
  . exact .inr hcovered

theorem PairInv.first_writeEvent (h : PairInv s)
    (hsafe : s.WriteSafe cc ccSub e data.dbe.timestamp data.dbe.markedRead)
    : ∀ c m, (s.writeEvent cc ccSub e data szId).first? c = some m →
        CachedLeast ⟨c, 0, 0⟩ ((s.writeEvent cc ccSub e data szId).Unread c) m := by
  rcases hsafe with ⟨hmarkedSafe, hunmarkedSafe⟩
  cases hmarked : data.dbe.markedRead with
  | true =>
    refine h.first_of_gone (fun c _ => unread_writeEvent_of_marked hmarked) ?_
      (hmarkedSafe hmarked)
    intro c m' hm'
    rw [first?_writeEvent, hmarked] at hm'
    unfold advance at hm'
    exact ⟨m', by simpa using hm', .inr ⟨not_false, rfl⟩⟩
  | false =>
    rcases hunmarkedSafe hmarked with ⟨hadvance, hold⟩
    intro c m' hm'
    rw [first?_writeEvent, hmarked] at hm'
    split at hm'
    . next htarget =>
      rcases Option.map_eq_some_iff.1 hm' with ⟨m, hm, rfl⟩
      rcases hadvance c htarget m hm with ⟨hzero, htie⟩
      have hfirst := h.first c m hm
      have hcovered := WriteSafe.covered (c := c) hold
      have hmc := first?_hContact hm
      rw [unread_writeEvent_of_unmarked hmarked htarget]
      unfold advance
      rw [if_neg (by simp)]
      split
      . next hreplace =>
        apply CachedLeast.union_insert _ _ hcovered
        intro u hu
        rcases hreplace with hlt | hts
        . -- an unread key is at or above the old pair, which is above the new key
          refine le_trans ?_ (hfirst.le hu)
          rw [DBEventSortingKey.le_iff]
          exact .inr ⟨hmc.symm, .inl hlt⟩
        . exact hzero hts u hu
      . next hkeep =>
        rw [not_or, not_lt] at hkeep
        have hne : (s.Unread c).Nonempty := by
          rcases hfirst with hleast | ⟨_, hdefault⟩
          . exact ⟨m, hleast.1⟩
          . exact absurd (congrArg DBEventSortingKey.ts hdefault) hkeep.2
        refine hfirst.union_insert_of_le hne ?_ hcovered
        rw [DBEventSortingKey.le_iff]
        refine .inr ⟨hmc, ?_⟩
        rcases Nat.lt_or_eq_of_le hkeep.1 with hlt | heq
        . exact .inl hlt
        . exact .inr ⟨heq, htie heq hkeep.2⟩
    . next htarget =>
      rw [unread_writeEvent_of_not_target hmarked htarget]
      apply (h.first c m' hm').superset Set.subset_union_left
      rintro k (hk | ⟨hmem, rfl, he⟩)
      . exact ⟨k, hk, le_rfl⟩
      . rcases hold k hmem he with ⟨htarget', _⟩ | hcovered
        . exact absurd htarget' htarget
        . exact hcovered

theorem PairInv.insertModule (h : PairInv s) (szName : Option CStr)
    : PairInv (s.insertModule szName) := by
  rcases insertModule_frame s szName with ⟨dbModules, modules, hframe⟩
  rw [hframe]
  exact ⟨⟨h.zero, h.stored, h.owned, h.oneByte⟩, h.first, h.saved⟩

theorem PairInv.writeEvent (h : PairInv s) (hhistory : s.historyOf c = some (cc, ccSub))
    (hsafe : s.WriteSafe cc ccSub e data.dbe.timestamp data.dbe.markedRead)
    : PairInv (s.writeEvent cc ccSub e data szId) where
  toWellFormed := h.toWellFormed.writeEvent hhistory szId
  first := h.first_writeEvent hsafe
  saved := by
    rcases historyOf_isSome hhistory with ⟨hcc, hsub⟩
    exact writeEvent_saved hcc hsub h.saved

def EditSafe (s : Store) (hContact : MCONTACT) (e : MEVENT) (dbei : DBEVENTINFO) : Prop :=
  ∀ cc ccSub, s.historyOf hContact = some (cc, ccSub) →
    s.WriteSafe cc ccSub e dbei.getUnixtime dbei.markedRead

theorem PairInv.EditEvent' (h : PairInv s) {dbei : DBEVENTINFO} {bNew : Bool}
    (hsafe : (bNew && s.m_safetyMode && env.filtered) = false → s.EditSafe c e dbei)
    : PairInv (s.EditEvent' env c e dbei bNew).1 := by
  have houtcome := EditEvent'_outcome s env c e dbei bNew
  generalize s.EditEvent' env c e dbei bNew = r at houtcome
  cases houtcome with
  | refused => exact h.insertModule _
  | done cc ccSub hhistory hfilter =>
    have hwrite := hsafe hfilter cc ccSub hhistory
    rcases insertModule_frame s dbei.szModule with ⟨dbModules, modules, hframe⟩
    apply (h.insertModule dbei.szModule).writeEvent (c := c)
    . rw [hframe]
      exact hhistory
    . rw [makeRecord_timestamp, makeRecord_markedRead, hframe]
      exact hwrite

end Store
end Dbx
