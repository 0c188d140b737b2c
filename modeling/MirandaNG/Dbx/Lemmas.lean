import MirandaNG.Dbx.System
import MirandaNG.Kv.TableLemmas

/-!
This module contains the two views of a contact's counters, the cached and the stored one, and what
the building blocks of the event operations do to these views and to the tables.
-/

namespace Dbx

open Kv

theorem DBEventSortingKey.lt_iff {k k' : DBEventSortingKey}
    : k < k' ↔ k.hContact < k'.hContact ∨ k.hContact = k'.hContact ∧
        (k.ts < k'.ts ∨ k.ts = k'.ts ∧ k.hEvent < k'.hEvent) := by
  show toLex (k.hContact, toLex (k.ts, k.hEvent)) < toLex (k'.hContact, toLex (k'.ts, k'.hEvent))
    ↔ _
  simp only [Prod.Lex.toLex_lt_toLex]

theorem DBEventSortingKey.le_iff {k k' : DBEventSortingKey}
    : k ≤ k' ↔ k.hContact < k'.hContact ∨ k.hContact = k'.hContact ∧
        (k.ts < k'.ts ∨ k.ts = k'.ts ∧ k.hEvent ≤ k'.hEvent) := by
  show toLex (k.hContact, toLex (k.ts, k.hEvent)) ≤ toLex (k'.hContact, toLex (k'.ts, k'.hEvent))
    ↔ _
  simp only [Prod.Lex.toLex_le_toLex]

theorem DBEventSortingKey.hContact_le {k k' : DBEventSortingKey} (h : k ≤ k')
    : k.hContact ≤ k'.hContact := by
  rcases le_iff.1 h with hlt | ⟨heq, _⟩
  . exact hlt.le
  . exact heq.le

namespace Store

def dbc? (s : Store) (contactID : MCONTACT) : Option DBContact :=
  (s.contact? contactID).map (·.dbc)

/--
The stored counters of a contact. Those of contact 0 read as zero until they are first stored.
-/
def saved? (s : Store) (contactID : MCONTACT) : Option DBContact :=
  if contactID = 0 then
    some ((s.m_dbGlobal.get? 2).getD {})
  else
    s.m_dbContacts.get? contactID

variable {s : Store} {c c' : MCONTACT} {f : DBContact → DBContact}

theorem dbc?_isSome_iff : (s.dbc? c).isSome ↔ c = 0 ∨ c ∈ s.m_cache := by
  unfold dbc? contact?
  split
  . next h => simp [h]
  . next h => simp [h, Table.mem_def]

section
variable {e : MEVENT} {data : EventRecord} {k : DBEventSortingKey} {keyId : DBEventIdKey}

@[simp]
theorem dbc?_putEvent : (s.putEvent e data).dbc? c = s.dbc? c := rfl

@[simp]
theorem dbc?_delEvent : (s.delEvent e).dbc? c = s.dbc? c := rfl

@[simp]
theorem dbc?_putKey : (s.putKey k).dbc? c = s.dbc? c := rfl

@[simp]
theorem dbc?_delKey : (s.delKey k).dbc? c = s.dbc? c := rfl

@[simp]
theorem saved?_putEvent : (s.putEvent e data).saved? c = s.saved? c := rfl

@[simp]
theorem saved?_delEvent : (s.delEvent e).saved? c = s.saved? c := rfl

@[simp]
theorem saved?_putKey : (s.putKey k).saved? c = s.saved? c := rfl

@[simp]
theorem saved?_delKey : (s.delKey k).saved? c = s.saved? c := rfl

@[simp]
theorem putEvent_m_dbEventsSort : (s.putEvent e data).m_dbEventsSort = s.m_dbEventsSort := rfl

@[simp]
theorem delEvent_m_dbEventsSort : (s.delEvent e).m_dbEventsSort = s.m_dbEventsSort := rfl

@[simp]
theorem putKey_m_dbEventsSort : (s.putKey k).m_dbEventsSort = s.m_dbEventsSort.put k [0] := rfl

@[simp]
theorem delKey_m_dbEventsSort : (s.delKey k).m_dbEventsSort = s.m_dbEventsSort.del k := rfl

@[simp]
theorem putEvent_m_dbEvents : (s.putEvent e data).m_dbEvents = s.m_dbEvents.put e data := rfl

@[simp]
theorem delEvent_m_dbEvents : (s.delEvent e).m_dbEvents = s.m_dbEvents.del e := rfl

@[simp]
theorem putKey_m_dbEvents : (s.putKey k).m_dbEvents = s.m_dbEvents := rfl

@[simp]
theorem delKey_m_dbEvents : (s.delKey k).m_dbEvents = s.m_dbEvents := rfl

@[simp]
theorem putKey_m_dbEventIds : (s.putKey k).m_dbEventIds = s.m_dbEventIds := rfl

@[simp]
theorem delKey_m_dbEventIds : (s.delKey k).m_dbEventIds = s.m_dbEventIds := rfl

@[simp]
theorem putKey_m_dwMaxEventId : (s.putKey k).m_dwMaxEventId = s.m_dwMaxEventId := rfl

@[simp]
theorem delKey_m_dwMaxEventId : (s.delKey k).m_dwMaxEventId = s.m_dwMaxEventId := rfl

@[simp]
theorem putKey_m_cache : (s.putKey k).m_cache = s.m_cache := rfl

@[simp]
theorem delKey_m_cache : (s.delKey k).m_cache = s.m_cache := rfl

end

theorem updateCached_eq_updateDbc (h : c ≠ 0) : s.updateCached c f = s.updateDbc c f := by
  simp [updateDbc, h]

theorem saveCached_eq_saveDbc (h : c ≠ 0) : s.saveCached c = s.saveDbc c := by
  simp [saveDbc, h]

theorem updateDbc_frame (s : Store) (c : MCONTACT) (f : DBContact → DBContact)
    : s.updateDbc c f = { s with
        m_cache := (s.updateDbc c f).m_cache
        m_ccDummy := (s.updateDbc c f).m_ccDummy } := by
  unfold updateDbc
  split <;> rfl

theorem saveDbc_frame (s : Store) (c : MCONTACT)
    : s.saveDbc c = { s with
        m_dbContacts := (s.saveDbc c).m_dbContacts
        m_dbGlobal := (s.saveDbc c).m_dbGlobal } := by
  unfold saveDbc saveCached
  split
  . rfl
  . split <;> rfl

@[simp]
theorem updateDbc_m_dbEvents : (s.updateDbc c f).m_dbEvents = s.m_dbEvents := by
  rw [updateDbc_frame]

@[simp]
theorem updateDbc_m_dbEventsSort : (s.updateDbc c f).m_dbEventsSort = s.m_dbEventsSort := by
  rw [updateDbc_frame]

@[simp]
theorem updateDbc_m_dbEventIds : (s.updateDbc c f).m_dbEventIds = s.m_dbEventIds := by
  rw [updateDbc_frame]

@[simp]
theorem updateDbc_m_dwMaxEventId : (s.updateDbc c f).m_dwMaxEventId = s.m_dwMaxEventId := by
  rw [updateDbc_frame]

@[simp]
theorem updateDbc_m_Modules : (s.updateDbc c f).m_Modules = s.m_Modules := by
  rw [updateDbc_frame]

@[simp]
theorem updateDbc_m_crypto : (s.updateDbc c f).m_crypto = s.m_crypto := by
  rw [updateDbc_frame]

@[simp]
theorem saveDbc_m_dbEvents : (s.saveDbc c).m_dbEvents = s.m_dbEvents := by
  rw [saveDbc_frame]

@[simp]
theorem saveDbc_m_dbEventsSort : (s.saveDbc c).m_dbEventsSort = s.m_dbEventsSort := by
  rw [saveDbc_frame]

@[simp]
theorem saveDbc_m_dbEventIds : (s.saveDbc c).m_dbEventIds = s.m_dbEventIds := by
  rw [saveDbc_frame]

@[simp]
theorem saveDbc_m_dwMaxEventId : (s.saveDbc c).m_dwMaxEventId = s.m_dwMaxEventId := by
  rw [saveDbc_frame]

@[simp]
theorem saveDbc_m_Modules : (s.saveDbc c).m_Modules = s.m_Modules := by
  rw [saveDbc_frame]

@[simp]
theorem saveDbc_m_crypto : (s.saveDbc c).m_crypto = s.m_crypto := by
  rw [saveDbc_frame]

@[simp]
theorem mem_updateDbc_m_cache : c' ∈ (s.updateDbc c f).m_cache ↔ c' ∈ s.m_cache := by
  unfold updateDbc
  split
  . rfl
  . exact Table.mem_modify

@[simp]
theorem saveDbc_m_cache : (s.saveDbc c).m_cache = s.m_cache := by
  rw [saveDbc_frame]

theorem dbc?_updateDbc (s : Store) (c c' : MCONTACT) (f : DBContact → DBContact)
    : (s.updateDbc c f).dbc? c' = if c' = c then (s.dbc? c).map f else s.dbc? c' := by
  unfold updateDbc dbc? contact?
  by_cases hc : c = 0
  . subst hc
    by_cases hc' : c' = 0
    . simp [hc']
    . simp [hc']
  . by_cases hc' : c' = 0
    . simp [hc, hc', Ne.symm hc, updateCached]
    . by_cases heq : c' = c
      . subst heq
        simp [hc, updateCached, Table.get?_modify]
        rfl
      . simp [hc, hc', heq, updateCached, Table.get?_modify]

@[simp]
theorem saved?_updateDbc : (s.updateDbc c f).saved? c' = s.saved? c' := by
  rw [updateDbc_frame]
  rfl

@[simp]
theorem dbc?_saveDbc : (s.saveDbc c).dbc? c' = s.dbc? c' := by
  rw [saveDbc_frame]
  rfl

theorem saved?_saveDbc (dbc : DBContact) (h : s.dbc? c = some dbc)
    : (s.saveDbc c).saved? c' = if c' = c then some dbc else s.saved? c' := by
  unfold dbc? contact? at h
  unfold saveDbc saved?
  by_cases hc : c = 0
  . subst hc
    have : s.m_ccDummy.dbc = dbc := by simpa using h
    by_cases hc' : c' = 0
    . simp [hc', this]
    . simp [hc']
  . simp only [hc, ↓reduceIte] at h ⊢
    rcases Option.map_eq_some_iff.1 h with ⟨cc, hcc, hdbc⟩
    unfold saveCached
    rw [hcc]
    by_cases hc' : c' = 0
    . simp [hc', Ne.symm hc]
    . simp [hc', Table.get?_put, hdbc]

variable {e : MEVENT} {dbe : DBEvent} {env : Env} {key2 : DBEventSortingKey}

@[simp]
theorem fileEvent_m_dbEvents : (s.fileEvent c e dbe).m_dbEvents = s.m_dbEvents := by
  simp [fileEvent]

@[simp]
theorem fileEvent_m_dbEventsSort
    : (s.fileEvent c e dbe).m_dbEventsSort = s.m_dbEventsSort.put ⟨c, e, dbe.timestamp⟩ [0] := by
  simp [fileEvent]

@[simp]
theorem fileEvent_m_dbEventIds : (s.fileEvent c e dbe).m_dbEventIds = s.m_dbEventIds := by
  simp [fileEvent]

@[simp]
theorem fileEvent_m_dwMaxEventId : (s.fileEvent c e dbe).m_dwMaxEventId = s.m_dwMaxEventId := by
  simp [fileEvent]

@[simp]
theorem fileEvent_m_Modules : (s.fileEvent c e dbe).m_Modules = s.m_Modules := by
  simp [fileEvent, putKey]

@[simp]
theorem fileEvent_m_crypto : (s.fileEvent c e dbe).m_crypto = s.m_crypto := by
  simp [fileEvent, putKey]

@[simp]
theorem mem_fileEvent_m_cache : c' ∈ (s.fileEvent c e dbe).m_cache ↔ c' ∈ s.m_cache := by
  simp [fileEvent]

theorem dbc?_fileEvent
    : (s.fileEvent c e dbe).dbc? c' =
        if c' = c then (s.dbc? c).map (·.Advance e dbe) else s.dbc? c' := by
  unfold fileEvent
  dsimp only
  rw [dbc?_saveDbc, dbc?_updateDbc, dbc?_putKey, dbc?_putKey]

theorem saved?_fileEvent (hc : (s.dbc? c).isSome)
    : (s.fileEvent c e dbe).saved? c' =
        if c' = c then (s.dbc? c).map (·.Advance e dbe) else s.saved? c' := by
  rcases Option.isSome_iff_exists.1 hc with ⟨dbc, hdbc⟩
  unfold fileEvent
  dsimp only
  rw [saved?_saveDbc (dbc.Advance e dbe)]
  . rw [saved?_updateDbc, hdbc, saved?_putKey]
    rfl
  . rw [dbc?_updateDbc, if_pos rfl, dbc?_putKey, hdbc]
    rfl

variable {cc : MCONTACT} {ccSub : Option MCONTACT} {szId : Option CStr}

theorem writeEvent_m_dbEvents
    : (s.writeEvent cc ccSub e data szId).m_dbEvents = s.m_dbEvents.put e data := by
  unfold writeEvent fileSub fileId
  cases ccSub <;> cases szId <;> simp [putId]

theorem writeEvent_m_Modules : (s.writeEvent cc ccSub e data szId).m_Modules = s.m_Modules := by
  unfold writeEvent fileSub fileId
  cases ccSub <;> cases szId <;> simp [putEvent, putId]

theorem writeEvent_m_crypto : (s.writeEvent cc ccSub e data szId).m_crypto = s.m_crypto := by
  unfold writeEvent fileSub fileId
  cases ccSub <;> cases szId <;> simp [putEvent, putId]

theorem unfileCached_eq_unfileEvent (h : key2.hContact ≠ 0)
    : s.unfileCached env key2 = s.unfileEvent env key2 := by
  simp [unfileCached, unfileEvent, updateCached_eq_updateDbc h, saveCached_eq_saveDbc h]

@[simp]
theorem unfileEvent_m_dbEvents : (s.unfileEvent env key2).m_dbEvents = s.m_dbEvents := by
  simp [unfileEvent]

@[simp]
theorem unfileEvent_m_dbEventsSort
    : (s.unfileEvent env key2).m_dbEventsSort = s.m_dbEventsSort.del key2 := by
  simp [unfileEvent]

@[simp]
theorem unfileEvent_m_dbEventIds : (s.unfileEvent env key2).m_dbEventIds = s.m_dbEventIds := by
  simp [unfileEvent]

@[simp]
theorem unfileEvent_m_dwMaxEventId
    : (s.unfileEvent env key2).m_dwMaxEventId = s.m_dwMaxEventId := by
  simp [unfileEvent]

theorem unfileCached_m_dbEvents : (s.unfileCached env key2).m_dbEvents = s.m_dbEvents := by
  unfold unfileCached saveCached
  dsimp only
  split <;> rfl

theorem unfileCached_m_dbEventIds : (s.unfileCached env key2).m_dbEventIds = s.m_dbEventIds := by
  unfold unfileCached saveCached
  dsimp only
  split <;> rfl

theorem unfileCached_m_dwMaxEventId
    : (s.unfileCached env key2).m_dwMaxEventId = s.m_dwMaxEventId := by
  unfold unfileCached saveCached
  dsimp only
  split <;> rfl

@[simp]
theorem mem_unfileEvent_m_cache : c' ∈ (s.unfileEvent env key2).m_cache ↔ c' ∈ s.m_cache := by
  simp [unfileEvent]

def lostEvent (e : MEVENT) (dbc : DBContact) : DBContact where
  dwEventCount := (dbc.dwEventCount + (2 ^ 32 - 1)) % 2 ^ 32
  evFirstUnread := if dbc.evFirstUnread = e then 0 else dbc.evFirstUnread
  tsFirstUnread := if dbc.evFirstUnread = e then 0 else dbc.tsFirstUnread

theorem dropEvent_eq_lostEvent (h : key2 ∉ s.m_dbEventsSort)
    : s.dropEvent env key2 = lostEvent key2.hEvent := by
  funext dbc
  unfold dropEvent FindNextUnread lostEvent
  simp only [h, false_and, ↓reduceIte]
  split <;> rfl

theorem unfileEvent_eq (s : Store) (env : Env) (key2 : DBEventSortingKey)
    : s.unfileEvent env key2 =
        ((s.delKey key2).updateDbc key2.hContact (lostEvent key2.hEvent)).saveDbc key2.hContact := by
  unfold unfileEvent
  dsimp only
  rw [dropEvent_eq_lostEvent]
  simp [Table.mem_del]

theorem dbc?_unfileEvent
    : (s.unfileEvent env key2).dbc? c' =
        if c' = key2.hContact then (s.dbc? c').map (lostEvent key2.hEvent) else s.dbc? c' := by
  rw [unfileEvent_eq, dbc?_saveDbc, dbc?_updateDbc]
  split
  . next h => rw [h]; rfl
  . rfl

theorem saved?_unfileEvent (hc : (s.dbc? key2.hContact).isSome)
    : (s.unfileEvent env key2).saved? c' =
        if c' = key2.hContact then (s.dbc? c').map (lostEvent key2.hEvent) else s.saved? c' := by
  rcases Option.isSome_iff_exists.1 hc with ⟨dbc, hdbc⟩
  rw [unfileEvent_eq, saved?_saveDbc (lostEvent key2.hEvent dbc)]
  . rw [saved?_updateDbc]
    split
    . next h => rw [h, hdbc]; rfl
    . rfl
  . rw [dbc?_updateDbc, if_pos rfl, dbc?_delKey, hdbc]
    rfl

theorem historyKeys_eq (s : Store) (c : MCONTACT)
    : s.historyKeys c =
        (s.m_dbEventsSort.entries.filter (fun a => a.1.hContact = c)).map Prod.fst := by
  unfold historyKeys
  dsimp only
  rw [Table.seek_takeWhile (fun k : DBEventSortingKey => k.hContact = c)]
  . intro a ha
    rw [DBEventSortingKey.le_iff]
    simp only [decide_eq_true_eq] at ha
    refine .inr ⟨ha.symm, ?_⟩
    rcases Nat.eq_zero_or_pos a.ts with hts | hts
    . exact .inr ⟨hts.symm, Nat.zero_le _⟩
    . exact .inl hts
  . intro a b ha hab hb
    simp only [decide_eq_true_eq] at hb ⊢
    exact le_antisymm (hb ▸ DBEventSortingKey.hContact_le hab) (DBEventSortingKey.hContact_le ha)

theorem mem_historyKeys {k : DBEventSortingKey}
    : k ∈ s.historyKeys c ↔ k ∈ s.m_dbEventsSort ∧ k.hContact = c := by
  rw [historyKeys_eq]
  simp only [List.mem_map, List.mem_filter, decide_eq_true_eq, Table.mem_iff_entries]
  constructor
  . rintro ⟨⟨k', v⟩, ⟨hmem, hk⟩, rfl⟩
    exact ⟨⟨v, hmem⟩, hk⟩
  . rintro ⟨⟨v, hmem⟩, hk⟩
    exact ⟨(k, v), ⟨hmem, hk⟩, rfl⟩

theorem historyKeys_sorted (s : Store) (c : MCONTACT)
    : (s.historyKeys c).Pairwise (· < ·) := by
  rw [historyKeys_eq, List.pairwise_map]
  apply List.Pairwise.filter
  exact s.m_dbEventsSort.sorted

theorem historyKeys_congr {s' : Store}
    (h : ∀ k, k.hContact = c → (k ∈ s'.m_dbEventsSort ↔ k ∈ s.m_dbEventsSort))
    : s'.historyKeys c = s.historyKeys c := by
  apply (s'.historyKeys_sorted c).eq_of_mem_iff (s.historyKeys_sorted c)
  intro k
  rw [mem_historyKeys, mem_historyKeys]
  apply and_congr_left
  exact h k

theorem foldl_delKey_frame (s : Store) (keys : List DBEventSortingKey)
    : keys.foldl delKey s =
        { s with m_dbEventsSort := (keys.foldl delKey s).m_dbEventsSort } := by
  induction keys generalizing s with
  | nil => rfl
  | cons k keys ih =>
    rw [List.foldl_cons, ih (s.delKey k)]
    rfl

theorem foldl_delEvent_frame (s : Store) (events : List MEVENT)
    : events.foldl delEvent s = { s with m_dbEvents := (events.foldl delEvent s).m_dbEvents } := by
  induction events generalizing s with
  | nil => rfl
  | cons e events ih =>
    rw [List.foldl_cons, ih (s.delEvent e)]
    rfl

theorem mem_foldl_delKey {k : DBEventSortingKey} {keys : List DBEventSortingKey}
    : k ∈ (keys.foldl delKey s).m_dbEventsSort ↔ k ∈ s.m_dbEventsSort ∧ k ∉ keys := by
  induction keys generalizing s with
  | nil => simp
  | cons k' keys ih =>
    rw [List.foldl_cons, ih, delKey_m_dbEventsSort, Table.mem_del, List.mem_cons]
    tauto

theorem get?_foldl_delEvent {events : List MEVENT}
    : (events.foldl delEvent s).m_dbEvents.get? e =
        if e ∈ events then none else s.m_dbEvents.get? e := by
  induction events generalizing s with
  | nil => simp
  | cons e' events ih =>
    rw [List.foldl_cons, ih, delEvent_m_dbEvents, Table.get?_del]
    by_cases h : e = e'
    . simp [h]
    . simp [h]

variable {env : Env} {cc : DBCachedContact}

theorem dbc?_wipeHistory : (s.wipeHistory env c cc).dbc? c' = s.dbc? c' := by
  unfold wipeHistory
  dsimp only
  rw [foldl_delEvent_frame, foldl_delKey_frame]
  rfl

theorem saved?_wipeHistory : (s.wipeHistory env c cc).saved? c' = s.saved? c' := by
  unfold wipeHistory
  dsimp only
  rw [foldl_delEvent_frame, foldl_delKey_frame]
  rfl

theorem dbc?_removeContact (hc : c ≠ 0)
    : (s.removeContact c).dbc? c' = if c' = c then none else s.dbc? c' := by
  unfold dbc? contact? removeContact
  dsimp only
  rw [Table.get?_del]
  split
  . next hzero => simp [hzero, hc.symm]
  . split <;> rfl

theorem saved?_removeContact (hc : c ≠ 0)
    : (s.removeContact c).saved? c' = if c' = c then none else s.saved? c' := by
  unfold saved? removeContact
  dsimp only
  rw [Table.get?_del]
  split
  . next hzero => simp [hzero, hc.symm]
  . rfl

theorem AddContact_m_dbEventsSort : s.AddContact.1.m_dbEventsSort = s.m_dbEventsSort := by
  unfold AddContact AddContactToCache saveCached
  dsimp only
  split
  . split <;> rfl
  . split <;> rfl

theorem AddContact_m_dbEvents : s.AddContact.1.m_dbEvents = s.m_dbEvents := by
  unfold AddContact AddContactToCache saveCached
  dsimp only
  split
  . split <;> rfl
  . split <;> rfl

theorem AddContact_m_dbEventIds : s.AddContact.1.m_dbEventIds = s.m_dbEventIds := by
  unfold AddContact AddContactToCache saveCached
  dsimp only
  split
  . split <;> rfl
  . split <;> rfl

theorem AddContact_m_dwMaxEventId : s.AddContact.1.m_dwMaxEventId = s.m_dwMaxEventId := by
  unfold AddContact AddContactToCache saveCached
  dsimp only
  split
  . split <;> rfl
  . split <;> rfl

theorem AddContact_of_mem (hroom : s.m_maxContactId + 1 < 2 ^ 32)
    (hmem : s.m_maxContactId + 1 ∈ s.m_cache)
    : s.AddContact.1 =
        ({ s with m_maxContactId := s.m_maxContactId + 1 } : Store).saveDbc
          (s.m_maxContactId + 1) := by
  have hid : (s.m_maxContactId + 1) % 2 ^ 32 = s.m_maxContactId + 1 := Nat.mod_eq_of_lt hroom
  unfold AddContact AddContactToCache
  dsimp only
  rw [hid, if_pos hmem, saveCached_eq_saveDbc (Nat.succ_ne_zero _)]

theorem dbc?_AddContact (hroom : s.m_maxContactId + 1 < 2 ^ 32)
    (hnew : s.m_maxContactId + 1 ∉ s.m_cache)
    : s.AddContact.1.dbc? c = if c = s.m_maxContactId + 1 then some {} else s.dbc? c := by
  have hid : (s.m_maxContactId + 1) % 2 ^ 32 = s.m_maxContactId + 1 := Nat.mod_eq_of_lt hroom
  unfold AddContact AddContactToCache
  dsimp only
  rw [hid, saveCached_eq_saveDbc (Nat.succ_ne_zero _), dbc?_saveDbc, if_neg hnew]
  unfold dbc? contact?
  dsimp only
  rw [Table.get?_put]
  split
  . next hzero => simp [hzero]
  . split <;> rfl

theorem saved?_AddContact (hroom : s.m_maxContactId + 1 < 2 ^ 32)
    (hnew : s.m_maxContactId + 1 ∉ s.m_cache)
    : s.AddContact.1.saved? c = if c = s.m_maxContactId + 1 then some {} else s.saved? c := by
  have hid : (s.m_maxContactId + 1) % 2 ^ 32 = s.m_maxContactId + 1 := Nat.mod_eq_of_lt hroom
  unfold AddContact AddContactToCache
  dsimp only
  rw [hid, if_neg hnew]
  unfold saveCached saved?
  dsimp only
  rw [Table.get?_put_self]
  dsimp only
  rw [Table.get?_put]
  split
  . next hzero => simp [hzero]
  . rfl

theorem dbc?_SetLinks {links : MetaLinks} : (s.SetLinks c links).dbc? c' = s.dbc? c' := by
  unfold dbc? contact? SetLinks
  dsimp only
  rw [Table.get?_modify]
  split
  . rfl
  . split
    . next heq =>
      rw [heq, Option.map_map]
      rfl
    . rfl

theorem dbc?_Load {links : MCONTACT → MetaLinks} : (s.Load links).dbc? c = s.saved? c := by
  unfold dbc? contact? saved? Load InitModules
  dsimp only
  split
  . rfl
  . rw [Table.get?_mapValues, Option.map_map]
    exact Option.map_id'

end Store
end Dbx
