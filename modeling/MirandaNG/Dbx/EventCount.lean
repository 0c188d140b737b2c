import MirandaNG.Dbx.WellFormed

/-!
This module contains the event counters: in which runs the counter of every contact, cached and
stored, is the number of its sorting keys.
-/

namespace Dbx

open Kv Crypt Transition

namespace Store

def countOf (s : Store) (c : MCONTACT) : Nat :=
  s.m_dbEventsSort.count (fun k => k.hContact = c)

structure Counted (s : Store) : Prop extends WellFormed s where
  count : ∀ c dbc, s.dbc? c = some dbc → dbc.dwEventCount = s.countOf c
  room : ∀ c, s.countOf c < 2 ^ 32

def SavedBut (s : Store) (c : MCONTACT) : Prop :=
  ∀ c' ≠ c, s.saved? c' = s.dbc? c'

structure CountInv (s : Store) : Prop extends Counted s where
  saved : ∀ c, s.saved? c = s.dbc? c

variable {s : Store} {c : MCONTACT} {k : DBEventSortingKey} {f : DBContact → DBContact}

theorem CountInv.savedBut (h : CountInv s) (c : MCONTACT) : SavedBut s c :=
  fun c' _ => h.saved c'

theorem countOf_putKey (hnew : k ∉ s.m_dbEventsSort)
    : (s.putKey k).countOf c = s.countOf c + if c = k.hContact then 1 else 0 := by
  unfold countOf
  rw [putKey_m_dbEventsSort, Table.count_put_of_notMem _ _ hnew]
  simp [eq_comm]

theorem countOf_delKey (hmem : k ∈ s.m_dbEventsSort)
    : s.countOf c = (s.delKey k).countOf c + if c = k.hContact then 1 else 0 := by
  unfold countOf
  rw [delKey_m_dbEventsSort, Table.count_del_of_mem _ hmem]
  simp [eq_comm]

@[simp]
theorem countOf_updateDbc (s : Store) (c c' : MCONTACT) (f : DBContact → DBContact)
    : (s.updateDbc c' f).countOf c = s.countOf c := by
  simp [countOf]

theorem Counted.of_update {s' : Store} (h : Counted s) (hwf : WellFormed s')
    (hdbc : ∀ c, s'.dbc? c = s.dbc? c)
    (hother : ∀ c' ≠ c, s'.countOf c' = s.countOf c')
    (hself : ∀ dbc, dbc.dwEventCount = s.countOf c → (f dbc).dwEventCount = s'.countOf c)
    (hroom : s'.countOf c < 2 ^ 32)
    : Counted (s'.updateDbc c f) where
  toWellFormed := hwf.updateDbc c f
  count c' dbc' hdbc' := by
    rw [dbc?_updateDbc, hdbc, hdbc] at hdbc'
    rw [countOf_updateDbc]
    split at hdbc'
    . next heq =>
      rcases Option.map_eq_some_iff.1 hdbc' with ⟨dbc, hold, rfl⟩
      rw [heq]
      exact hself dbc (h.count c dbc hold)
    . next hne =>
      rw [hother c' hne]
      exact h.count c' dbc' hdbc'
  room c' := by
    rw [countOf_updateDbc]
    by_cases heq : c' = c
    . exact heq ▸ hroom
    . exact hother c' heq ▸ h.room c'

theorem Counted.putKey (h : Counted s) (hc : (s.dbc? k.hContact).isSome)
    (hnew : k ∉ s.m_dbEventsSort) (hroom : s.countOf k.hContact + 1 < 2 ^ 32)
    (hf : ∀ dbc, (f dbc).dwEventCount = (dbc.dwEventCount + 1) % 2 ^ 32)
    : Counted ((s.putKey k).updateDbc k.hContact f) := by
  apply h.of_update (h.toWellFormed.putKey hc) (fun _ => rfl)
  . intro c' hne
    rw [countOf_putKey hnew, if_neg hne]
    rfl
  . intro dbc hcount
    rw [hf, hcount, countOf_putKey hnew, if_pos rfl]
    exact Nat.mod_eq_of_lt hroom
  . rw [countOf_putKey hnew, if_pos rfl]
    exact hroom

theorem Counted.delKey (h : Counted s) (hmem : k ∈ s.m_dbEventsSort)
    (hf : ∀ dbc, (f dbc).dwEventCount = (dbc.dwEventCount + (2 ^ 32 - 1)) % 2 ^ 32)
    : Counted ((s.delKey k).updateDbc k.hContact f) := by
  have hdel := countOf_delKey (c := k.hContact) hmem
  have hroom := h.room k.hContact
  rw [if_pos rfl] at hdel
  apply h.of_update (h.toWellFormed.delKey k) (fun _ => rfl)
  . intro c' hne
    rw [countOf_delKey hmem, if_neg hne]
    rfl
  . intro dbc hcount
    rw [hf, hcount]
    omega
  . omega

theorem Counted.updateDbc (h : Counted s) (c : MCONTACT)
    (hf : ∀ dbc, (f dbc).dwEventCount = dbc.dwEventCount)
    : Counted (s.updateDbc c f) := by
  apply h.of_update h.toWellFormed (fun _ => rfl) (fun _ _ => rfl)
  . intro dbc hcount
    rw [hf, hcount]
  . exact h.room c

theorem Counted.saveDbc (h : Counted s) (c : MCONTACT) : Counted (s.saveDbc c) where
  toWellFormed := h.toWellFormed.saveDbc c
  count := by
    rw [saveDbc_frame]
    exact h.count
  room := by
    rw [saveDbc_frame]
    exact h.room

theorem SavedBut.updateDbc (h : SavedBut s c) : SavedBut (s.updateDbc c f) c := by
  intro c' hc'
  rw [saved?_updateDbc, dbc?_updateDbc, if_neg hc']
  exact h c' hc'

theorem CountInv.saveDbc (h : Counted s) (hsaved : SavedBut s c) (hc : (s.dbc? c).isSome)
    : CountInv (s.saveDbc c) where
  toCounted := h.saveDbc c
  saved c' := by
    rcases Option.isSome_iff_exists.1 hc with ⟨dbc, hdbc⟩
    rw [saved?_saveDbc dbc hdbc, dbc?_saveDbc]
    split
    . next heq => rw [heq, hdbc]
    . next hne => exact hsaved c' hne

variable {env : Env} {e : MEVENT} {dbe : DBEvent} {data : EventRecord}

theorem Advance_dwEventCount (dbc : DBContact)
    : (dbc.Advance e dbe).dwEventCount = (dbc.dwEventCount + 1) % 2 ^ 32 := by
  unfold DBContact.Advance
  dsimp only
  split
  . rfl
  . split <;> rfl

theorem CountInv.fileEvent (h : CountInv s) (hc : (s.dbc? c).isSome)
    (hnew : ⟨c, e, dbe.timestamp⟩ ∉ s.m_dbEventsSort) (hroom : s.countOf c + 1 < 2 ^ 32)
    : CountInv (s.fileEvent c e dbe) := by
  have hsaved : SavedBut (s.putKey ⟨c, e, dbe.timestamp⟩) c := h.savedBut c
  apply CountInv.saveDbc _ hsaved.updateDbc
  . rw [dbc?_updateDbc, if_pos rfl]
    simpa using hc
  . exact h.toCounted.putKey hc hnew hroom Advance_dwEventCount

theorem countOf_fileEvent {c' : MCONTACT} (hnew : ⟨c, e, dbe.timestamp⟩ ∉ s.m_dbEventsSort)
    : (s.fileEvent c e dbe).countOf c' = s.countOf c' + if c' = c then 1 else 0 := by
  rw [← countOf_putKey hnew]
  unfold countOf
  rw [fileEvent_m_dbEventsSort, putKey_m_dbEventsSort]

theorem CountInv.unfileEvent (h : CountInv s) (hmem : k ∈ s.m_dbEventsSort)
    : CountInv (s.unfileEvent env k) := by
  have hsaved : SavedBut (s.delKey k) k.hContact := h.savedBut _
  rw [unfileEvent_eq]
  apply CountInv.saveDbc _ hsaved.updateDbc
  . rw [dbc?_updateDbc, if_pos rfl]
    simpa using h.owner hmem
  . exact h.toCounted.delKey hmem (fun _ => rfl)

theorem CountInv.refreshUnread (h : CountInv s) (hc : k.hContact ∈ s.m_cache)
    : CountInv (s.refreshUnread env k) := by
  have hne := h.ne_zero hc
  unfold Store.refreshUnread
  dsimp only
  rw [updateCached_eq_updateDbc hne, saveCached_eq_saveDbc hne]
  apply CountInv.saveDbc
  . apply h.toCounted.updateDbc
    intro dbc
    unfold FindNextUnread
    split <;> rfl
  . exact (h.savedBut _).updateDbc
  . rw [dbc?_updateDbc, if_pos rfl]
    simp [dbc?_isSome_iff, hc]

/--
The sorting keys an event would be filed under are new, and no counter is at its limit.
-/
def FilesNew (s : Store) (hContact : MCONTACT) (e : MEVENT) (ts : Nat) : Prop :=
  ∀ cc ccSub, s.historyOf hContact = some (cc, ccSub) →
    (⟨cc, e, ts⟩ ∉ s.m_dbEventsSort ∧ s.countOf cc + 1 < 2 ^ 32) ∧
    ∀ c ∈ ccSub, c ≠ cc ∧ ⟨c, e, ts⟩ ∉ s.m_dbEventsSort ∧ s.countOf c + 1 < 2 ^ 32

theorem CountInv.writeEvent (h : CountInv s) {cc : MCONTACT} {ccSub : Option MCONTACT}
    (hhistory : s.historyOf c = some (cc, ccSub)) (hnew : s.FilesNew c e data.dbe.timestamp)
    (szId : Option CStr)
    : CountInv (s.writeEvent cc ccSub e data szId) := by
  rcases hnew cc ccSub hhistory with ⟨⟨hnew, hroom⟩, hsub⟩
  have hsome := historyOf_isSome hhistory
  have hput : CountInv (s.putEvent e data) :=
    ⟨⟨h.toWellFormed.putEvent e data, h.count, h.room⟩, h.saved⟩
  have hcc : CountInv ((s.putEvent e data).fileEvent cc e data.dbe) :=
    hput.fileEvent hsome.1 hnew hroom
  have hboth : CountInv (((s.putEvent e data).fileEvent cc e data.dbe).fileSub ccSub e
      data.dbe) := by
    cases ccSub with
    | none => exact hcc
    | some c' =>
      rcases hsub c' rfl with ⟨hne, hnew', hroom'⟩
      apply hcc.fileEvent
      . rw [dbc?_fileEvent, if_neg hne]
        exact hsome.2 c' rfl
      . rw [fileEvent_m_dbEventsSort, Table.mem_put]
        simp [hne, hnew']
      . rw [countOf_fileEvent (s := s.putEvent e data) hnew, if_neg hne]
        exact hroom'
  unfold Store.writeEvent fileId
  dsimp only
  split
  . exact hboth
  . exact ⟨⟨⟨hboth.zero, hboth.stored, hboth.owned, hboth.oneByte⟩, hboth.count, hboth.room⟩,
      hboth.saved⟩

theorem CountInv.EditEvent' (h : CountInv s) {dbei : DBEVENTINFO} {bNew : Bool}
    (hnew : s.FilesNew c e dbei.getUnixtime)
    : CountInv (s.EditEvent' env c e dbei bNew).1 := by
  rcases insertModule_frame s dbei.szModule with ⟨dbModules, modules, hframe⟩
  have hmodule : CountInv (s.insertModule dbei.szModule) := by
    refine ⟨⟨h.toWellFormed.insertModule _, ?_, ?_⟩, ?_⟩
    . exact hframe ▸ h.count
    . exact hframe ▸ h.room
    . exact hframe ▸ h.saved
  have houtcome := EditEvent'_outcome s env c e dbei bNew
  generalize s.EditEvent' env c e dbei bNew = r at houtcome
  cases houtcome with
  | refused => exact hmodule
  | done cc ccSub hhistory hfilter =>
    apply hmodule.writeEvent (c := c)
    . rw [hframe]
      exact hhistory
    . rw [makeRecord_timestamp, hframe]
      exact hnew

theorem CountInv.eraseRecord (h : CountInv s) : CountInv (s.eraseRecord env e data) := by
  refine ⟨⟨h.toWellFormed.eraseRecord, ?_, ?_⟩, ?_⟩
  all_goals
    unfold Store.eraseRecord
    dsimp only
    split
  . exact h.count
  . exact h.count
  . exact h.room
  . exact h.room
  . exact h.saved
  . exact h.saved

theorem CountInv.DeleteEvent (h : CountInv s) : CountInv (s.DeleteEvent env e).1 := by
  have houtcome := DeleteEvent_outcome s env e
  generalize s.DeleteEvent env e = r at houtcome
  cases houtcome with
  | refused => exact h
  | single data hguard => exact (h.unfileEvent hguard.filed).eraseRecord
  | half data c₂ hguard hfiled => exact h.unfileEvent hguard.filed
  | double data c₂ hguard hfiled =>
    rcases hguard.checked with ⟨cc, hcc, hcount, hcheck⟩
    have hne := h.ne_zero (CheckEvent_mem hcheck)
    dsimp only
    rw [unfileCached_eq_unfileEvent hne]
    exact ((h.unfileEvent hguard.filed).unfileEvent hfiled).eraseRecord

theorem CountInv.MarkEventRead (h : CountInv s) : CountInv (s.MarkEventRead env c e).1 := by
  have houtcome := MarkEventRead_outcome s env c e
  generalize (s.MarkEventRead env c e).1 = r at houtcome
  have hread (data : EventRecord) : CountInv (s.setRead e data) :=
    ⟨⟨h.toWellFormed.putEvent e _, h.count, h.room⟩, h.saved⟩
  cases houtcome with
  | refused => exact h
  | single data hguard =>
    rcases hguard.checked with ⟨cc, hcc, hcheck⟩
    exact (hread data).refreshUnread (k := ⟨c, _, _⟩) (Table.mem_iff_exists.2 ⟨cc, hcc⟩)
  | double data c₂ hguard =>
    rcases hguard.checked with ⟨cc, hcc, hcheck⟩
    have hfirst : CountInv ((s.setRead e data).refreshUnread env ⟨c, e, data.dbe.timestamp⟩) :=
      (hread data).refreshUnread (Table.mem_iff_exists.2 ⟨cc, hcc⟩)
    apply hfirst.refreshUnread
    rw [WellFormed.mem_refreshUnread_m_cache]
    exact CheckEvent_mem hcheck

/--
The sorting keys `MetaMergeHistory` writes into the history of the meta contact.
-/
def mergedKeys (s : Store) (ccMeta ccSub : MCONTACT) : List DBEventSortingKey :=
  (s.GatherContactHistory ccSub).map (·.key ccMeta)

theorem mergeHistory_counted {ccMeta : MCONTACT} (list : List EventItem) (h : Counted s)
    (hsaved : SavedBut s ccMeta) (hc : ccMeta ∈ s.m_cache)
    (hdistinct : (list.map (·.key ccMeta)).Nodup)
    (hnew : ∀ EI ∈ list, EI.key ccMeta ∉ s.m_dbEventsSort)
    (hroom : s.countOf ccMeta + list.length < 2 ^ 32)
    : Counted (s.mergeHistory ccMeta list) ∧ SavedBut (s.mergeHistory ccMeta list) ccMeta ∧
        ccMeta ∈ (s.mergeHistory ccMeta list).m_cache := by
  induction list generalizing s with
  | nil => exact ⟨h, hsaved, hc⟩
  | cons EI list ih =>
    simp only [List.map_cons, List.nodup_cons, List.length_cons] at hdistinct hroom
    have hfirst : EI.key ccMeta ∉ s.m_dbEventsSort := hnew EI (by simp)
    have hsome : (s.dbc? ccMeta).isSome := by simp [dbc?_isSome_iff, hc]
    unfold Store.mergeHistory
    dsimp only
    rw [updateCached_eq_updateDbc (h.ne_zero hc)]
    apply ih
    . exact h.putKey (k := EI.key ccMeta) hsome hfirst (by simp only [EventItem.key]; omega)
        (fun _ => rfl)
    . have : SavedBut (s.putKey (EI.key ccMeta)) ccMeta := hsaved
      exact this.updateDbc
    . rw [mem_updateDbc_m_cache]
      exact hc
    . exact hdistinct.2
    . intro EI' hEI'
      rw [updateDbc_m_dbEventsSort, putKey_m_dbEventsSort, Table.mem_put]
      rintro (heq | hmem)
      . exact hdistinct.1 (heq ▸ List.mem_map_of_mem hEI')
      . exact hnew EI' (by simp [hEI']) hmem
    . rw [countOf_updateDbc, countOf_putKey hfirst]
      simp only [EventItem.key, ↓reduceIte]
      omega

theorem CountInv.MetaMergeHistory (h : CountInv s) {ccMeta ccSub : MCONTACT}
    (hdistinct : (s.mergedKeys ccMeta ccSub).Nodup)
    (hnew : ∀ k ∈ s.mergedKeys ccMeta ccSub, k ∉ s.m_dbEventsSort)
    (hroom : s.countOf ccMeta + (s.mergedKeys ccMeta ccSub).length < 2 ^ 32)
    : CountInv (s.MetaMergeHistory ccMeta ccSub).1 := by
  unfold Store.MetaMergeHistory
  split
  . exact h
  . next hcached =>
    have hmeta : ccMeta ∈ s.m_cache := by tauto
    have hmerge := mergeHistory_counted (s.GatherContactHistory ccSub) h.toCounted
      (h.savedBut ccMeta) hmeta hdistinct
      (fun EI hEI => hnew _ (List.mem_map_of_mem hEI)) (by simpa [mergedKeys] using hroom)
    rcases hmerge with ⟨hcounted, hsaved, hmem⟩
    dsimp only
    rw [saveCached_eq_saveDbc (h.ne_zero hmeta)]
    exact CountInv.saveDbc hcounted hsaved (by simp [dbc?_isSome_iff, hmem])

theorem splitHistory_counted {ccMeta : MCONTACT} (list : List EventItem) (h : Counted s)
    (hsaved : SavedBut s ccMeta) (hc : ccMeta ∈ s.m_cache)
    : Counted (s.splitHistory ccMeta list).1 ∧ SavedBut (s.splitHistory ccMeta list).1 ccMeta ∧
        ccMeta ∈ (s.splitHistory ccMeta list).1.m_cache := by
  induction list generalizing s with
  | nil => exact ⟨h, hsaved, hc⟩
  | cons EI list ih =>
    unfold Store.splitHistory
    split
    . exact ⟨h, hsaved, hc⟩
    . next hmem =>
      dsimp only
      rw [updateCached_eq_updateDbc (h.ne_zero hc)]
      apply ih
      . exact h.delKey (k := EI.key ccMeta) (not_not.1 hmem) (fun _ => rfl)
      . have : SavedBut (s.delKey (EI.key ccMeta)) ccMeta := hsaved
        exact this.updateDbc
      . rw [mem_updateDbc_m_cache]
        exact hc

theorem CountInv.MetaSplitHistory (h : CountInv s) {ccMeta ccSub : MCONTACT}
    (hok : (s.MetaSplitHistory ccMeta ccSub).2 = true)
    : CountInv (s.MetaSplitHistory ccMeta ccSub).1 := by
  unfold Store.MetaSplitHistory at hok ⊢
  split
  . exact h
  . next hcached =>
    have hmeta : ccMeta ∈ s.m_cache := by tauto
    rw [if_neg hcached] at hok
    have hsplit := splitHistory_counted (s.GatherContactHistory ccSub) h.toCounted
      (h.savedBut ccMeta) hmeta
    rcases hsplit with ⟨hcounted, hsaved, hmem⟩
    dsimp only at hok ⊢
    split
    . rw [saveCached_eq_saveDbc (h.ne_zero hmeta)]
      exact CountInv.saveDbc hcounted hsaved (by simp [dbc?_isSome_iff, hmem])
    . next hfail =>
      rw [if_neg hfail] at hok
      cases hok

theorem historyKeys_eq_nil (hnone : s.countOf c = 0) : s.historyKeys c = [] := by
  rw [List.eq_nil_iff_forall_not_mem]
  intro k hk
  rw [mem_historyKeys] at hk
  have := (Table.count_eq_zero_iff _).1 hnone k hk.1
  simp [hk.2] at this

theorem CountInv.MetaRemoveSubHistory (h : CountInv s) (hnone : s.countOf c = 0)
    : CountInv (s.MetaRemoveSubHistory env c).1 := by
  unfold Store.MetaRemoveSubHistory
  split
  . exact h
  . unfold GatherContactHistory
    rw [historyKeys_eq_nil hnone]
    exact h

theorem countOf_foldl_delKey {keys : List DBEventSortingKey} (hkeys : ∀ k ∈ keys, k.hContact ≠ c)
    : (keys.foldl delKey s).countOf c = s.countOf c := by
  induction keys generalizing s with
  | nil => rfl
  | cons k keys ih =>
    rw [List.foldl_cons, ih (fun k' hk' => hkeys k' (by simp [hk']))]
    by_cases hmem : k ∈ s.m_dbEventsSort
    . rw [countOf_delKey hmem, if_neg (Ne.symm (hkeys k (by simp)))]
      rfl
    . unfold countOf
      rw [delKey_m_dbEventsSort, Table.del_of_notMem hmem]

theorem CountInv.removeContact (h : CountInv s) (hc : c ≠ 0) (cc : DBCachedContact)
    : CountInv ((s.wipeHistory env c cc).removeContact c) := by
  have hcount (c' : MCONTACT) (hne : c' ≠ c)
      : ((s.wipeHistory env c cc).removeContact c).countOf c' = s.countOf c' := by
    have : ((s.historyKeys c).foldl delKey s).countOf c' = s.countOf c' :=
      countOf_foldl_delKey (fun k hk => (mem_historyKeys.1 hk).2 ▸ hne.symm)
    rw [← this]
    unfold wipeHistory
    dsimp only
    rw [foldl_delEvent_frame]
    rfl
  have hgone : ((s.wipeHistory env c cc).removeContact c).countOf c = 0 := by
    refine (Table.count_eq_zero_iff _).2 ?_
    intro k hk
    simpa using (WellFormed.mem_wipeHistory_m_dbEventsSort.1 hk).2
  refine ⟨⟨h.toWellFormed.removeContact cc, ?count, ?room⟩, ?saved⟩
  case count =>
    intro c' dbc hsome
    rw [dbc?_removeContact hc] at hsome
    split at hsome
    . cases hsome
    . next hne =>
      rw [dbc?_wipeHistory] at hsome
      rw [hcount c' hne]
      exact h.count c' dbc hsome
  case room =>
    intro c'
    by_cases heq : c' = c
    . rw [heq, hgone]
      exact Nat.two_pow_pos 32
    . rw [hcount c' heq]
      exact h.room c'
  case saved =>
    intro c'
    rw [dbc?_removeContact hc, saved?_removeContact hc, dbc?_wipeHistory, saved?_wipeHistory,
      h.saved]

theorem CountInv.DeleteContact (h : CountInv s) (hok : (s.DeleteContact env c).2 = true)
    : CountInv (s.DeleteContact env c).1 := by
  have houtcome := DeleteContact_outcome s env c
  generalize s.DeleteContact env c = r at houtcome hok
  cases houtcome with
  | refused => exact h
  | half cc hcc hstored => cases hok
  | done cc hcc hstored =>
    exact h.removeContact (h.ne_zero (Table.mem_iff_exists.2 ⟨cc, hcc⟩)) cc

theorem CountInv.AddContact (h : CountInv s) (hroom : s.m_maxContactId + 1 < 2 ^ 32)
    : CountInv s.AddContact.1 := by
  by_cases hmem : s.m_maxContactId + 1 ∈ s.m_cache
  . rw [AddContact_of_mem hroom hmem]
    apply CountInv.saveDbc
    . exact ⟨⟨h.zero, h.stored, h.owned, h.oneByte⟩, h.count, h.room⟩
    . exact h.savedBut _
    . exact dbc?_isSome_iff.2 (.inr hmem)
  . have hnone : s.countOf (s.m_maxContactId + 1) = 0 := by
      refine (Table.count_eq_zero_iff _).2 ?_
      intro k hk
      rcases h.owned k hk with hzero | hcached
      . simp [hzero]
      . have : k.hContact ≠ s.m_maxContactId + 1 := fun heq => hmem (heq ▸ hcached)
        simpa using this
    have hcount (c : MCONTACT) : s.AddContact.1.countOf c = s.countOf c := by
      unfold countOf
      rw [AddContact_m_dbEventsSort]
    refine ⟨⟨h.toWellFormed.AddContact hroom, ?count, ?room⟩, ?saved⟩
    case count =>
      intro c dbc hsome
      rw [dbc?_AddContact hroom hmem] at hsome
      rw [hcount]
      split at hsome
      . next heq =>
        cases hsome
        rw [heq, hnone]
      . exact h.count c dbc hsome
    case room =>
      intro c
      rw [hcount]
      exact h.room c
    case saved =>
      intro c
      rw [dbc?_AddContact hroom hmem, saved?_AddContact hroom hmem, h.saved]

theorem CountInv.SetLinks (h : CountInv s) (links : MetaLinks)
    : CountInv (s.SetLinks c links) := by
  refine ⟨⟨h.toWellFormed.SetLinks links, ?_, h.room⟩, ?_⟩
  . intro c' dbc hsome
    rw [dbc?_SetLinks] at hsome
    exact h.count c' dbc hsome
  . intro c'
    rw [dbc?_SetLinks]
    exact h.saved c'

theorem CountInv.Load (h : CountInv s) (links : MCONTACT → MetaLinks)
    : CountInv (s.Load links) := by
  refine ⟨⟨h.toWellFormed.Load links, ?_, h.room⟩, ?_⟩
  . intro c dbc hsome
    rw [dbc?_Load, h.saved] at hsome
    exact h.count c dbc hsome
  . intro c
    rw [dbc?_Load]
    rfl

theorem CountInv.create (m_crypto : MICryptoEngine) (m_bEncrypted : Bool)
    : CountInv (create m_crypto m_bEncrypted) := by
  refine ⟨⟨.create m_crypto m_bEncrypted, ?_, fun _ => Nat.two_pow_pos 32⟩, ?_⟩
  . intro c dbc hsome
    unfold dbc? contact? Store.create at hsome
    split at hsome
    . cases hsome
      rfl
    . cases hsome
  . intro c
    unfold saved? dbc? contact? Store.create
    split <;> rfl

/--
A call after which the counters still follow the sorting keys: the keys it writes are new, no counter
and no contact number is at its limit, and the history of a sub is removed only when it is empty.
-/
def CountSafe (s : Store) : Call → Prop
  | .AddContact => s.m_maxContactId + 1 < 2 ^ 32
  | .AddEvent _ contactID dbei =>
    s.FilesNew contactID ((s.m_dwMaxEventId + 1) % 2 ^ 32) dbei.getUnixtime
  | .EditEvent _ hDbEvent dbei =>
    ∀ data, s.m_dbEvents.get? hDbEvent = some data →
      s.FilesNew data.dbe.dwContactID hDbEvent
        { dbei with iTimestamp := data.dbe.timestamp }.getUnixtime
  | .MetaMergeHistory ccMeta ccSub =>
    (s.mergedKeys ccMeta ccSub).Nodup ∧
    (∀ k ∈ s.mergedKeys ccMeta ccSub, k ∉ s.m_dbEventsSort) ∧
    s.countOf ccMeta + (s.mergedKeys ccMeta ccSub).length < 2 ^ 32
  | .MetaRemoveSubHistory _ ccSub => s.countOf ccSub = 0
  | _ => True

theorem CountInv.step (h : CountInv s) (call : Call) (hok : s.Succeeds call)
    (hsafe : s.CountSafe call)
    : CountInv (s.step call) := by
  cases call with
  | AddContact => exact h.AddContact hsafe
  | DeleteContact env contactID => exact h.DeleteContact hok
  | AddEvent env contactID dbei =>
    show CountInv (s.AddEvent env contactID dbei).1
    unfold Store.AddEvent
    split
    . exact h
    . have hmax : CountInv { s with m_dwMaxEventId := (s.m_dwMaxEventId + 1) % 2 ^ 32 } :=
        ⟨⟨⟨h.zero, h.stored, h.owned, h.oneByte⟩, h.count, h.room⟩, h.saved⟩
      exact hmax.EditEvent' hsafe
  | EditEvent env hDbEvent dbei =>
    show CountInv (s.EditEvent env hDbEvent dbei).1
    unfold Store.EditEvent
    split
    . exact h
    . split
      . exact h
      . next data hdata => exact h.EditEvent' (hsafe data hdata)
  | DeleteEvent env hDbEvent => exact h.DeleteEvent
  | MarkEventRead env contactID hDbEvent => exact h.MarkEventRead
  | MetaMergeHistory ccMeta ccSub => exact h.MetaMergeHistory hsafe.1 hsafe.2.1 hsafe.2.2
  | MetaSplitHistory ccMeta ccSub => exact h.MetaSplitHistory hok
  | MetaRemoveSubHistory env ccSub => exact h.MetaRemoveSubHistory hsafe
  | SetLinks contactID links => exact h.SetLinks links
  | SetCacheSafetyMode bIsSet =>
    exact ⟨⟨⟨h.zero, h.stored, h.owned, h.oneByte⟩, h.count, h.room⟩, h.saved⟩
  | Load links => exact h.Load links

def CountsKeys (s : Store) (c : MCONTACT) : Prop :=
  s.GetEventCount c = s.countOf c ∧ (s.saved? c).map (·.dwEventCount) = some (s.countOf c)

theorem CountInv.countsKeys (h : CountInv s) (hc : (s.contact? c).isSome) : s.CountsKeys c := by
  rcases Option.isSome_iff_exists.1 hc with ⟨cc, hcc⟩
  have hdbc : s.dbc? c = some cc.dbc := by simp [dbc?, hcc]
  have hcount := h.count c cc.dbc hdbc
  constructor
  . unfold contact? at hcc
    unfold GetEventCount
    split at hcc
    . next hzero =>
      cases hcc
      rw [if_pos hzero, hcount]
    . next hne =>
      rw [if_neg hne, hcc]
      exact hcount
  . rw [h.saved, hdbc, Option.map_some, hcount]

theorem countsKeys_of_run {m_crypto : MICryptoEngine} {m_bEncrypted : Bool} {s : Store}
    (h : Run step (fun s call => s.Succeeds call ∧ s.CountSafe call)
      (create m_crypto m_bEncrypted) s)
    (c : MCONTACT) (hc : (s.contact? c).isSome)
    : s.CountsKeys c := by
  have hinv : CountInv s := by
    refine h.inv (I := CountInv) ?_ (.create m_crypto m_bEncrypted)
    intro s call hs hok
    exact hs.step call hok.1 hok.2
  exact hinv.countsKeys hc

theorem countsKeys_of_add
    : ((create default false).step .AddContact |>.step (.AddEvent {} 1 { iTimestamp := 5 })
        ).CountsKeys 1 := by
  have hadd : Run step (fun s call => s.Succeeds call ∧ s.CountSafe call) (create default false)
      ((create default false).step .AddContact) :=
    .call .init _ ⟨rfl, Nat.lt_of_sub_pos (by decide)⟩
  refine countsKeys_of_run (hadd.call _ ⟨by decide, ?_⟩) 1 (by decide)
  intro cc ccSub h
  have heq : ((create default false).step .AddContact).historyOf 1 = some (1, none) := by decide
  rw [heq] at h
  cases h
  exact ⟨by decide, by simp⟩

-- Editing an event counts it a second time.
theorem not_countsKeys_of_edit
    : ¬ ∀ (m_crypto : MICryptoEngine) (m_bEncrypted : Bool) (s : Store),
        Run step Succeeds (create m_crypto m_bEncrypted) s →
        ∀ c, (s.contact? c).isSome → s.CountsKeys c := by
  intro h
  let s₁ := (create default false).step .AddContact
  let s₂ := s₁.step (.AddEvent {} 1 { iTimestamp := 5 })
  let s₃ := s₂.step (.EditEvent {} 1 { iTimestamp := 5 })
  have h₁ : Run step Succeeds (create default false) s₁ := .call .init _ rfl
  have h₂ : Run step Succeeds (create default false) s₂ := .call h₁ _ (by decide)
  have h₃ : Run step Succeeds (create default false) s₃ := .call h₂ _ (by decide)
  have hcount := (h default false s₃ h₃ 1 (by decide)).1
  have htwo : s₃.GetEventCount 1 = 2 := by decide
  have hone : s₃.countOf 1 = 1 := by decide
  rw [htwo, hone] at hcount
  cases hcount

end Store
end Dbx
