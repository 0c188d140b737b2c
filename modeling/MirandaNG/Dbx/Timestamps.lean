import MirandaNG.Dbx.SubHistory
import MirandaNG.Dbx.FirstUnread.Run
import MirandaNG.Dbx.EventIds

/-!
This module contains what the calls do to the timestamps of the events and to the sorting keys. Most
calls leave the timestamps alone and take keys away at most; the others write one event, or copy the
keys of a sub.
-/

namespace Dbx

open Kv

namespace Store

def timestamp? (s : Store) (e : MEVENT) : Option Nat :=
  (s.m_dbEvents.get? e).map (·.dbe.timestamp)

structure Shrinks (s s' : Store) : Prop where
  events : ∀ e ts, s'.timestamp? e = some ts → s.timestamp? e = some ts
  keys : ∀ k, k ∈ s'.m_dbEventsSort → k ∈ s.m_dbEventsSort
  max : s'.m_dwMaxEventId = s.m_dwMaxEventId

structure Keeps (s s' : Store) : Prop where
  events : ∀ e, s'.timestamp? e = s.timestamp? e
  keys : ∀ k, k ∈ s'.m_dbEventsSort → k ∈ s.m_dbEventsSort
  max : s'.m_dwMaxEventId = s.m_dwMaxEventId

structure Files (s s' : Store) (e : MEVENT) (ts : Nat) : Prop where
  events : ∀ e', s'.timestamp? e' = if e' = e then some ts else s.timestamp? e'
  keys : ∀ k, k ∈ s'.m_dbEventsSort → k ∈ s.m_dbEventsSort ∨ k.hEvent = e ∧ k.ts = ts
  max : s'.m_dwMaxEventId = s.m_dwMaxEventId

variable {s s' t : Store} {env : Env} {c : MCONTACT} {e : MEVENT} {data : EventRecord}
variable {k : DBEventSortingKey}

theorem Keeps.refl (s : Store) : Keeps s s where
  events _ := rfl
  keys _ := id
  max := rfl

theorem Keeps.trans (h : Keeps s t) (h' : Keeps t s') : Keeps s s' where
  events e := (h'.events e).trans (h.events e)
  keys k hk := h.keys k (h'.keys k hk)
  max := h'.max.trans h.max

theorem Keeps.shrinks (h : Keeps s s') : Shrinks s s' where
  events e _ hts := h.events e ▸ hts
  keys := h.keys
  max := h.max

theorem Shrinks.trans (h : Shrinks s t) (h' : Shrinks t s') : Shrinks s s' where
  events e ts hts := h.events e ts (h'.events e ts hts)
  keys k hk := h.keys k (h'.keys k hk)
  max := h'.max.trans h.max

theorem Keeps.of_eq (hevents : s'.m_dbEvents = s.m_dbEvents)
    (hkeys : s'.m_dbEventsSort = s.m_dbEventsSort) (hmax : s'.m_dwMaxEventId = s.m_dwMaxEventId)
    : Keeps s s' where
  events e := by
    unfold timestamp?
    rw [hevents]
  keys k hk := hkeys ▸ hk
  max := hmax

theorem Keeps.delKey (s : Store) (k : DBEventSortingKey) : Keeps s (s.delKey k) where
  events _ := rfl
  keys _ hk := (Table.mem_del.1 hk).2
  max := rfl

theorem timestamp?_putEvent {e' : MEVENT}
    : (s.putEvent e data).timestamp? e' =
        if e' = e then some data.dbe.timestamp else s.timestamp? e' := by
  unfold timestamp?
  rw [putEvent_m_dbEvents, Table.get?_put]
  split <;> rfl

theorem Keeps.saveCached (s : Store) (c : MCONTACT) : Keeps s (s.saveCached c) := by
  unfold Store.saveCached
  split
  . apply Keeps.refl
  . apply Keeps.of_eq <;> rfl

theorem Keeps.refreshUnread (s : Store) (env : Env) (k : DBEventSortingKey)
    : Keeps s (s.refreshUnread env k) := by
  have hupdate : Keeps s (s.updateCached k.hContact (s.FindNextUnread env k.hContact k)) :=
    .of_eq rfl rfl rfl
  exact hupdate.trans (.saveCached _ _)

theorem Keeps.setRead (h : s.m_dbEvents.get? e = some data) : Keeps s (s.setRead e data) where
  events e' := by
    unfold Store.setRead
    dsimp only
    rw [timestamp?_putEvent]
    split
    . next heq =>
      unfold timestamp?
      rw [heq, h]
      rfl
    . rfl
  keys _ := id
  max := rfl

theorem Keeps.MarkEventRead (s : Store) (env : Env) (c : MCONTACT) (e : MEVENT)
    : Keeps s (s.MarkEventRead env c e).1 := by
  have houtcome := MarkEventRead_outcome s env c e
  generalize (s.MarkEventRead env c e).1 = r at houtcome
  cases houtcome with
  | refused => apply Keeps.refl
  | single data hguard => exact (Keeps.setRead hguard.found).trans (.refreshUnread _ _ _)
  | double data c₂ hguard =>
    exact ((Keeps.setRead hguard.found).trans (.refreshUnread _ _ _)).trans (.refreshUnread _ _ _)

theorem Keeps.splitHistory (s : Store) (ccMeta : MCONTACT) (list : List EventItem)
    : Keeps s (s.splitHistory ccMeta list).1 := by
  induction list generalizing s with
  | nil => apply Keeps.refl
  | cons EI list ih =>
    unfold Store.splitHistory
    split
    . apply Keeps.refl
    . have hcount (s : Store) (f : DBContact → DBContact) : Keeps s (s.updateCached ccMeta f) :=
        .of_eq rfl rfl rfl
      exact ((Keeps.delKey s _).trans (hcount _ _)).trans (ih _)

theorem Keeps.MetaSplitHistory (s : Store) (ccMeta ccSub : MCONTACT)
    : Keeps s (s.MetaSplitHistory ccMeta ccSub).1 := by
  unfold Store.MetaSplitHistory
  split
  . apply Keeps.refl
  . dsimp only
    split
    . exact (Keeps.splitHistory s _ _).trans (.saveCached _ _)
    . apply Keeps.splitHistory

theorem Keeps.rewriteOwner (s : Store) (env : Env) (parentID : MCONTACT) (e : MEVENT)
    : Keeps s (s.rewriteOwner env parentID e) where
  events e' := by
    unfold timestamp?
    rw [get?_rewriteOwner]
    split
    . rw [Option.map_map]
      rfl
    . rfl
  keys k hk := by
    rw [rewriteOwner_frame] at hk
    exact hk
  max := by rw [rewriteOwner_frame]

theorem Keeps.removeSubHistory (s : Store) (env : Env) (ccSub parentID : MCONTACT)
    (list : List EventItem)
    : Keeps s (s.removeSubHistory env ccSub parentID list).1 := by
  induction list generalizing s with
  | nil => apply Keeps.refl
  | cons EI list ih =>
    unfold Store.removeSubHistory
    dsimp only
    split
    . apply Keeps.rewriteOwner
    . exact ((Keeps.rewriteOwner s env parentID _).trans (.delKey _ _)).trans (ih _)

theorem Keeps.MetaRemoveSubHistory (s : Store) (env : Env) (ccSub : MCONTACT)
    : Keeps s (s.MetaRemoveSubHistory env ccSub).1 := by
  unfold Store.MetaRemoveSubHistory
  split
  . apply Keeps.refl
  . apply Keeps.removeSubHistory

theorem Keeps.AddContact (s : Store) : Keeps s s.AddContact.1 :=
  .of_eq AddContact_m_dbEvents AddContact_m_dbEventsSort AddContact_m_dwMaxEventId

theorem Keeps.insertModule (s : Store) (szName : Option CStr) : Keeps s (s.insertModule szName) := by
  rcases insertModule_frame s szName with ⟨dbModules, modules, hframe⟩
  rw [hframe]
  apply Keeps.of_eq <;> rfl

theorem Keeps.unfileEvent (s : Store) (env : Env) (k : DBEventSortingKey)
    : Keeps s (s.unfileEvent env k) := by
  have hdrop : Keeps (s.delKey k) (s.unfileEvent env k) :=
    .of_eq unfileEvent_m_dbEvents unfileEvent_m_dbEventsSort unfileEvent_m_dwMaxEventId
  exact (Keeps.delKey s k).trans hdrop

theorem unfileCached_m_dbEventsSort
    : (s.unfileCached env k).m_dbEventsSort = s.m_dbEventsSort.del k := by
  unfold unfileCached
  dsimp only
  rw [saveCached_m_dbEventsSort]
  rfl

theorem Keeps.unfileCached (s : Store) (env : Env) (k : DBEventSortingKey)
    : Keeps s (s.unfileCached env k) := by
  have hdrop : Keeps (s.delKey k) (s.unfileCached env k) :=
    .of_eq unfileCached_m_dbEvents unfileCached_m_dbEventsSort unfileCached_m_dwMaxEventId
  exact (Keeps.delKey s k).trans hdrop

theorem timestamp?_eraseRecord {e' : MEVENT}
    : (s.eraseRecord env e data).timestamp? e' = if e' = e then none else s.timestamp? e' := by
  unfold timestamp?
  rw [eraseRecord_m_dbEvents, Table.get?_del]
  split <;> rfl

theorem Shrinks.eraseRecord (s : Store) (env : Env) (e : MEVENT) (data : EventRecord)
    : Shrinks s (s.eraseRecord env e data) where
  events e' ts hts := by
    rw [timestamp?_eraseRecord] at hts
    split at hts
    . cases hts
    . exact hts
  keys k hk := by
    rw [eraseRecord_m_dbEventsSort] at hk
    exact hk
  max := eraseRecord_m_dwMaxEventId

theorem Shrinks.DeleteEvent (s : Store) (env : Env) (e : MEVENT)
    : Shrinks s (s.DeleteEvent env e).1 := by
  have houtcome := DeleteEvent_outcome s env e
  generalize s.DeleteEvent env e = r at houtcome
  cases houtcome with
  | refused => exact (Keeps.refl s).shrinks
  | single data hguard => exact (Keeps.unfileEvent s env _).shrinks.trans (.eraseRecord _ _ _ _)
  | half data c₂ hguard hfiled => exact (Keeps.unfileEvent s env _).shrinks
  | double data c₂ hguard hfiled =>
    apply Shrinks.trans ((Keeps.unfileEvent s env _).trans (.unfileCached _ env _)).shrinks
    apply Shrinks.eraseRecord

theorem timestamp?_wipeHistory {cc : DBCachedContact}
    : (s.wipeHistory env c cc).timestamp? e =
        if e ∈ DeleteContact.events env cc (s.historyKeys c) then none else s.timestamp? e := by
  unfold timestamp? wipeHistory
  dsimp only
  rw [get?_foldl_delEvent, foldl_delKey_frame]
  split <;> rfl

theorem Shrinks.wipeHistory (s : Store) (env : Env) (c : MCONTACT) (cc : DBCachedContact)
    : Shrinks s (s.wipeHistory env c cc) where
  events e ts hts := by
    rw [timestamp?_wipeHistory] at hts
    split at hts
    . cases hts
    . exact hts
  keys k hk := (WellFormed.mem_wipeHistory_m_dbEventsSort.1 hk).1
  max := by
    unfold Store.wipeHistory
    dsimp only
    rw [foldl_delEvent_frame, foldl_delKey_frame]

theorem Keeps.removeContact (s : Store) (c : MCONTACT) : Keeps s (s.removeContact c) :=
  .of_eq rfl rfl rfl

theorem Shrinks.DeleteContact (s : Store) (env : Env) (c : MCONTACT)
    : Shrinks s (s.DeleteContact env c).1 := by
  have houtcome := DeleteContact_outcome s env c
  generalize s.DeleteContact env c = r at houtcome
  cases houtcome with
  | refused => exact (Keeps.refl s).shrinks
  | half cc hcc hstored => apply Shrinks.wipeHistory
  | done cc hcc hstored => exact (Shrinks.wipeHistory s env c cc).trans (Keeps.removeContact _ c).shrinks

theorem Files.writeEvent {cc : MCONTACT} {ccSub : Option MCONTACT} {szId : Option CStr}
    : Files s (s.writeEvent cc ccSub e data szId) e data.dbe.timestamp where
  events e' := by
    unfold timestamp?
    rw [writeEvent_m_dbEvents, Table.get?_put]
    split <;> rfl
  keys k hk := by
    rcases mem_writeEvent_m_dbEventsSort.1 hk with hold | ⟨hnew, _⟩
    . exact .inl hold
    . rw [hnew]
      exact .inr ⟨rfl, rfl⟩
  max := writeEvent_m_dwMaxEventId

theorem Files.of_keeps {ts : Nat} (h : Keeps s t) (h' : Files t s' e ts) : Files s s' e ts where
  events e' := by
    rw [h'.events, h.events]
  keys k hk := (h'.keys k hk).imp_left (h.keys k)
  max := h'.max.trans h.max

theorem EditEvent'_files (s : Store) (env : Env) (c : MCONTACT) (e : MEVENT) (dbei : DBEVENTINFO)
    (bNew : Bool)
    : Keeps s (s.EditEvent' env c e dbei bNew).1 ∨
        (s.historyOf c).isSome ∧ Files s (s.EditEvent' env c e dbei bNew).1 e dbei.getUnixtime := by
  have houtcome := EditEvent'_outcome s env c e dbei bNew
  generalize s.EditEvent' env c e dbei bNew = r at houtcome
  cases houtcome with
  | refused => exact .inl (.insertModule s _)
  | done cc ccSub hhistory hfilter =>
    apply Or.inr
    constructor
    . rw [hhistory]
      rfl
    . have hts := @makeRecord_timestamp (s.insertModule dbei.szModule) env c (moduleID dbei.szModule) dbei
      rw [← hts]
      exact .of_keeps (.insertModule s _) .writeEvent

theorem timestamp?_MetaMergeHistory (s : Store) (ccMeta ccSub : MCONTACT) (e : MEVENT)
    : (s.MetaMergeHistory ccMeta ccSub).1.timestamp? e = s.timestamp? e := by
  unfold MetaMergeHistory
  split
  . rfl
  . dsimp only
    rw [(Keeps.saveCached _ _).events, mergeHistory_eq]
    rfl

theorem MetaMergeHistory_m_dwMaxEventId (s : Store) (ccMeta ccSub : MCONTACT)
    : (s.MetaMergeHistory ccMeta ccSub).1.m_dwMaxEventId = s.m_dwMaxEventId := by
  unfold MetaMergeHistory
  split
  . rfl
  . dsimp only
    rw [(Keeps.saveCached _ _).max, mergeHistory_eq]
    rfl

theorem mem_MetaMergeHistory_imp {ccMeta ccSub : MCONTACT}
    (hk : k ∈ (s.MetaMergeHistory ccMeta ccSub).1.m_dbEventsSort)
    : k ∈ s.m_dbEventsSort ∨ (ccMeta ∈ s.m_cache ∧ ccSub ∈ s.m_cache) ∧ k ∈ s.mergedKeys ccMeta ccSub := by
  by_cases hcached : ccMeta ∈ s.m_cache ∧ ccSub ∈ s.m_cache
  . rw [mem_MetaMergeHistory hcached.1 hcached.2] at hk
    exact hk.imp_right (fun h => ⟨hcached, h⟩)
  . apply Or.inl
    unfold MetaMergeHistory at hk
    rw [if_pos (by tauto)] at hk
    exact hk

theorem Load_m_dwMaxEventId {links : MCONTACT → MetaLinks}
    : (s.Load links).m_dwMaxEventId = (s.m_dbEvents.last?.map Prod.fst).getD 0 := rfl

theorem timestamp?_isSome_iff : (s.timestamp? e).isSome ↔ e ∈ s.m_dbEvents := by
  unfold timestamp?
  rw [Option.isSome_map]
  exact Iff.rfl

end Store
end Dbx
