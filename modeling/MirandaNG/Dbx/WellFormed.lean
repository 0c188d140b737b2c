import MirandaNG.Dbx.Outcome

/-!
This module contains the invariant every reachable store has: contact 0 is never one of the cache,
the cache has the contacts the tables have, and every sorting key belongs to a contact that exists and carries the one byte it was put with. It
is preserved building block by building block, and so by every call.
-/

namespace Dbx

open Kv Crypt Transition

namespace Store

structure WellFormed (s : Store) : Prop where
  zero : 0 ∉ s.m_cache
  stored : ∀ c, c ∈ s.m_dbContacts ↔ c ∈ s.m_cache
  owned : ∀ k ∈ s.m_dbEventsSort, k.hContact = 0 ∨ k.hContact ∈ s.m_cache
  oneByte : ∀ k v, s.m_dbEventsSort.get? k = some v → v = [0]

variable {s : Store} {env : Env} {c : MCONTACT} {e : MEVENT} {dbe : DBEvent}
variable {data : EventRecord} {k : DBEventSortingKey} {f : DBContact → DBContact}

namespace WellFormed

theorem ne_zero (h : WellFormed s) (hc : c ∈ s.m_cache) : c ≠ 0 := by
  intro heq
  exact h.zero (heq ▸ hc)

theorem owner (h : WellFormed s) (hk : k ∈ s.m_dbEventsSort) : (s.dbc? k.hContact).isSome :=
  dbc?_isSome_iff.2 (h.owned k hk)

theorem putKey (h : WellFormed s) (hc : (s.dbc? k.hContact).isSome) : WellFormed (s.putKey k) where
  zero := h.zero
  stored := h.stored
  owned k' hk' := by
    rcases Table.mem_put.1 hk' with rfl | hk'
    . exact dbc?_isSome_iff.1 hc
    . exact h.owned k' hk'
  oneByte k' v hv := by
    rw [putKey_m_dbEventsSort, Table.get?_put] at hv
    split at hv
    . cases hv
      rfl
    . exact h.oneByte k' v hv

theorem delKey (h : WellFormed s) (k : DBEventSortingKey) : WellFormed (s.delKey k) where
  zero := h.zero
  stored := h.stored
  owned k' hk' := h.owned k' (Table.mem_del.1 hk').2
  oneByte k' v hv := by
    rw [delKey_m_dbEventsSort, Table.get?_del] at hv
    split at hv
    . cases hv
    . exact h.oneByte k' v hv

theorem putEvent (h : WellFormed s) (e : MEVENT) (data : EventRecord)
    : WellFormed (s.putEvent e data) :=
  ⟨h.zero, h.stored, h.owned, h.oneByte⟩

theorem delEvent (h : WellFormed s) (e : MEVENT) : WellFormed (s.delEvent e) :=
  ⟨h.zero, h.stored, h.owned, h.oneByte⟩

theorem updateDbc (h : WellFormed s) (c : MCONTACT) (f : DBContact → DBContact)
    : WellFormed (s.updateDbc c f) where
  zero := by
    rw [mem_updateDbc_m_cache]
    exact h.zero
  stored c' := by
    rw [mem_updateDbc_m_cache, updateDbc_frame]
    exact h.stored c'
  owned k hk := by
    rw [updateDbc_m_dbEventsSort] at hk
    rw [mem_updateDbc_m_cache]
    exact h.owned k hk
  oneByte := by
    rw [updateDbc_m_dbEventsSort]
    exact h.oneByte

theorem saveDbc (h : WellFormed s) (c : MCONTACT) : WellFormed (s.saveDbc c) where
  zero := by
    rw [saveDbc_m_cache]
    exact h.zero
  stored c' := by
    rw [saveDbc_m_cache]
    unfold Store.saveDbc saveCached
    split
    . exact h.stored c'
    . split
      . exact h.stored c'
      . next cc hcc =>
        rw [Table.mem_put, h.stored]
        have : c ∈ s.m_cache := Table.mem_iff_exists.2 ⟨cc, hcc⟩
        constructor
        . rintro (rfl | hmem)
          . exact this
          . exact hmem
        . exact .inr
  owned k hk := by
    rw [saveDbc_m_dbEventsSort] at hk
    rw [saveDbc_m_cache]
    exact h.owned k hk
  oneByte := by
    rw [saveDbc_m_dbEventsSort]
    exact h.oneByte

theorem updateCached (h : WellFormed s) (hc : c ∈ s.m_cache) (f : DBContact → DBContact)
    : WellFormed (s.updateCached c f) := by
  rw [updateCached_eq_updateDbc (h.ne_zero hc)]
  exact h.updateDbc c f

theorem saveCached (h : WellFormed s) (hc : c ∈ s.m_cache) : WellFormed (s.saveCached c) := by
  rw [saveCached_eq_saveDbc (h.ne_zero hc)]
  exact h.saveDbc c

theorem fileEvent (h : WellFormed s) (hc : (s.dbc? c).isSome)
    : WellFormed (s.fileEvent c e dbe) :=
  ((h.putKey (k := ⟨c, e, dbe.timestamp⟩) hc).updateDbc _ _).saveDbc _

theorem writeEvent (h : WellFormed s) {cc : MCONTACT} {ccSub : Option MCONTACT}
    (hhistory : s.historyOf c = some (cc, ccSub)) (szId : Option CStr)
    : WellFormed (s.writeEvent cc ccSub e data szId) := by
  rcases historyOf_isSome hhistory with ⟨hcc, hsub⟩
  have hfirst : WellFormed ((s.putEvent e data).fileEvent cc e data.dbe) :=
    (h.putEvent e data).fileEvent hcc
  have hboth : WellFormed (((s.putEvent e data).fileEvent cc e data.dbe).fileSub ccSub e
      data.dbe) := by
    cases ccSub with
    | none => exact hfirst
    | some c' =>
      apply hfirst.fileEvent
      rw [dbc?_fileEvent]
      split
      . simpa using hcc
      . exact hsub c' rfl
  cases szId with
  | none => exact hboth
  | some szId => exact ⟨hboth.zero, hboth.stored, hboth.owned, hboth.oneByte⟩

theorem insertModule (h : WellFormed s) (szName : Option CStr)
    : WellFormed (s.insertModule szName) := by
  rcases insertModule_frame s szName with ⟨dbModules, modules, hframe⟩
  rw [hframe]
  exact ⟨h.zero, h.stored, h.owned, h.oneByte⟩

theorem EditEvent' (h : WellFormed s) (dbei : DBEVENTINFO) (bNew : Bool)
    : WellFormed (s.EditEvent' env c e dbei bNew).1 := by
  have houtcome := EditEvent'_outcome s env c e dbei bNew
  generalize s.EditEvent' env c e dbei bNew = r at houtcome
  cases houtcome with
  | refused => exact h.insertModule _
  | done cc ccSub hhistory hfilter =>
    apply (h.insertModule dbei.szModule).writeEvent (c := c)
    rcases insertModule_frame s dbei.szModule with ⟨dbModules, modules, hframe⟩
    rw [hframe]
    exact hhistory

theorem unfileEvent (h : WellFormed s) : WellFormed (s.unfileEvent env k) :=
  ((h.delKey k).updateDbc _ _).saveDbc _

theorem eraseRecord (h : WellFormed s) : WellFormed (s.eraseRecord env e data) := by
  unfold Store.eraseRecord
  dsimp only
  split <;> exact ⟨h.zero, h.stored, h.owned, h.oneByte⟩

theorem DeleteEvent (h : WellFormed s) : WellFormed (s.DeleteEvent env e).1 := by
  have houtcome := DeleteEvent_outcome s env e
  generalize s.DeleteEvent env e = r at houtcome
  cases houtcome with
  | refused => exact h
  | single data hguard => exact h.unfileEvent.eraseRecord
  | half data c₂ hguard hfiled => exact h.unfileEvent
  | double data c₂ hguard hfiled =>
    rcases hguard.checked with ⟨cc, hcc, hcount, hcheck⟩
    dsimp only
    rw [unfileCached_eq_unfileEvent (h.ne_zero (CheckEvent_mem hcheck))]
    exact h.unfileEvent.unfileEvent.eraseRecord

theorem refreshUnread (h : WellFormed s) (hc : k.hContact ∈ s.m_cache)
    : WellFormed (s.refreshUnread env k) :=
  (h.updateCached hc _).saveCached (Table.mem_modify.2 hc)

theorem mem_refreshUnread_m_cache : c ∈ (s.refreshUnread env k).m_cache ↔ c ∈ s.m_cache := by
  unfold Store.refreshUnread Store.saveCached
  dsimp only
  split <;> exact Table.mem_modify

theorem MarkEventRead (h : WellFormed s) : WellFormed (s.MarkEventRead env c e).1 := by
  have houtcome := MarkEventRead_outcome s env c e
  generalize (s.MarkEventRead env c e).1 = r at houtcome
  have hread (data : EventRecord) : WellFormed (s.setRead e data) := h.putEvent e _
  cases houtcome with
  | refused => exact h
  | single data hguard =>
    rcases hguard.checked with ⟨cc, hcc, hcheck⟩
    exact (hread data).refreshUnread (k := ⟨c, _, _⟩) (Table.mem_iff_exists.2 ⟨cc, hcc⟩)
  | double data c₂ hguard =>
    rcases hguard.checked with ⟨cc, hcc, hcheck⟩
    have hfirst : WellFormed ((s.setRead e data).refreshUnread env ⟨c, e, data.dbe.timestamp⟩) :=
      (hread data).refreshUnread (Table.mem_iff_exists.2 ⟨cc, hcc⟩)
    exact hfirst.refreshUnread (k := ⟨c₂, _, _⟩)
      (mem_refreshUnread_m_cache.2 (CheckEvent_mem hcheck))

theorem mergeHistory (h : WellFormed s) (hc : c ∈ s.m_cache) (list : List EventItem)
    : WellFormed (s.mergeHistory c list) ∧ c ∈ (s.mergeHistory c list).m_cache := by
  induction list generalizing s with
  | nil => exact ⟨h, hc⟩
  | cons EI list ih =>
    have hput := h.putKey (k := EI.key c) (dbc?_isSome_iff.2 (.inr hc))
    exact ih (hput.updateCached hc _) (Table.mem_modify.2 hc)

theorem splitHistory (h : WellFormed s) (hc : c ∈ s.m_cache) (list : List EventItem)
    : WellFormed (s.splitHistory c list).1 ∧ c ∈ (s.splitHistory c list).1.m_cache := by
  induction list generalizing s with
  | nil => exact ⟨h, hc⟩
  | cons EI list ih =>
    unfold Store.splitHistory
    split
    . exact ⟨h, hc⟩
    . exact ih ((h.delKey _).updateCached hc _) (Table.mem_modify.2 hc)

theorem removeSubHistory (h : WellFormed s) (ccSub parentID : MCONTACT) (list : List EventItem)
    : WellFormed (s.removeSubHistory env ccSub parentID list).1 := by
  induction list generalizing s with
  | nil => exact h
  | cons EI list ih =>
    have hrewrite : WellFormed (s.rewriteOwner env parentID EI.eventId) := by
      unfold rewriteOwner
      split
      . exact h
      . exact h.putEvent _ _
    unfold Store.removeSubHistory
    dsimp only
    split
    . exact hrewrite
    . exact ih (hrewrite.delKey _)

theorem wipeHistory (h : WellFormed s) (cc : DBCachedContact)
    : WellFormed (s.wipeHistory env c cc) := by
  unfold Store.wipeHistory
  dsimp only
  have hkeys (keys : List DBEventSortingKey) : WellFormed (keys.foldl Store.delKey s) := by
    induction keys generalizing s with
    | nil => exact h
    | cons k keys ih => exact ih (h.delKey k)
  rw [foldl_delEvent_frame]
  have := hkeys (s.historyKeys c)
  exact ⟨this.zero, this.stored, this.owned, this.oneByte⟩

theorem mem_wipeHistory_m_dbEventsSort {cc : DBCachedContact}
    : k ∈ (s.wipeHistory env c cc).m_dbEventsSort ↔ k ∈ s.m_dbEventsSort ∧ k.hContact ≠ c := by
  unfold Store.wipeHistory
  dsimp only
  rw [foldl_delEvent_frame, mem_foldl_delKey, mem_historyKeys]
  tauto

theorem removeContact (h : WellFormed s) (cc : DBCachedContact)
    : WellFormed ((s.wipeHistory env c cc).removeContact c) := by
  have hwipe : WellFormed (s.wipeHistory env c cc) := h.wipeHistory cc
  constructor
  case zero => exact fun hmem => hwipe.zero (Table.mem_del.1 hmem).2
  case stored =>
    intro c'
    show c' ∈ (s.wipeHistory env c cc).m_dbContacts.del c ↔
      c' ∈ (s.wipeHistory env c cc).m_cache.del c
    rw [Table.mem_del, Table.mem_del, hwipe.stored]
  case owned =>
    intro k hk
    have hne := (mem_wipeHistory_m_dbEventsSort.1 hk).2
    rcases hwipe.owned k hk with hzero | hmem
    . exact .inl hzero
    . exact .inr (Table.mem_del.2 ⟨hne, hmem⟩)
  case oneByte => exact hwipe.oneByte

theorem DeleteContact (h : WellFormed s) : WellFormed (s.DeleteContact env c).1 := by
  have houtcome := DeleteContact_outcome s env c
  generalize s.DeleteContact env c = r at houtcome
  cases houtcome with
  | refused => exact h
  | half cc hcc hstored => exact h.wipeHistory cc
  | done cc hcc hstored => exact h.removeContact cc

theorem AddContact (h : WellFormed s) (hroom : s.m_maxContactId + 1 < 2 ^ 32)
    : WellFormed s.AddContact.1 := by
  have hid : (s.m_maxContactId + 1) % 2 ^ 32 = s.m_maxContactId + 1 := Nat.mod_eq_of_lt hroom
  unfold Store.AddContact
  dsimp only
  rw [hid]
  generalize hc : s.m_maxContactId + 1 = c
  have hne : c ≠ 0 := hc ▸ Nat.succ_ne_zero _
  unfold AddContactToCache
  split
  . next hmem =>
    have hmax : WellFormed { s with m_maxContactId := c } := ⟨h.zero, h.stored, h.owned, h.oneByte⟩
    exact hmax.saveCached hmem
  . unfold Store.saveCached
    dsimp only
    rw [Table.get?_put_self]
    constructor
    case zero =>
      rw [Table.mem_put]
      rintro (heq | hmem)
      . exact hne heq.symm
      . exact h.zero hmem
    case stored =>
      intro c'
      rw [Table.mem_put, Table.mem_put, h.stored]
    case owned =>
      intro k hk
      rcases h.owned k hk with hzero | hmem
      . exact .inl hzero
      . exact .inr (Table.mem_put.2 (.inr hmem))
    case oneByte => exact h.oneByte

theorem SetLinks (h : WellFormed s) (links : MetaLinks) : WellFormed (s.SetLinks c links) where
  zero hmem := h.zero (Table.mem_modify.1 hmem)
  stored c' := (h.stored c').trans Table.mem_modify.symm
  owned k hk := by
    rcases h.owned k hk with hzero | hmem
    . exact .inl hzero
    . exact .inr (Table.mem_modify.2 hmem)
  oneByte := h.oneByte

theorem Load (h : WellFormed s) (links : MCONTACT → MetaLinks) : WellFormed (s.Load links) where
  zero hmem := h.zero ((h.stored 0).1 (Table.mem_mapValues.1 hmem))
  stored c' := Table.mem_mapValues.symm
  owned k hk := by
    rcases h.owned k hk with hzero | hmem
    . exact .inl hzero
    . exact .inr (Table.mem_mapValues.2 ((h.stored _).2 hmem))
  oneByte := h.oneByte

theorem create (m_crypto : MICryptoEngine) (m_bEncrypted : Bool)
    : WellFormed (create m_crypto m_bEncrypted) where
  zero := Table.notMem_iff.2 rfl
  stored _ := Iff.rfl
  owned _ hk := absurd hk (Table.notMem_iff.2 rfl)
  oneByte _ _ hv := by cases hv

theorem step (h : WellFormed s) (call : Call)
    (hroom : call = .AddContact → s.m_maxContactId + 1 < 2 ^ 32)
    : WellFormed (s.step call) := by
  cases call with
  | AddContact => exact h.AddContact (hroom rfl)
  | DeleteContact env contactID => exact h.DeleteContact
  | AddEvent env contactID dbei =>
    show WellFormed (s.AddEvent env contactID dbei).1
    unfold Store.AddEvent
    split
    . exact h
    . have hmax : WellFormed { s with m_dwMaxEventId := (s.m_dwMaxEventId + 1) % 2 ^ 32 } :=
        ⟨h.zero, h.stored, h.owned, h.oneByte⟩
      exact hmax.EditEvent' dbei true
  | EditEvent env hDbEvent dbei =>
    show WellFormed (s.EditEvent env hDbEvent dbei).1
    unfold Store.EditEvent
    split
    . exact h
    . split
      . exact h
      . exact h.EditEvent' _ false
  | DeleteEvent env hDbEvent => exact h.DeleteEvent
  | MarkEventRead env contactID hDbEvent => exact h.MarkEventRead
  | MetaMergeHistory ccMeta ccSub =>
    show WellFormed (s.MetaMergeHistory ccMeta ccSub).1
    unfold Store.MetaMergeHistory
    split
    . exact h
    . rcases h.mergeHistory (c := ccMeta) (by tauto) (s.GatherContactHistory ccSub) with
        ⟨hmerge, hmem⟩
      exact hmerge.saveCached hmem
  | MetaSplitHistory ccMeta ccSub =>
    show WellFormed (s.MetaSplitHistory ccMeta ccSub).1
    unfold Store.MetaSplitHistory
    split
    . exact h
    . rcases h.splitHistory (c := ccMeta) (by tauto) (s.GatherContactHistory ccSub) with
        ⟨hsplit, hmem⟩
      dsimp only
      split
      . exact hsplit.saveCached hmem
      . exact hsplit
  | MetaRemoveSubHistory env ccSub =>
    show WellFormed (s.MetaRemoveSubHistory env ccSub).1
    unfold Store.MetaRemoveSubHistory
    split
    . exact h
    . exact h.removeSubHistory _ _ _
  | SetLinks contactID links => exact h.SetLinks links
  | SetCacheSafetyMode bIsSet => exact ⟨h.zero, h.stored, h.owned, h.oneByte⟩
  | Load links => exact h.Load links

end WellFormed

theorem wellFormed_of_run {m_crypto : MICryptoEngine} {m_bEncrypted : Bool}
    (h : Run step (fun s call => call = .AddContact → s.m_maxContactId + 1 < 2 ^ 32)
      (create m_crypto m_bEncrypted) s)
    : WellFormed s := by
  refine h.inv (I := WellFormed) ?_ (.create m_crypto m_bEncrypted)
  intro s call hs hok
  exact hs.step call hok

theorem wellFormed_of_run_delete
    : WellFormed ((create default false).step .AddContact |>.step (.AddEvent {} 1 { iTimestamp := 5 })
        |>.step (.DeleteContact {} 1)) := by
  let ok (s : Store) (call : Call) : Prop := call = .AddContact → s.m_maxContactId + 1 < 2 ^ 32
  have hadd : Run step ok (create default false) ((create default false).step .AddContact) :=
    .call .init _ fun _ => by decide
  have hevent := hadd.call (.AddEvent {} 1 { iTimestamp := 5 }) fun h => by cases h
  exact wellFormed_of_run (hevent.call (.DeleteContact {} 1) fun h => by cases h)

end Store
end Dbx
