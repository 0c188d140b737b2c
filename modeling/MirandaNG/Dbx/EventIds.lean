import MirandaNG.Dbx.Outcome

/-!
This module contains the index of server ids: in which runs every entry of it refers to an event that
exists and was stored with the module and the id of the entry.
-/

namespace Dbx

open Kv Crypt Transition

def EventRecord.CarriesId (data : EventRecord) (szId : CStr) : Prop :=
  data.dbe.flags &&& DBEF_HAS_ID ≠ 0 ∧
  (data.tail.drop data.dbe.cbBlob = szId.toMem ∨ data.tail.drop data.dbe.cbBlob = 0 :: szId.toMem)

structure DBEventIdKey.Matches (key : DBEventIdKey) (data : EventRecord) : Prop where
  iModuleId : data.dbe.iModuleId = key.iModuleId
  szEventId : data.CarriesId key.szEventId
  nonempty : 0 < key.szEventId.strlen
  fits : key.szEventId.strlen ≤ 255

/--
An id that is absent, or neither empty nor longer than a key can hold.
-/
def DBEVENTINFO.IdFits (dbei : DBEVENTINFO) : Prop :=
  ∀ szId ∈ dbei.szId, 0 < szId.strlen ∧ szId.strlen ≤ 255

namespace Store

structure IdInv (s : Store) : Prop where
  indexed : Indexes DBEventIdKey.Matches s.m_dbEventIds s.m_dbEvents
  numbered : ∀ e ∈ s.m_dbEvents, e ≤ s.m_dwMaxEventId

variable {s s' : Store} {env : Env} {c : MCONTACT} {e : MEVENT} {dbei : DBEVENTINFO}
variable {data : EventRecord} {key : DBEventIdKey}

theorem IdInv.congr (h : IdInv s) (hevents : s'.m_dbEvents = s.m_dbEvents)
    (hids : s'.m_dbEventIds = s.m_dbEventIds) (hmax : s'.m_dwMaxEventId = s.m_dwMaxEventId)
    : IdInv s' := by
  constructor
  . rw [hevents, hids]
    exact h.indexed
  . rw [hevents, hmax]
    exact h.numbered

theorem makeRecord_matches {szId : CStr} (hid : dbei.szId = some szId) (hfits : dbei.IdFits)
    (iModuleId : Nat)
    : (DBEventIdKey.make iModuleId szId).Matches (s.makeRecord env c iModuleId dbei) := by
  rcases hfits szId hid with ⟨hnonempty, hlen⟩
  have hkey : (DBEventIdKey.make iModuleId szId).szEventId = szId := CStr.truncate_eq_self hlen
  have hhas : (some szId).any (·.strlen > 0) = true := by simpa using hnonempty
  have hflag : DBEF_HAS_ID &&& DBEF_HAS_ID ≠ 0 := by decide
  constructor
  case iModuleId => rfl
  case szEventId =>
    rw [hkey]
    constructor
    . simp only [makeRecord, hid, hhas, ↓reduceIte]
      exact Flags.or_and_ne_zero hflag
    . simp only [makeRecord, hid, hhas, ↓reduceIte, Option.map_some, Option.getD_some]
      rw [List.append_assoc, List.drop_left]
      split
      . exact .inr rfl
      . exact .inl rfl
  case nonempty => rwa [hkey]
  case fits => rwa [hkey]

theorem writeEvent_m_dbEventIds {cc : MCONTACT} {ccSub szId}
    : (s.writeEvent cc ccSub e data szId).m_dbEventIds =
        match szId with
        | none => s.m_dbEventIds
        | some szId => s.m_dbEventIds.put (.make data.dbe.iModuleId szId) e := by
  unfold writeEvent fileSub fileId
  cases ccSub <;> cases szId <;> simp [putId, putEvent]

theorem writeEvent_m_dwMaxEventId {cc : MCONTACT} {ccSub szId}
    : (s.writeEvent cc ccSub e data szId).m_dwMaxEventId = s.m_dwMaxEventId := by
  unfold writeEvent fileSub fileId
  cases ccSub <;> cases szId <;> simp [putId, putEvent]

theorem IdInv.insertModule (h : IdInv s) (szName : Option CStr) : IdInv (s.insertModule szName) := by
  rcases insertModule_frame s szName with ⟨dbModules, modules, hframe⟩
  rw [hframe]
  exact h.congr rfl rfl rfl

/--
Writing event `e` leaves the index right: the id can be an entry, and every entry that refers to the
event already is the one that is written.
-/
structure IdWriteSafe (s : Store) (e : MEVENT) (dbei : DBEVENTINFO) : Prop where
  fits : dbei.IdFits
  same : ∀ key, s.m_dbEventIds.get? key = some e →
    dbei.szId.map (.make (moduleID dbei.szModule)) = some key

theorem IdInv.EditEvent' {bNew : Bool} (h : IdInv s) (hle : e ≤ s.m_dwMaxEventId)
    (hsafe : (s.historyOf c).isSome → (bNew && s.m_safetyMode && env.filtered) = false →
      s.IdWriteSafe e dbei)
    : IdInv (s.EditEvent' env c e dbei bNew).1 := by
  have houtcome := EditEvent'_outcome s env c e dbei bNew
  generalize s.EditEvent' env c e dbei bNew = r at houtcome
  cases houtcome with
  | refused => exact h.insertModule _
  | done cc ccSub hhistory hfilter =>
    rcases hsafe (by simp [hhistory]) hfilter with ⟨hfits, hsame⟩
    have hmodule := h.insertModule dbei.szModule
    generalize hdata : (s.insertModule dbei.szModule).makeRecord env c (moduleID dbei.szModule)
      dbei = data
    have hput : Indexes DBEventIdKey.Matches (s.insertModule dbei.szModule).m_dbEventIds
        ((s.insertModule dbei.szModule).m_dbEvents.put e data) := by
      apply hmodule.indexed.put
      intro key hkey
      rcases insertModule_frame s dbei.szModule with ⟨dbModules, modules, hframe⟩
      rw [hframe] at hkey
      rcases Option.map_eq_some_iff.1 (hsame key hkey) with ⟨szId, hid, rfl⟩
      rw [← hdata]
      exact makeRecord_matches hid hfits _
    constructor
    . dsimp only
      rw [writeEvent_m_dbEvents, writeEvent_m_dbEventIds]
      cases hid : dbei.szId with
      | none => exact hput
      | some szId =>
        refine hput.put_index (Table.get?_put_self _ _ _) ?_
        rw [← hdata]
        exact makeRecord_matches hid hfits _
    . dsimp only
      rw [writeEvent_m_dbEvents, writeEvent_m_dwMaxEventId]
      intro e' he'
      rcases Table.mem_put.1 he' with rfl | he'
      . rcases insertModule_frame s dbei.szModule with ⟨dbModules, modules, hframe⟩
        rw [hframe]
        exact hle
      . exact hmodule.numbered e' he'

theorem readId_of_matches (h : key.Matches data)
    (hterm : data.tail[data.dbe.cbBlob]? = some 0) (env : Env) (e : MEVENT)
    : readId env e data = some key.szEventId := by
  rcases h.szEventId with ⟨hflag, hdrop⟩
  have hhead : (data.tail.drop data.dbe.cbBlob)[0]? = some 0 := by simpa using hterm
  have hdrop : data.tail.drop data.dbe.cbBlob = 0 :: key.szEventId.toMem := by
    rcases hdrop with hdrop | hdrop
    . rw [hdrop] at hhead
      rcases hbytes : key.szEventId.bytes with _ | ⟨b, bytes⟩
      . have := h.nonempty
        simp [CStr.strlen, hbytes] at this
      . rw [CStr.toMem, hbytes] at hhead
        have hb : b = 0 := by simpa using hhead
        exact absurd (by simp [hbytes, hb]) key.szEventId.nul_notMem
    . exact hdrop
  have hlen : data.dbe.cbBlob + 1 ≤ data.tail.length := by
    have := congrArg List.length hdrop
    simp only [List.length_drop, List.length_cons] at this
    omega
  unfold readId
  rw [if_pos hflag, List.drop_append_of_le_length hlen, ← List.drop_drop, hdrop, List.drop_one,
    List.tail_cons, CStr.ofMem_toMem_append]

theorem eraseRecord_m_dbEventIds
    : (s.eraseRecord env e data).m_dbEventIds =
        match readId env e data with
        | none => s.m_dbEventIds
        | some szId => s.m_dbEventIds.del (.make data.dbe.iModuleId szId) := by
  unfold eraseRecord
  cases readId env e data <;> rfl

theorem eraseRecord_m_dwMaxEventId
    : (s.eraseRecord env e data).m_dwMaxEventId = s.m_dwMaxEventId := by
  unfold eraseRecord
  dsimp only
  split <;> rfl

theorem IdInv.eraseRecord (h : IdInv s) (hfound : s.m_dbEvents.get? e = some data)
    (hterm : (∃ key, s.m_dbEventIds.get? key = some e) → data.tail[data.dbe.cbBlob]? = some 0)
    : IdInv (s.eraseRecord env e data) := by
  constructor
  . rw [eraseRecord_m_dbEvents, eraseRecord_m_dbEventIds]
    by_cases href : ∃ key, s.m_dbEventIds.get? key = some e
    . have hread (key : DBEventIdKey) (hkey : s.m_dbEventIds.get? key = some e)
          : readId env e data = some key.szEventId ∧
              DBEventIdKey.make data.dbe.iModuleId key.szEventId = key := by
        rcases h.indexed key e hkey with ⟨data', hdata', hmatches⟩
        cases hfound.symm.trans hdata'
        refine ⟨readId_of_matches hmatches (hterm href) env e, ?_⟩
        unfold DBEventIdKey.make
        rw [CStr.truncate_eq_self hmatches.fits, hmatches.iModuleId]
      rcases href with ⟨key, hkey⟩
      rw [(hread key hkey).1]
      dsimp only
      refine (h.indexed.del_index _).del ?_
      intro key' hkey'
      rw [Table.get?_del] at hkey'
      split at hkey'
      . cases hkey'
      . next hne =>
        apply hne
        rw [← (hread key' hkey').2]
        congr 1
        have := (hread key' hkey').1.symm.trans (hread key hkey).1
        simpa using this
    . have hfree : ∀ key, s.m_dbEventIds.get? key ≠ some e := fun key hkey => href ⟨key, hkey⟩
      split
      . exact h.indexed.del hfree
      . refine (h.indexed.del_index _).del ?_
        intro key hkey
        rw [Table.get?_del] at hkey
        split at hkey
        . cases hkey
        . exact hfree key hkey
  . rw [eraseRecord_m_dbEvents, eraseRecord_m_dwMaxEventId]
    intro e' he'
    exact h.numbered e' (Table.mem_del.1 he').2

theorem IdInv.unfileEvent (h : IdInv s) (k : DBEventSortingKey) : IdInv (s.unfileEvent env k) :=
  h.congr (by simp) (by simp) (by simp)

def IdDeleteSafe (s : Store) (e : MEVENT) : Prop :=
  ∀ data cc2, DeleteEvent.Guard s e data cc2 → s.DeletesRecord e data cc2 →
    (∃ key, s.m_dbEventIds.get? key = some e) → data.tail[data.dbe.cbBlob]? = some 0

theorem IdInv.DeleteEvent (h : IdInv s) (hsafe : s.IdDeleteSafe e)
    : IdInv (s.DeleteEvent env e).1 := by
  have houtcome := DeleteEvent_outcome s env e
  generalize s.DeleteEvent env e = r at houtcome
  cases houtcome with
  | refused => exact h
  | single data hguard =>
    have hterm := hsafe data none hguard (by simp [DeletesRecord])
    apply (h.unfileEvent _).eraseRecord
    . simpa using hguard.found
    . simpa using hterm
  | half data c₂ hguard hfiled => exact h.unfileEvent _
  | double data c₂ hguard hfiled =>
    have hterm := hsafe data (some c₂) hguard (deletesRecord_of_filed hfiled)
    have hevents : ((s.unfileEvent env ⟨data.dbe.dwContactID, e, data.dbe.timestamp⟩).unfileCached
        env ⟨c₂, e, data.dbe.timestamp⟩).m_dbEvents = s.m_dbEvents := by
      rw [unfileCached_m_dbEvents, unfileEvent_m_dbEvents]
    have hids : ((s.unfileEvent env ⟨data.dbe.dwContactID, e, data.dbe.timestamp⟩).unfileCached
        env ⟨c₂, e, data.dbe.timestamp⟩).m_dbEventIds = s.m_dbEventIds := by
      rw [unfileCached_m_dbEventIds, unfileEvent_m_dbEventIds]
    apply IdInv.eraseRecord
    . exact h.congr hevents hids (by rw [unfileCached_m_dwMaxEventId, unfileEvent_m_dwMaxEventId])
    . rw [hevents]
      exact hguard.found
    . rw [hids]
      exact hterm

theorem IdInv.setRead (h : IdInv s) (hfound : s.m_dbEvents.get? e = some data)
    : IdInv (s.setRead e data) := by
  constructor
  . apply h.indexed.put
    intro key hkey
    rcases h.indexed key e hkey with ⟨data', hdata', hmatches⟩
    cases hfound.symm.trans hdata'
    have hflag : (data.dbe.flags ||| DBEF_READ) &&& DBEF_HAS_ID = data.dbe.flags &&& DBEF_HAS_ID :=
      Flags.or_and_of_disjoint (by decide)
    refine ⟨hmatches.iModuleId, ⟨?_, hmatches.szEventId.2⟩, hmatches.nonempty, hmatches.fits⟩
    dsimp only
    rw [hflag]
    exact hmatches.szEventId.1
  . intro e' he'
    rcases Table.mem_put.1 he' with rfl | he'
    . exact h.numbered e' (Table.mem_iff_exists.2 ⟨data, hfound⟩)
    . exact h.numbered e' he'

theorem IdInv.refreshUnread (h : IdInv s) (k : DBEventSortingKey)
    : IdInv (s.refreshUnread env k) := by
  unfold Store.refreshUnread saveCached
  dsimp only
  split <;> exact h.congr rfl rfl rfl

theorem IdInv.MarkEventRead (h : IdInv s) : IdInv (s.MarkEventRead env c e).1 := by
  have houtcome := MarkEventRead_outcome s env c e
  generalize (s.MarkEventRead env c e).1 = r at houtcome
  cases houtcome with
  | refused => exact h
  | single data hguard => exact (h.setRead hguard.found).refreshUnread _
  | double data c₂ hguard => exact ((h.setRead hguard.found).refreshUnread _).refreshUnread _

theorem IdInv.wipeHistory (h : IdInv s) {cc : DBCachedContact}
    (hfree : ∀ key e, s.m_dbEventIds.get? key = some e →
      e ∉ DeleteContact.events env cc (s.historyKeys c))
    : IdInv (s.wipeHistory env c cc) := by
  unfold Store.wipeHistory
  dsimp only
  have hget (e : MEVENT) : ((DeleteContact.events env cc (s.historyKeys c)).foldl delEvent
      ((s.historyKeys c).foldl delKey s)).m_dbEvents.get? e =
        if e ∈ DeleteContact.events env cc (s.historyKeys c) then none
        else s.m_dbEvents.get? e := by
    rw [get?_foldl_delEvent, foldl_delKey_frame]
  rw [foldl_delEvent_frame, foldl_delKey_frame] at *
  constructor
  . intro key e hkey
    rcases h.indexed key e hkey with ⟨data, hdata, hmatches⟩
    refine ⟨data, ?_, hmatches⟩
    dsimp only
    rw [hget, if_neg (hfree key e hkey)]
    exact hdata
  . intro e he
    apply h.numbered
    rcases Table.mem_iff_exists.1 he with ⟨data, hdata⟩
    dsimp only at hdata
    rw [hget] at hdata
    split at hdata
    . cases hdata
    . exact Table.mem_iff_exists.2 ⟨data, hdata⟩

theorem IdInv.DeleteContact (h : IdInv s)
    (hsafe : ∀ cc, s.m_cache.get? c = some cc → ∀ key e, s.m_dbEventIds.get? key = some e →
      e ∉ DeleteContact.events env cc (s.historyKeys c))
    : IdInv (s.DeleteContact env c).1 := by
  have houtcome := DeleteContact_outcome s env c
  generalize s.DeleteContact env c = r at houtcome
  cases houtcome with
  | refused => exact h
  | half cc hcc hstored => exact h.wipeHistory (hsafe cc hcc)
  | done cc hcc hstored => exact (h.wipeHistory (hsafe cc hcc)).congr rfl rfl rfl

theorem IdInv.saveCached (h : IdInv s) (c : MCONTACT) : IdInv (s.saveCached c) := by
  unfold Store.saveCached
  split <;> exact h.congr rfl rfl rfl

theorem IdInv.mergeHistory (h : IdInv s) (ccMeta : MCONTACT) (list : List EventItem)
    : IdInv (s.mergeHistory ccMeta list) := by
  induction list generalizing s with
  | nil => exact h
  | cons EI list ih =>
    apply ih
    exact h.congr rfl rfl rfl

theorem IdInv.splitHistory (h : IdInv s) (ccMeta : MCONTACT) (list : List EventItem)
    : IdInv (s.splitHistory ccMeta list).1 := by
  induction list generalizing s with
  | nil => exact h
  | cons EI list ih =>
    unfold Store.splitHistory
    split
    . exact h
    . apply ih
      exact h.congr rfl rfl rfl

theorem IdInv.rewriteOwner (h : IdInv s) (parentID : MCONTACT)
    (hfree : ∀ key, s.m_dbEventIds.get? key ≠ some e)
    : IdInv (s.rewriteOwner env parentID e) := by
  unfold Store.rewriteOwner
  split
  . exact h
  . next data hdata =>
    constructor
    . apply h.indexed.put
      intro key hkey
      exact absurd hkey (hfree key)
    . intro e' he'
      rcases Table.mem_put.1 he' with rfl | he'
      . exact h.numbered e' (Table.mem_iff_exists.2 ⟨data, hdata⟩)
      . exact h.numbered e' he'

theorem rewriteOwner_m_dbEventIds (parentID : MCONTACT)
    : (s.rewriteOwner env parentID e).m_dbEventIds = s.m_dbEventIds := by
  unfold rewriteOwner
  split <;> rfl

theorem IdInv.removeSubHistory (h : IdInv s) (ccSub parentID : MCONTACT) (list : List EventItem)
    (hfree : ∀ key e, s.m_dbEventIds.get? key = some e → e ∉ list.map (·.eventId))
    : IdInv (s.removeSubHistory env ccSub parentID list).1 := by
  induction list generalizing s with
  | nil => exact h
  | cons EI list ih =>
    have hrewrite : IdInv (s.rewriteOwner env parentID EI.eventId) := by
      apply h.rewriteOwner
      intro key hkey
      exact hfree key _ hkey (by simp)
    unfold Store.removeSubHistory
    dsimp only
    split
    . exact hrewrite
    . apply ih
      . exact hrewrite.congr rfl rfl rfl
      . intro key e hkey
        have hkey : s.m_dbEventIds.get? key = some e := by
          rwa [delKey_m_dbEventIds, rewriteOwner_m_dbEventIds] at hkey
        have := hfree key e hkey
        simp only [List.map_cons, List.mem_cons, not_or] at this
        exact this.2

theorem IdInv.Load (h : IdInv s) (links : MCONTACT → MetaLinks) : IdInv (s.Load links) := by
  constructor
  . exact h.indexed
  . intro e he
    have he : e ∈ s.m_dbEvents := he
    rcases hlast : s.m_dbEvents.last? with _ | ⟨m, data⟩
    . rw [Table.last?_eq_none_iff] at hlast
      rcases Table.mem_iff_entries.1 he with ⟨data, hdata⟩
      rw [hlast] at hdata
      cases hdata
    . have hmax : (s.Load links).m_dwMaxEventId = m := by
        unfold Store.Load InitModules
        simp [hlast]
      rw [hmax]
      exact Table.le_last? hlast he

theorem IdInv.create (m_crypto : MICryptoEngine) (m_bEncrypted : Bool)
    : IdInv (create m_crypto m_bEncrypted) where
  indexed := .empty _ _
  numbered _ he := absurd he (Table.notMem_iff.2 rfl)

def IdSafe (s : Store) : Call → Prop
  | .AddEvent env contactID dbei =>
    s.m_dwMaxEventId + 1 < 2 ^ 32 ∧
    ((s.historyOf contactID).isSome → (s.m_safetyMode && env.filtered) = false → dbei.IdFits)
  | .EditEvent _ hDbEvent dbei =>
    ∀ data, s.m_dbEvents.get? hDbEvent = some data → (s.historyOf data.dbe.dwContactID).isSome →
      s.IdWriteSafe hDbEvent dbei
  | .DeleteEvent _ hDbEvent => s.IdDeleteSafe hDbEvent
  | .DeleteContact env contactID =>
    ∀ cc, s.m_cache.get? contactID = some cc → ∀ key e, s.m_dbEventIds.get? key = some e →
      e ∉ DeleteContact.events env cc (s.historyKeys contactID)
  | .MetaRemoveSubHistory _ ccSub =>
    ∀ key e, s.m_dbEventIds.get? key = some e →
      e ∉ (s.GatherContactHistory ccSub).map (·.eventId)
  | _ => True

theorem IdInv.AddEvent (h : IdInv s) (hroom : s.m_dwMaxEventId + 1 < 2 ^ 32)
    (hsafe : (s.historyOf c).isSome → (s.m_safetyMode && env.filtered) = false → dbei.IdFits)
    : IdInv (s.AddEvent env c dbei).1 := by
  unfold Store.AddEvent
  split
  . exact h
  . rw [Nat.mod_eq_of_lt hroom]
    have hmax : IdInv { s with m_dwMaxEventId := s.m_dwMaxEventId + 1 } :=
      ⟨h.indexed, fun e he => Nat.le_succ_of_le (h.numbered e he)⟩
    apply hmax.EditEvent' le_rfl
    intro hhistory hfilter
    refine ⟨hsafe hhistory hfilter, ?_⟩
    have hnew : s.m_dwMaxEventId + 1 ∉ s.m_dbEvents := fun hmem =>
      absurd (h.numbered _ hmem) (Nat.not_succ_le_self _)
    intro key hkey
    exact absurd hkey (h.indexed.free hnew key)

theorem IdInv.EditEvent (h : IdInv s)
    (hsafe : ∀ data, s.m_dbEvents.get? e = some data → (s.historyOf data.dbe.dwContactID).isSome →
      s.IdWriteSafe e dbei)
    : IdInv (s.EditEvent env e dbei).1 := by
  unfold Store.EditEvent
  split
  . exact h
  . split
    . exact h
    . next data hdata =>
      apply h.EditEvent' (h.numbered e (Table.mem_iff_exists.2 ⟨data, hdata⟩))
      intro hhistory _
      rcases hsafe data hdata hhistory with ⟨hfits, hsame⟩
      exact ⟨hfits, hsame⟩

theorem IdInv.step (h : IdInv s) (call : Call) (hsafe : s.IdSafe call) : IdInv (s.step call) := by
  cases call with
  | AddContact =>
    exact h.congr AddContact_m_dbEvents AddContact_m_dbEventIds AddContact_m_dwMaxEventId
  | DeleteContact env contactID => exact h.DeleteContact hsafe
  | AddEvent env contactID dbei => exact h.AddEvent hsafe.1 hsafe.2
  | EditEvent env hDbEvent dbei => exact h.EditEvent hsafe
  | DeleteEvent env hDbEvent => exact h.DeleteEvent hsafe
  | MarkEventRead env contactID hDbEvent => exact h.MarkEventRead
  | MetaMergeHistory ccMeta ccSub =>
    show IdInv (s.MetaMergeHistory ccMeta ccSub).1
    unfold Store.MetaMergeHistory
    split
    . exact h
    . exact (h.mergeHistory _ _).saveCached _
  | MetaSplitHistory ccMeta ccSub =>
    show IdInv (s.MetaSplitHistory ccMeta ccSub).1
    unfold Store.MetaSplitHistory
    split
    . exact h
    . dsimp only
      split
      . exact (h.splitHistory _ _).saveCached _
      . exact h.splitHistory _ _
  | MetaRemoveSubHistory env ccSub =>
    show IdInv (s.MetaRemoveSubHistory env ccSub).1
    unfold Store.MetaRemoveSubHistory
    split
    . exact h
    . exact h.removeSubHistory _ _ _ hsafe
  | SetLinks contactID links => exact h.congr rfl rfl rfl
  | SetCacheSafetyMode bIsSet => exact h.congr rfl rfl rfl
  | Load links => exact h.Load links

/--
Every entry of the index refers to an event that exists and was stored with the module and the id of
the entry, and so does what `GetEventById` answers for an id a key can hold.
-/
structure IdsExact (s : Store) : Prop where
  entries : ∀ key e, s.m_dbEventIds.get? key = some e →
    ∃ data, s.m_dbEvents.get? e = some data ∧ data.dbe.iModuleId = key.iModuleId ∧
      data.CarriesId key.szEventId
  found : ∀ szModule szId, szId.strlen ≤ 255 →
    (s.GetEventById (some szModule) (some szId)).2 ≠ 0 →
    ∃ data, s.m_dbEvents.get? (s.GetEventById (some szModule) (some szId)).2 = some data ∧
      data.dbe.iModuleId = moduleID (some szModule) ∧ data.CarriesId szId

theorem IdInv.idsExact (h : IdInv s) : s.IdsExact := by
  have hentries : ∀ key e, s.m_dbEventIds.get? key = some e →
      ∃ data, s.m_dbEvents.get? e = some data ∧ data.dbe.iModuleId = key.iModuleId ∧
        data.CarriesId key.szEventId := by
    intro key e hkey
    rcases h.indexed key e hkey with ⟨data, hdata, hmatches⟩
    exact ⟨data, hdata, hmatches.iModuleId, hmatches.szEventId⟩
  refine ⟨hentries, ?_⟩
  intro szModule szId hlen hfound
  unfold GetEventById GetModuleID at hfound ⊢
  dsimp only at hfound ⊢
  rcases insertModule_frame s (some szModule) with ⟨dbModules, modules, hframe⟩
  rw [hframe] at hfound ⊢
  dsimp only at hfound ⊢
  split at hfound
  . exact absurd rfl hfound
  . next hDbEvent hkey =>
    split at hfound
    . next hmem =>
      rw [if_pos hmem]
      have := hentries _ _ hkey
      rwa [DBEventIdKey.make, CStr.truncate_eq_self hlen] at this
    . exact absurd rfl hfound

theorem idsExact_of_run {m_crypto : MICryptoEngine} {m_bEncrypted : Bool} {s : Store}
    (h : Run step IdSafe (create m_crypto m_bEncrypted) s)
    : s.IdsExact := by
  have hinv : IdInv s := by
    refine h.inv (I := IdInv) ?_ (.create m_crypto m_bEncrypted)
    intro s call hs hok
    exact hs.step call hok
  exact hinv.idsExact

theorem idsExact_of_add
    : ((create default false).step .AddContact |>.step
        (.AddEvent {} 1 { iTimestamp := 5, szId := some ⟨[105], by decide⟩ })).IdsExact := by
  have hadd : Run step IdSafe (create default false) ((create default false).step .AddContact) :=
    .call .init _ trivial
  refine idsExact_of_run (hadd.call _ ⟨by decide, ?_⟩)
  rintro _ _ szId ⟨⟩
  exact ⟨by decide, by decide⟩

-- The entry of an event outlives the contact the event is deleted with.
theorem not_idsExact_of_deleteContact
    : ¬ ∀ (m_crypto : MICryptoEngine) (m_bEncrypted : Bool) (s : Store),
        Run step Succeeds (create m_crypto m_bEncrypted) s → s.IdsExact := by
  intro h
  let s₁ := (create default false).step .AddContact
  let s₂ := s₁.step (.AddEvent {} 1 { iTimestamp := 5, szId := some ⟨[105], by decide⟩ })
  let s₃ := s₂.step (.DeleteContact {} 1)
  have h₁ : Run step Succeeds (create default false) s₁ := .call .init _ rfl
  have h₂ : Run step Succeeds (create default false) s₂ := .call h₁ _ (by decide)
  have h₃ : Run step Succeeds (create default false) s₃ := .call h₂ _ (by decide)
  have hkey : s₃.m_dbEventIds.get? (.make 0 ⟨[105], by decide⟩) = some 1 := by decide
  rcases (h default false s₃ h₃).entries _ _ hkey with ⟨data, hdata, _⟩
  have hgone : s₃.m_dbEvents.get? 1 = none := by decide
  rw [hgone] at hdata
  cases hdata

end Store
end Dbx
