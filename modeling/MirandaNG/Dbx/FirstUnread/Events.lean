import MirandaNG.Dbx.FirstUnread.Basic

/-!
This module contains the effect of deleting an event and of marking it read on the first unread
pairs.

It also contains the effect of the meta contact operations on the first unread pairs. They move
sorting keys without looking at the pairs.
-/

namespace Dbx

open Kv

namespace Store

variable {s s' : Store} {env : Env} {c c' : MCONTACT} {e : MEVENT}
variable {data : EventRecord} {k m : DBEventSortingKey}

theorem first?_unfileEvent (hm : (s.unfileEvent env k).first? c = some m)
    : ∃ m', s.first? c = some m' ∧
        ((c = k.hContact ∧ m'.hEvent = k.hEvent) ∧ m = ⟨c, 0, 0⟩ ∨
          ¬ (c = k.hContact ∧ m'.hEvent = k.hEvent) ∧ m = m') := by
  unfold first? at hm ⊢
  rw [dbc?_unfileEvent] at hm
  split at hm
  . next hc =>
    rw [Option.map_map] at hm
    rcases Option.map_eq_some_iff.1 hm with ⟨dbc, hdbc, rfl⟩
    refine ⟨dbc.firstUnread c, by simp [hdbc], ?_⟩
    simp only [DBContact.firstUnread, lostEvent, Function.comp_apply, hc, true_and]
    split
    . next he => exact .inl ⟨he, rfl⟩
    . next he => exact .inr ⟨he, rfl⟩
  . next hc => exact ⟨m, hm, .inr ⟨fun hand => hc hand.1, rfl⟩⟩

theorem saved_unfileEvent (hc : (s.dbc? k.hContact).isSome)
    (hsaved : ∀ c, s.savedFirst? c = s.first? c)
    : ∀ c, (s.unfileEvent env k).savedFirst? c = (s.unfileEvent env k).first? c := by
  intro c
  unfold first? savedFirst?
  rw [saved?_unfileEvent hc, dbc?_unfileEvent]
  split
  . rfl
  . exact hsaved c

theorem first?_eraseRecord : (s.eraseRecord env e data).first? c = s.first? c := by
  unfold eraseRecord
  dsimp only
  split <;> rfl

theorem savedFirst?_eraseRecord : (s.eraseRecord env e data).savedFirst? c = s.savedFirst? c := by
  unfold eraseRecord
  dsimp only
  split <;> rfl

theorem isUnread_eraseRecord {e' : MEVENT}
    : (s.eraseRecord env e data).IsUnread e' ↔ e' ≠ e ∧ s.IsUnread e' := by
  unfold IsUnread
  rw [eraseRecord_m_dbEvents, Table.get?_del]
  split <;> simp_all

theorem unread_eraseRecord (hevents : s'.m_dbEvents = s.m_dbEvents)
    (hkeys : ∀ k, k.hEvent ≠ e → (k ∈ s'.m_dbEventsSort ↔ k ∈ s.m_dbEventsSort))
    : (s'.eraseRecord env e data).Unread c = s.Unread c \ { u | u.hEvent = e } := by
  ext k
  unfold Unread
  simp only [Set.mem_sdiff, Set.mem_ofPred_eq]
  rw [isUnread_eraseRecord, eraseRecord_m_dbEventsSort]
  have hread : s'.IsUnread k.hEvent ↔ s.IsUnread k.hEvent := by
    unfold IsUnread
    rw [hevents]
  rw [hread]
  by_cases he : k.hEvent = e
  . simp [he]
  . rw [hkeys k he]
    tauto

/--
Deleting event `e` leaves the pairs right: the pair of a contact the event is taken from, when it
names the event, must have no unread key of another event, and no other pair may name the event.
-/
def DeleteSafe (s : Store) (e : MEVENT) : Prop :=
  ∀ data cc2, DeleteEvent.Guard s e data cc2 →
    (s.DeletesRecord e data cc2 →
      s.GoneSafe (fun c m => Target data.dbe.dwContactID cc2 c ∧ m.hEvent = e)
        { u | u.hEvent = e }) ∧
    (¬ s.DeletesRecord e data cc2 →
      s.GoneSafe (fun c m => c = data.dbe.dwContactID ∧ m.hEvent = e)
        {⟨data.dbe.dwContactID, e, data.dbe.timestamp⟩})

theorem PairInv.DeleteEvent (h : PairInv s) (hsafe : s.DeleteSafe e)
    : PairInv (s.DeleteEvent env e).1 := by
  have hwf : WellFormed (s.DeleteEvent env e).1 := h.toWellFormed.DeleteEvent
  have houtcome := DeleteEvent_outcome s env e
  generalize s.DeleteEvent env e = r at houtcome hwf
  cases houtcome with
  | refused => exact h
  | single data hguard =>
    have hgone := (hsafe data none hguard).1 (by simp [DeletesRecord])
    refine ⟨hwf, h.first_of_gone ?_ ?_ hgone, ?_⟩
    . intro c _
      apply unread_eraseRecord (by simp)
      intro k hne
      rw [unfileEvent_m_dbEventsSort, Table.mem_del]
      have : k ≠ ⟨data.dbe.dwContactID, e, data.dbe.timestamp⟩ := fun heq => hne (heq ▸ rfl)
      tauto
    . intro c m' hm'
      rw [first?_eraseRecord] at hm'
      rcases first?_unfileEvent hm' with ⟨m, hm, hcase⟩
      exact ⟨m, hm, by simpa [Target] using hcase⟩
    . intro c
      rw [first?_eraseRecord, savedFirst?_eraseRecord]
      exact saved_unfileEvent (h.owner hguard.filed) h.saved c
  | half data c₂ hguard hfiled =>
    have hgone := (hsafe data (some c₂) hguard).2 (not_deletesRecord hfiled)
    refine ⟨hwf, h.first_of_gone ?_ (fun c m' hm' => first?_unfileEvent hm') hgone, ?_⟩
    . intro c _
      ext k
      unfold Unread IsUnread
      simp only [Set.mem_sdiff, Set.mem_ofPred_eq, Set.mem_singleton_iff]
      rw [unfileEvent_m_dbEventsSort, unfileEvent_m_dbEvents, Table.mem_del]
      tauto
    . exact saved_unfileEvent (h.owner hguard.filed) h.saved
  | double data c₂ hguard hfiled =>
    rcases hguard.checked with ⟨cc, hcc, hcount, hcheck⟩
    dsimp only at hwf ⊢
    rw [unfileCached_eq_unfileEvent (h.ne_zero (CheckEvent_mem hcheck))] at hwf ⊢
    have hgone := (hsafe data (some c₂) hguard).1 (deletesRecord_of_filed hfiled)
    refine ⟨hwf, h.first_of_gone ?_ ?_ hgone, ?_⟩
    . intro c _
      apply unread_eraseRecord (by simp)
      intro k hne
      rw [unfileEvent_m_dbEventsSort, unfileEvent_m_dbEventsSort, Table.mem_del, Table.mem_del]
      have h₁ : k ≠ ⟨data.dbe.dwContactID, e, data.dbe.timestamp⟩ := fun heq => hne (heq ▸ rfl)
      have h₂ : k ≠ ⟨c₂, e, data.dbe.timestamp⟩ := fun heq => hne (heq ▸ rfl)
      tauto
    . intro c m' hm'
      rw [first?_eraseRecord] at hm'
      rcases first?_unfileEvent hm' with ⟨m₁, hm₁, hcase₁⟩
      rcases first?_unfileEvent hm₁ with ⟨m, hm, hcase⟩
      refine ⟨m, hm, ?_⟩
      dsimp only at hcase₁ hcase
      unfold Target
      simp only [Option.some.injEq]
      rcases hcase with ⟨⟨rfl, he⟩, rfl⟩ | ⟨hnot, rfl⟩
      . rcases hcase₁ with ⟨_, rfl⟩ | ⟨_, rfl⟩
        . exact .inl ⟨⟨.inl rfl, he⟩, rfl⟩
        . exact .inl ⟨⟨.inl rfl, he⟩, rfl⟩
      . rcases hcase₁ with ⟨⟨rfl, he⟩, rfl⟩ | ⟨hnot₁, rfl⟩
        . exact .inl ⟨⟨.inr rfl, he⟩, rfl⟩
        . right
          refine ⟨?_, rfl⟩
          rintro ⟨rfl | rfl, he⟩
          . exact hnot ⟨rfl, he⟩
          . exact hnot₁ ⟨rfl, he⟩
    . intro c
      rw [first?_eraseRecord, savedFirst?_eraseRecord]
      refine saved_unfileEvent ?_ (saved_unfileEvent (h.owner hguard.filed) h.saved) c
      exact (h.toWellFormed.unfileEvent).owner hfiled

theorem scanUnread_eq_false {l : List (DBEventSortingKey × List UInt8)}
    (hl : ∀ a ∈ l, a.2 = [0]) (hc : c % 256 ≠ 0)
    : scanUnread env c l = false := by
  cases l with
  | nil => rfl
  | cons a l =>
    rcases a with ⟨k, v⟩
    have hv : v = [0] := hl (k, v) (by simp)
    subst hv
    unfold scanUnread
    have hne : (DBEvent.ofMem ([0] ++ env.behindSort k)).dwContactID ≠ c := by
      intro heq
      apply hc
      rw [← heq]
      show DBEvent.ofMem.leNat _ 0 4 % 256 = 0
      unfold DBEvent.ofMem.leNat
      simp
    rw [if_pos hne]

theorem FindNextUnread_eq (h : WellFormed s) (hc : c % 256 ≠ 0) (dbc : DBContact)
    : s.FindNextUnread env c k dbc = { dbc with evFirstUnread := 0, tsFirstUnread := 0 } := by
  unfold FindNextUnread
  rw [if_neg]
  rintro ⟨_, hscan⟩
  rw [scanUnread_eq_false _ hc] at hscan
  . cases hscan
  . intro a ha
    exact h.oneByte a.1 a.2 (Table.get?_eq_some_iff.2 (Table.mem_seek.1 ha).1)

theorem refreshUnread_frame (hc : k.hContact ≠ 0)
    : s.refreshUnread env k =
        (s.updateDbc k.hContact (s.FindNextUnread env k.hContact k)).saveDbc k.hContact := by
  unfold refreshUnread
  dsimp only
  rw [updateCached_eq_updateDbc hc, saveCached_eq_saveDbc hc]

theorem first?_refreshUnread (h : WellFormed s) (hc : k.hContact ∈ s.m_cache)
    (hmod : k.hContact % 256 ≠ 0) (hm : (s.refreshUnread env k).first? c = some m)
    : ∃ m', s.first? c = some m' ∧
        (c = k.hContact ∧ m = ⟨c, 0, 0⟩ ∨ c ≠ k.hContact ∧ m = m') := by
  rw [refreshUnread_frame (h.ne_zero hc)] at hm
  unfold first? at hm ⊢
  rw [dbc?_saveDbc, dbc?_updateDbc] at hm
  split at hm
  . next heq =>
    rcases Option.map_eq_some_iff.1 hm with ⟨dbc', hdbc', rfl⟩
    rcases Option.map_eq_some_iff.1 hdbc' with ⟨dbc, hdbc, rfl⟩
    refine ⟨dbc.firstUnread c, by simp [heq, hdbc], .inl ⟨heq, ?_⟩⟩
    rw [FindNextUnread_eq h hmod]
    rfl
  . next hne => exact ⟨m, hm, .inr ⟨hne, rfl⟩⟩

theorem saved_refreshUnread (h : WellFormed s) (hc : k.hContact ∈ s.m_cache)
    (hsaved : ∀ c, s.savedFirst? c = s.first? c)
    : ∀ c, (s.refreshUnread env k).savedFirst? c = (s.refreshUnread env k).first? c := by
  intro c
  rw [refreshUnread_frame (h.ne_zero hc)]
  rcases Option.isSome_iff_exists.1 (dbc?_isSome_iff.2 (.inr hc)) with ⟨dbc, hdbc⟩
  unfold first? savedFirst?
  rw [dbc?_saveDbc, saved?_saveDbc (s.FindNextUnread env k.hContact k dbc), dbc?_updateDbc,
    saved?_updateDbc]
  . split
    . rw [hdbc]
      rfl
    . exact hsaved c
  . rw [dbc?_updateDbc, if_pos rfl, hdbc]
    rfl

theorem refreshUnread_m_dbEvents (hc : k.hContact ≠ 0)
    : (s.refreshUnread env k).m_dbEvents = s.m_dbEvents := by
  rw [refreshUnread_frame hc]
  simp

theorem refreshUnread_m_dbEventsSort (hc : k.hContact ≠ 0)
    : (s.refreshUnread env k).m_dbEventsSort = s.m_dbEventsSort := by
  rw [refreshUnread_frame hc]
  simp

theorem isUnread_setRead (data : EventRecord) {e' : MEVENT}
    : (s.setRead e data).IsUnread e' ↔ e' ≠ e ∧ s.IsUnread e' := by
  have hread : DBEvent.markedRead { data.dbe with flags := data.dbe.flags ||| DBEF_READ } = true := by
    have : DBEF_READ &&& MARKED_READ ≠ 0 := by decide
    simpa [DBEvent.markedRead] using Flags.or_and_ne_zero this
  unfold setRead
  dsimp only
  rw [isUnread_putEvent]
  split
  . next heq => simp [heq, hread]
  . next hne => simp [hne]

/--
Marking event `e` leaves the pairs right: the contacts whose pair is searched anew must have no unread
key of another event, and no other pair may name the event. The search is sure to find nothing only
for a contact whose number is not a multiple of 256.
-/
def MarkSafe (s : Store) (c : MCONTACT) (e : MEVENT) : Prop :=
  ∀ data cc2, MarkEventRead.Guard s c e data cc2 →
    (∀ c', Target c cc2 c' → c' % 256 ≠ 0) ∧
    s.GoneSafe (fun c' _ => Target c cc2 c') { u | u.hEvent = e }

theorem unread_of_setRead (hevents : s'.m_dbEvents = (s.setRead e data).m_dbEvents)
    (hkeys : s'.m_dbEventsSort = s.m_dbEventsSort)
    : s'.Unread c = s.Unread c \ { u | u.hEvent = e } := by
  ext k
  have hread : s'.IsUnread k.hEvent ↔ k.hEvent ≠ e ∧ s.IsUnread k.hEvent := by
    rw [← isUnread_setRead data]
    unfold IsUnread
    rw [hevents]
  unfold Unread
  simp only [Set.mem_sdiff, Set.mem_ofPred_eq]
  rw [hread, hkeys]
  tauto

theorem PairInv.MarkEventRead (h : PairInv s) (hsafe : s.MarkSafe c e)
    : PairInv (s.MarkEventRead env c e).1 := by
  have hwf : WellFormed (s.MarkEventRead env c e).1 := h.toWellFormed.MarkEventRead
  have houtcome := MarkEventRead_outcome s env c e
  generalize (s.MarkEventRead env c e).1 = r at houtcome hwf
  have hread (data : EventRecord) : WellFormed (s.setRead e data) := h.toWellFormed.putEvent e _
  cases houtcome with
  | refused => exact h
  | single data hguard =>
    rcases hguard.checked with ⟨cc, hcc, hcheck⟩
    have hmem : c ∈ (s.setRead e data).m_cache := Table.mem_iff_exists.2 ⟨cc, hcc⟩
    have hne : c ≠ 0 := h.ne_zero hmem
    rcases hsafe data none hguard with ⟨hmod, hgone⟩
    refine ⟨hwf, h.first_of_gone ?_ ?_ hgone, ?_⟩
    . intro c' _
      exact unread_of_setRead (refreshUnread_m_dbEvents hne) (refreshUnread_m_dbEventsSort hne)
    . intro c' m' hm'
      rcases first?_refreshUnread (hread data) hmem (hmod c (.inl rfl)) hm' with ⟨m, hm, hcase⟩
      exact ⟨m, hm, by simpa [Target] using hcase⟩
    . exact saved_refreshUnread (hread data) hmem h.saved
  | double data c₂ hguard =>
    rcases hguard.checked with ⟨cc, hcc, hcheck⟩
    have hmem : c ∈ (s.setRead e data).m_cache := Table.mem_iff_exists.2 ⟨cc, hcc⟩
    have hmem₂ : c₂ ∈ (s.setRead e data).m_cache := CheckEvent_mem hcheck
    have hne : c ≠ 0 := h.ne_zero hmem
    have hne₂ : c₂ ≠ 0 := h.ne_zero hmem₂
    rcases hsafe data (some c₂) hguard with ⟨hmod, hgone⟩
    have hwf₁ : WellFormed ((s.setRead e data).refreshUnread env ⟨c, e, data.dbe.timestamp⟩) :=
      (hread data).refreshUnread hmem
    have hmem₂ : c₂ ∈ ((s.setRead e data).refreshUnread env
        ⟨c, e, data.dbe.timestamp⟩).m_cache :=
      WellFormed.mem_refreshUnread_m_cache.2 hmem₂
    refine ⟨hwf, h.first_of_gone ?_ ?_ hgone, ?_⟩
    . intro c' _
      refine unread_of_setRead (?_ : _ = (s.setRead e data).m_dbEvents) ?_
      . rw [refreshUnread_m_dbEvents hne₂, refreshUnread_m_dbEvents hne]
      . rw [refreshUnread_m_dbEventsSort hne₂, refreshUnread_m_dbEventsSort hne]
        rfl
    . intro c' m' hm'
      rcases first?_refreshUnread hwf₁ hmem₂ (hmod c₂ (.inr rfl)) hm' with ⟨m₁, hm₁, hcase₁⟩
      rcases first?_refreshUnread (hread data) hmem (hmod c (.inl rfl)) hm₁ with ⟨m, hm, hcase⟩
      refine ⟨m, hm, ?_⟩
      unfold Target
      simp only [Option.some.injEq]
      dsimp only at hcase hcase₁
      rcases hcase with ⟨rfl, rfl⟩ | ⟨hnot, rfl⟩
      . rcases hcase₁ with ⟨_, rfl⟩ | ⟨_, rfl⟩
        . exact .inl ⟨.inl rfl, rfl⟩
        . exact .inl ⟨.inl rfl, rfl⟩
      . rcases hcase₁ with ⟨rfl, rfl⟩ | ⟨hnot₁, rfl⟩
        . exact .inl ⟨.inr rfl, rfl⟩
        . right
          refine ⟨?_, rfl⟩
          rintro (heq | heq)
          . exact hnot heq
          . exact hnot₁ heq.symm
    . exact saved_refreshUnread hwf₁ hmem₂ (saved_refreshUnread (hread data) hmem h.saved)

end Store
end Dbx

namespace Dbx

open Kv

theorem DBContact.firstUnread_count (dbc : DBContact) (n : Nat) (c : MCONTACT)
    : ({ dbc with dwEventCount := n } : DBContact).firstUnread c = dbc.firstUnread c :=
  rfl

namespace Store

variable {s s' : Store} {env : Env} {c c' : MCONTACT} {e : MEVENT}
variable {k m : DBEventSortingKey}

theorem first?_updateCached_of_pair {f : DBContact → DBContact} (hc : c ≠ 0)
    (hf : ∀ dbc, (f dbc).firstUnread c = dbc.firstUnread c)
    : (s.updateCached c f).first? c' = s.first? c' := by
  rw [updateCached_eq_updateDbc hc]
  unfold first?
  rw [dbc?_updateDbc]
  split
  . next heq =>
    rw [heq, Option.map_map]
    congr 1
    funext dbc
    exact hf dbc
  . rfl

theorem saved_saveCached (hc : c ≠ 0) (hmem : c ∈ s.m_cache)
    (hsaved : ∀ c, s.savedFirst? c = s.first? c)
    : ∀ c', (s.saveCached c).savedFirst? c' = (s.saveCached c).first? c' := by
  intro c'
  rcases Option.isSome_iff_exists.1 (dbc?_isSome_iff.2 (.inr hmem)) with ⟨dbc, hdbc⟩
  rw [saveCached_eq_saveDbc hc]
  unfold first? savedFirst?
  rw [dbc?_saveDbc, saved?_saveDbc dbc hdbc]
  split
  . next heq => rw [heq, hdbc]
  . exact hsaved c'

theorem mergeHistory_effect {ccMeta : MCONTACT} (hc : ccMeta ≠ 0) (list : List EventItem)
    : (∀ c, (s.mergeHistory ccMeta list).first? c = s.first? c) ∧
      (∀ c, (s.mergeHistory ccMeta list).savedFirst? c = s.savedFirst? c) ∧
      (s.mergeHistory ccMeta list).m_dbEvents = s.m_dbEvents ∧
      ∀ k, k ∈ (s.mergeHistory ccMeta list).m_dbEventsSort ↔
        k ∈ s.m_dbEventsSort ∨ k ∈ list.map (·.key ccMeta) := by
  induction list generalizing s with
  | nil => simp [mergeHistory]
  | cons EI list ih =>
    unfold mergeHistory
    dsimp only
    rcases ih (s := (s.putKey (EI.key ccMeta)).updateCached ccMeta _) with
      ⟨hfirst, hsaved, hevents, hkeys⟩
    refine ⟨?_, ?_, hevents, ?_⟩
    . intro c
      rw [hfirst]
      exact first?_updateCached_of_pair hc (fun dbc => dbc.firstUnread_count _ _)
    . intro c
      rw [hsaved]
      rfl
    . intro k
      rw [hkeys]
      show k ∈ (s.putKey (EI.key ccMeta)).m_dbEventsSort ∨ _ ↔ _
      rw [putKey_m_dbEventsSort, Table.mem_put, List.map_cons, List.mem_cons]
      tauto

def MergeSafe (s : Store) (ccMeta ccSub : MCONTACT) : Prop :=
  ∀ EI ∈ s.GatherContactHistory ccSub, s.IsUnread EI.eventId →
    ∃ u ∈ s.Unread ccMeta, u ≤ EI.key ccMeta

theorem PairInv.mergeHistory (h : PairInv s) {ccMeta : MCONTACT} (hmem : ccMeta ∈ s.m_cache)
    {list : List EventItem}
    (hsafe : ∀ EI ∈ list, s.IsUnread EI.eventId → ∃ u ∈ s.Unread ccMeta, u ≤ EI.key ccMeta)
    : PairInv ((s.mergeHistory ccMeta list).saveCached ccMeta) := by
  have hne := h.ne_zero hmem
  rcases mergeHistory_effect (s := s) hne list with ⟨hfirst, hsaved, hevents, hkeys⟩
  rcases h.toWellFormed.mergeHistory hmem list with ⟨hwf, hmem'⟩
  refine ⟨hwf.saveCached hmem', ?_, ?_⟩
  . intro c m hm
    have hm : s.first? c = some m := by
      rw [← hfirst, ← hm, saveCached_eq_saveDbc hne]
      unfold first?
      rw [dbc?_saveDbc]
    have hunread (k : DBEventSortingKey)
        : k ∈ ((s.mergeHistory ccMeta list).saveCached ccMeta).Unread c ↔
            (k ∈ s.m_dbEventsSort ∨ k ∈ list.map (·.key ccMeta)) ∧ k.hContact = c ∧
              s.IsUnread k.hEvent := by
      rw [saveCached_eq_saveDbc hne]
      unfold Unread IsUnread
      simp only [Set.mem_ofPred_eq, saveDbc_m_dbEventsSort, saveDbc_m_dbEvents, hkeys, hevents]
    apply (h.first c m hm).superset
    . rintro k ⟨hk, hc, hread⟩
      exact (hunread k).2 ⟨.inl hk, hc, hread⟩
    . intro k hk
      rcases (hunread k).1 hk with ⟨hold | hnew, rfl, hread⟩
      . exact ⟨k, ⟨hold, rfl, hread⟩, le_rfl⟩
      . rcases List.mem_map.1 hnew with ⟨EI, hEI, rfl⟩
        exact hsafe EI hEI hread
  . apply saved_saveCached hne hmem'
    intro c
    rw [hfirst, hsaved, h.saved]

def removedKeys (t : Table DBEventSortingKey (List UInt8))
    : List DBEventSortingKey → List DBEventSortingKey
  | [] => []
  | k :: keys => if k ∉ t then [] else k :: removedKeys (t.del k) keys

theorem splitHistory_effect {ccMeta : MCONTACT} (hc : ccMeta ≠ 0) (list : List EventItem)
    : (∀ c, (s.splitHistory ccMeta list).1.first? c = s.first? c) ∧
      (∀ c, (s.splitHistory ccMeta list).1.savedFirst? c = s.savedFirst? c) ∧
      (s.splitHistory ccMeta list).1.m_dbEvents = s.m_dbEvents ∧
      ∀ k, k ∈ (s.splitHistory ccMeta list).1.m_dbEventsSort ↔
        k ∈ s.m_dbEventsSort ∧ k ∉ removedKeys s.m_dbEventsSort (list.map (·.key ccMeta)) := by
  induction list generalizing s with
  | nil => simp [splitHistory, removedKeys]
  | cons EI list ih =>
    unfold splitHistory
    rw [List.map_cons]
    unfold removedKeys
    split
    . next hmissing => simp
    . next hthere =>
      dsimp only
      rcases ih (s := (s.delKey (EI.key ccMeta)).updateCached ccMeta _) with
        ⟨hfirst, hsaved, hevents, hkeys⟩
      refine ⟨?_, ?_, hevents, ?_⟩
      . intro c
        rw [hfirst]
        exact first?_updateCached_of_pair hc (fun dbc => dbc.firstUnread_count _ _)
      . intro c
        rw [hsaved]
        rfl
      . intro k
        rw [hkeys]
        show k ∈ (s.delKey (EI.key ccMeta)).m_dbEventsSort ∧
          k ∉ removedKeys (s.m_dbEventsSort.del _) _ ↔ _
        rw [delKey_m_dbEventsSort, Table.mem_del, List.mem_cons]
        tauto

theorem PairInv.of_removed (h : PairInv s) (hwf : WellFormed s') {gone : Set DBEventSortingKey}
    (hfirst : ∀ c, s'.first? c = s.first? c)
    (hsaved : ∀ c, s'.savedFirst? c = s'.first? c)
    (hread : ∀ e, s'.IsUnread e ↔ s.IsUnread e)
    (hkeys : ∀ k, k ∈ s'.m_dbEventsSort ↔ k ∈ s.m_dbEventsSort ∧ k ∉ gone)
    (hsafe : s.GoneSafe (fun _ _ => False) gone)
    : PairInv s' := by
  refine ⟨hwf, h.first_of_gone ?_ ?_ hsafe, hsaved⟩
  . intro c _
    ext k
    unfold Unread
    simp only [Set.mem_sdiff, Set.mem_ofPred_eq, hkeys, hread]
    tauto
  . intro c m hm
    exact ⟨m, hfirst c ▸ hm, .inr ⟨not_false, rfl⟩⟩

theorem PairInv.MetaSplitHistory (h : PairInv s) {ccMeta ccSub : MCONTACT}
    (hsafe : s.GoneSafe (fun _ _ => False)
      { k | k ∈ removedKeys s.m_dbEventsSort
        ((s.GatherContactHistory ccSub).map (·.key ccMeta)) })
    : PairInv (s.MetaSplitHistory ccMeta ccSub).1 := by
  unfold Store.MetaSplitHistory
  split
  . exact h
  . next hcached =>
    have hmem : ccMeta ∈ s.m_cache := by tauto
    have hne := h.ne_zero hmem
    rcases splitHistory_effect (s := s) hne (s.GatherContactHistory ccSub) with
      ⟨hfirst, hsaved, hevents, hkeys⟩
    rcases h.toWellFormed.splitHistory hmem (s.GatherContactHistory ccSub) with ⟨hwf, hmem'⟩
    have hsplit : PairInv (s.splitHistory ccMeta (s.GatherContactHistory ccSub)).1 := by
      refine h.of_removed hwf hfirst ?_ ?_ hkeys hsafe
      . intro c
        rw [hfirst, hsaved, h.saved]
      . intro e
        unfold IsUnread
        rw [hevents]
    dsimp only
    split
    . refine ⟨hsplit.saveCached hmem', ?_, saved_saveCached hne hmem' hsplit.saved⟩
      rw [saveCached_eq_saveDbc hne, saveDbc_frame]
      exact hsplit.first
    . exact hsplit

theorem isUnread_rewriteOwner {parentID : MCONTACT} {e' : MEVENT}
    : (s.rewriteOwner env parentID e).IsUnread e' ↔ s.IsUnread e' := by
  unfold rewriteOwner
  split
  . rfl
  . next data hdata =>
    dsimp only
    rw [isUnread_putEvent]
    split
    . next heq =>
      subst heq
      unfold IsUnread
      rw [hdata]
      simp [DBEvent.markedRead]
    . rfl

theorem removeSubHistory_effect (env : Env) (ccSub parentID : MCONTACT) (list : List EventItem)
    : (∀ c, (s.removeSubHistory env ccSub parentID list).1.first? c = s.first? c) ∧
      (∀ c, (s.removeSubHistory env ccSub parentID list).1.savedFirst? c = s.savedFirst? c) ∧
      (∀ e, (s.removeSubHistory env ccSub parentID list).1.IsUnread e ↔ s.IsUnread e) ∧
      ∀ k, k ∈ (s.removeSubHistory env ccSub parentID list).1.m_dbEventsSort ↔
        k ∈ s.m_dbEventsSort ∧ k ∉ removedKeys s.m_dbEventsSort (list.map (·.key ccSub)) := by
  induction list generalizing s with
  | nil => simp [removeSubHistory, removedKeys]
  | cons EI list ih =>
    have hfirst' (c : MCONTACT)
        : (s.rewriteOwner env parentID EI.eventId).first? c = s.first? c := by
      unfold rewriteOwner
      split <;> rfl
    have hsaved' (c : MCONTACT)
        : (s.rewriteOwner env parentID EI.eventId).savedFirst? c = s.savedFirst? c := by
      unfold rewriteOwner
      split <;> rfl
    have hsort : (s.rewriteOwner env parentID EI.eventId).m_dbEventsSort = s.m_dbEventsSort := by
      unfold rewriteOwner
      split <;> rfl
    unfold removeSubHistory
    rw [List.map_cons]
    unfold removedKeys
    dsimp only
    rw [hsort]
    split
    . simp [hfirst', hsaved', hsort, isUnread_rewriteOwner]
    . rcases ih (s := (s.rewriteOwner env parentID EI.eventId).delKey (EI.key ccSub)) with
        ⟨hfirst, hsaved, hread, hkeys⟩
      refine ⟨fun c => (hfirst c).trans (hfirst' c), fun c => (hsaved c).trans (hsaved' c),
        fun e => (hread e).trans isUnread_rewriteOwner, ?_⟩
      intro k
      rw [hkeys, delKey_m_dbEventsSort, hsort, Table.mem_del, List.mem_cons]
      tauto

theorem PairInv.MetaRemoveSubHistory (h : PairInv s) {ccSub : MCONTACT}
    (hsafe : s.GoneSafe (fun _ _ => False)
      { k | k ∈ removedKeys s.m_dbEventsSort
        ((s.GatherContactHistory ccSub).map (·.key ccSub)) })
    : PairInv (s.MetaRemoveSubHistory env ccSub).1 := by
  unfold Store.MetaRemoveSubHistory
  split
  . exact h
  . next cc hcc =>
    rcases removeSubHistory_effect (s := s) env ccSub cc.parentID
      (s.GatherContactHistory ccSub) with ⟨hfirst, hsaved, hread, hkeys⟩
    refine h.of_removed (h.toWellFormed.removeSubHistory _ _ _) hfirst ?_ hread hkeys hsafe
    intro c
    rw [hfirst, hsaved, h.saved]

end Store
end Dbx
