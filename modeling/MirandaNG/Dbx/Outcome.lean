import MirandaNG.Data.Flags
import MirandaNG.Dbx.Lemmas

/-!
This module says once what the longer event operations can do: for each of them the ways it can end,
with the checks that were passed on the way.
-/

namespace Dbx

open Kv

namespace Store

variable {s : Store} {env : Env} {c : MCONTACT} {e : MEVENT}

theorem makeRecord_timestamp {iModuleId : Nat} {dbei : DBEVENTINFO}
    : (s.makeRecord env c iModuleId dbei).dbe.timestamp = dbei.getUnixtime := by
  rfl

theorem makeRecord_markedRead {iModuleId : Nat} {dbei : DBEVENTINFO}
    : (s.makeRecord env c iModuleId dbei).dbe.markedRead = dbei.markedRead := by
  unfold DBEvent.markedRead DBEVENTINFO.markedRead makeRecord
  dsimp only
  rw [Flags.or_and_of_disjoint, Flags.or_and_of_disjoint]
  . split <;> decide
  . split <;> decide

theorem historyOf_isSome {cc : MCONTACT} {ccSub : Option MCONTACT}
    (h : s.historyOf c = some (cc, ccSub))
    : (s.dbc? cc).isSome ∧ ∀ c' ∈ ccSub, (s.dbc? c').isSome := by
  simp only [dbc?_isSome_iff]
  unfold historyOf at h
  split at h
  . cases h
    simp
  . split at h
    . cases h
    . next cc' hcc =>
      have hmem : c ∈ s.m_cache := Table.mem_iff_exists.2 ⟨_, hcc⟩
      split at h
      . split at h
        . cases h
        . next ccMeta hmeta =>
          have : cc'.parentID ∈ s.m_cache := Table.mem_iff_exists.2 ⟨_, hmeta⟩
          cases h
          simp_all
      . cases h
        simp_all

theorem CheckEvent_mem {cc : DBCachedContact} {dbe : DBEvent} {c₂ : MCONTACT}
    (h : s.CheckEvent c cc dbe = some (some c₂))
    : c₂ ∈ s.m_cache := by
  unfold CheckEvent at h
  split at h
  . split at h
    . cases h
    . simp only [Option.some.injEq, Option.map_eq_some_iff] at h
      rcases h with ⟨ccMeta, hmeta, heq⟩
      exact heq ▸ Table.mem_iff_exists.2 ⟨_, hmeta⟩
  . split at h
    . split at h
      . cases h
      . next cc₂ hcc₂ =>
        split at h
        . cases h
          exact Table.mem_iff_exists.2 ⟨_, hcc₂⟩
        . cases h
    . split at h <;> cases h

inductive EditEvent'.Outcome (s : Store) (env : Env) (c : MCONTACT) (e : MEVENT)
    (dbei : DBEVENTINFO) (bNew : Bool) : Store × Bool → Prop where
  | refused : Outcome s env c e dbei bNew ((s.insertModule dbei.szModule), false)
  | done (cc : MCONTACT) (ccSub : Option MCONTACT)
      (hhistory : s.historyOf c = some (cc, ccSub))
      (hfilter : (bNew && s.m_safetyMode && env.filtered) = false)
      : Outcome s env c e dbei bNew
          ((s.insertModule dbei.szModule).writeEvent cc ccSub e
            ((s.insertModule dbei.szModule).makeRecord env c (moduleID dbei.szModule) dbei)
            dbei.szId,
           true)

theorem EditEvent'_outcome (s : Store) (env : Env) (c : MCONTACT) (e : MEVENT)
    (dbei : DBEVENTINFO) (bNew : Bool)
    : EditEvent'.Outcome s env c e dbei bNew (s.EditEvent' env c e dbei bNew) := by
  rcases insertModule_frame s dbei.szModule with ⟨dbModules, modules, hframe⟩
  have hhistory : (s.insertModule dbei.szModule).historyOf c = s.historyOf c := by
    rw [hframe]
    rfl
  have hmode : (s.insertModule dbei.szModule).m_safetyMode = s.m_safetyMode := by
    rw [hframe]
  unfold EditEvent' GetModuleID
  dsimp only
  split
  . exact .refused
  . next cc ccSub hsome =>
    split
    . exact .refused
    . next hfilter =>
      rw [hmode] at hfilter
      exact .done cc ccSub (hhistory ▸ hsome) (by simpa using hfilter)

structure DeleteEvent.Guard (s : Store) (e : MEVENT) (data : EventRecord) (cc2 : Option MCONTACT)
    : Prop where
  found : s.m_dbEvents.get? e = some data
  checked : ∃ cc, s.contact? data.dbe.dwContactID = some cc ∧ cc.dbc.dwEventCount ≠ 0 ∧
    s.CheckEvent data.dbe.dwContactID cc data.dbe = some cc2
  filed : ⟨data.dbe.dwContactID, e, data.dbe.timestamp⟩ ∈ s.m_dbEventsSort

/--
The ends of `DeleteEvent`: it ends half way when the other contact has no key for the event.
-/
inductive DeleteEvent.Outcome (s : Store) (env : Env) (e : MEVENT) : Store × Bool → Prop where
  | refused : Outcome s env e (s, false)
  | single (data : EventRecord) (h : DeleteEvent.Guard s e data none)
      : Outcome s env e
          ((s.unfileEvent env ⟨data.dbe.dwContactID, e, data.dbe.timestamp⟩).eraseRecord env e data,
           true)
  | half (data : EventRecord) (c₂ : MCONTACT) (h : DeleteEvent.Guard s e data (some c₂))
      (hfiled : ⟨c₂, e, data.dbe.timestamp⟩ ∉
        (s.unfileEvent env ⟨data.dbe.dwContactID, e, data.dbe.timestamp⟩).m_dbEventsSort)
      : Outcome s env e (s.unfileEvent env ⟨data.dbe.dwContactID, e, data.dbe.timestamp⟩, false)
  | double (data : EventRecord) (c₂ : MCONTACT) (h : DeleteEvent.Guard s e data (some c₂))
      (hfiled : ⟨c₂, e, data.dbe.timestamp⟩ ∈
        (s.unfileEvent env ⟨data.dbe.dwContactID, e, data.dbe.timestamp⟩).m_dbEventsSort)
      : Outcome s env e
          (((s.unfileEvent env ⟨data.dbe.dwContactID, e, data.dbe.timestamp⟩).unfileCached env
            ⟨c₂, e, data.dbe.timestamp⟩).eraseRecord env e data, true)

theorem DeleteEvent_outcome (s : Store) (env : Env) (e : MEVENT)
    : DeleteEvent.Outcome s env e (s.DeleteEvent env e) := by
  unfold DeleteEvent
  split
  . exact .refused
  . next data hdata =>
    dsimp only
    split
    . exact .refused
    . next cc hcc =>
      split
      . exact .refused
      . next hcount =>
        split
        . exact .refused
        . next cc2 hcheck =>
          split
          . exact .refused
          . next hfiled =>
            have hguard : DeleteEvent.Guard s e data cc2 :=
              ⟨hdata, ⟨cc, hcc, hcount, hcheck⟩, not_not.1 hfiled⟩
            split
            . exact .single data hguard
            . next c₂ =>
              split
              . next h => exact .half data c₂ hguard h
              . next h => exact .double data c₂ hguard (not_not.1 h)

/--
The other contact has its key for the event, so that `DeleteEvent` reaches the record.
-/
def DeletesRecord (s : Store) (e : MEVENT) (data : EventRecord) (cc2 : Option MCONTACT) : Prop :=
  ∀ c ∈ cc2, c ≠ data.dbe.dwContactID ∧ ⟨c, e, data.dbe.timestamp⟩ ∈ s.m_dbEventsSort

theorem not_deletesRecord {data : EventRecord} {c₂ : MCONTACT}
    (h : ⟨c₂, e, data.dbe.timestamp⟩ ∉
      (s.unfileEvent env ⟨data.dbe.dwContactID, e, data.dbe.timestamp⟩).m_dbEventsSort)
    : ¬ s.DeletesRecord e data (some c₂) := by
  intro hdel
  rcases hdel c₂ rfl with ⟨hne, hmem⟩
  apply h
  rw [unfileEvent_m_dbEventsSort, Table.mem_del]
  exact ⟨fun heq => hne (congrArg DBEventSortingKey.hContact heq), hmem⟩

theorem deletesRecord_of_filed {data : EventRecord} {c₂ : MCONTACT}
    (h : ⟨c₂, e, data.dbe.timestamp⟩ ∈
      (s.unfileEvent env ⟨data.dbe.dwContactID, e, data.dbe.timestamp⟩).m_dbEventsSort)
    : s.DeletesRecord e data (some c₂) := by
  rintro c ⟨⟩
  rw [unfileEvent_m_dbEventsSort, Table.mem_del] at h
  exact ⟨fun heq => h.1 (heq ▸ rfl), h.2⟩

variable {data : EventRecord}

theorem eraseRecord_m_dbEvents : (s.eraseRecord env e data).m_dbEvents = s.m_dbEvents.del e := by
  unfold eraseRecord
  dsimp only
  split <;> rfl

theorem eraseRecord_m_dbEventsSort
    : (s.eraseRecord env e data).m_dbEventsSort = s.m_dbEventsSort := by
  unfold eraseRecord
  dsimp only
  split <;> rfl

structure MarkEventRead.Guard (s : Store) (c : MCONTACT) (e : MEVENT) (data : EventRecord)
    (cc2 : Option MCONTACT) : Prop where
  nonzero : e ≠ 0
  found : s.m_dbEvents.get? e = some data
  unread : data.dbe.markedRead = false
  checked : ∃ cc, s.m_cache.get? c = some cc ∧ s.CheckEvent c cc data.dbe = some cc2

def setRead (s : Store) (e : MEVENT) (data : EventRecord) : Store :=
  let dbe := { data.dbe with flags := data.dbe.flags ||| DBEF_READ }
  s.putEvent e { data with dbe }

inductive MarkEventRead.Outcome (s : Store) (env : Env) (c : MCONTACT) (e : MEVENT)
    : Store → Prop where
  | refused : Outcome s env c e s
  | single (data : EventRecord) (h : MarkEventRead.Guard s c e data none)
      : Outcome s env c e
          ((s.setRead e data).refreshUnread env ⟨c, e, data.dbe.timestamp⟩)
  | double (data : EventRecord) (c₂ : MCONTACT) (h : MarkEventRead.Guard s c e data (some c₂))
      : Outcome s env c e
          (((s.setRead e data).refreshUnread env ⟨c, e, data.dbe.timestamp⟩).refreshUnread env
            ⟨c₂, e, data.dbe.timestamp⟩)

theorem MarkEventRead_outcome (s : Store) (env : Env) (c : MCONTACT) (e : MEVENT)
    : MarkEventRead.Outcome s env c e (s.MarkEventRead env c e).1 := by
  unfold MarkEventRead
  split
  . exact .refused
  . next hnonzero =>
    split
    . exact .refused
    . next cc hcc =>
      split
      . exact .refused
      . next data hdata =>
        dsimp only
        split
        . exact .refused
        . next hunread =>
          split
          . exact .refused
          . next cc2 hcheck =>
            have hguard : MarkEventRead.Guard s c e data cc2 :=
              ⟨hnonzero, hdata, by simpa using hunread, cc, hcc, hcheck⟩
            cases cc2 with
            | none => exact .single data hguard
            | some c₂ => exact .double data c₂ hguard

inductive DeleteContact.Outcome (s : Store) (env : Env) (c : MCONTACT) : Store × Bool → Prop where
  | refused : Outcome s env c (s, false)
  | half (cc : DBCachedContact) (hcc : s.m_cache.get? c = some cc) (hstored : c ∉ s.m_dbContacts)
      : Outcome s env c (s.wipeHistory env c cc, false)
  | done (cc : DBCachedContact) (hcc : s.m_cache.get? c = some cc) (hstored : c ∈ s.m_dbContacts)
      : Outcome s env c ((s.wipeHistory env c cc).removeContact c, true)

theorem wipeHistory_m_dbContacts {cc : DBCachedContact}
    : (s.wipeHistory env c cc).m_dbContacts = s.m_dbContacts := by
  unfold wipeHistory
  dsimp only
  rw [foldl_delEvent_frame, foldl_delKey_frame]

theorem DeleteContact_outcome (s : Store) (env : Env) (c : MCONTACT)
    : DeleteContact.Outcome s env c (s.DeleteContact env c) := by
  unfold DeleteContact
  split
  . exact .refused
  . next cc hcc =>
    dsimp only
    rw [wipeHistory_m_dbContacts]
    split
    . next hstored => exact .half cc hcc hstored
    . next hstored => exact .done cc hcc (not_not.1 hstored)

end Store
end Dbx
