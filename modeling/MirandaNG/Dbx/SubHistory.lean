import MirandaNG.Dbx.MetaHistory

/-!
This module contains what giving the history of a sub to its meta contact changes: the sorting keys
of the sub go, its events get a new owner, and nothing else is touched. The bytes behind the header
of a record that was written anew are those of the stack, so they are left open here.
-/

namespace Dbx

open Kv Crypt Transition

def EventRecord.disown (env : Env) (parentID : MCONTACT) (data : EventRecord) : EventRecord where
  dbe := { data.dbe with dwContactID := parentID }
  tail := (List.range data.tail.length).map env.behindTmp

theorem EventRecord.disown_disown (env : Env) (parentID : MCONTACT) (data : EventRecord)
    : (data.disown env parentID).disown env parentID = data.disown env parentID := by
  unfold disown
  simp

namespace Store

variable {s : Store} {env : Env} {ccSub parentID : MCONTACT} {e : MEVENT}

theorem rewriteOwner_frame (s : Store) (env : Env) (parentID : MCONTACT) (e : MEVENT)
    : s.rewriteOwner env parentID e =
        { s with m_dbEvents := (s.rewriteOwner env parentID e).m_dbEvents } := by
  unfold rewriteOwner
  split <;> rfl

theorem get?_rewriteOwner {e' : MEVENT}
    : (s.rewriteOwner env parentID e).m_dbEvents.get? e' =
        if e' = e then
          (s.m_dbEvents.get? e').map (·.disown env parentID)
        else
          s.m_dbEvents.get? e' := by
  unfold rewriteOwner
  split
  . next hnone =>
    split
    . next heq => rw [heq, hnone]; rfl
    . rfl
  . next data hdata =>
    dsimp only
    rw [putEvent_m_dbEvents, Table.get?_put]
    split
    . next heq => rw [heq, hdata]; rfl
    . rfl

theorem removeSubHistory_frame (s : Store) (env : Env) (ccSub parentID : MCONTACT)
    (list : List EventItem)
    : (s.removeSubHistory env ccSub parentID list).1 =
        { s with
          m_dbEvents := (s.removeSubHistory env ccSub parentID list).1.m_dbEvents
          m_dbEventsSort := (s.removeSubHistory env ccSub parentID list).1.m_dbEventsSort } := by
  induction list generalizing s with
  | nil => rfl
  | cons EI list ih =>
    unfold removeSubHistory
    dsimp only
    split
    . rw [rewriteOwner_frame]
    . rw [ih, rewriteOwner_frame]
      rfl

theorem get?_removeSubHistory_m_dbEventsSort (list : List EventItem) {k : DBEventSortingKey}
    (hk : k.hContact ≠ ccSub)
    : (s.removeSubHistory env ccSub parentID list).1.m_dbEventsSort.get? k =
        s.m_dbEventsSort.get? k := by
  induction list generalizing s with
  | nil => rfl
  | cons EI list ih =>
    unfold removeSubHistory
    dsimp only
    split
    . rw [rewriteOwner_frame]
    . rw [ih, delKey_m_dbEventsSort, rewriteOwner_frame, Table.get?_del_ne]
      rintro rfl
      exact hk rfl

theorem removeSubHistory_m_dbEvents (s : Store) (env : Env) (ccSub parentID : MCONTACT)
    (list : List EventItem)
    : ∃ done ⊆ list.map (·.eventId),
        ∀ e, (s.removeSubHistory env ccSub parentID list).1.m_dbEvents.get? e =
          if e ∈ done then
            (s.m_dbEvents.get? e).map (·.disown env parentID)
          else
            s.m_dbEvents.get? e := by
  induction list generalizing s with
  | nil => exact ⟨[], List.nil_subset _, fun e => (if_neg List.not_mem_nil).symm⟩
  | cons EI list ih =>
    unfold removeSubHistory
    dsimp only
    split
    . refine ⟨[EI.eventId], by simp, ?_⟩
      intro e
      rw [get?_rewriteOwner]
      simp only [List.mem_singleton]
    . rcases ih ((s.rewriteOwner env parentID EI.eventId).delKey (EI.key ccSub)) with
        ⟨done, hdone, hevents⟩
      refine ⟨EI.eventId :: done, ?_, ?_⟩
      . rw [List.map_cons]
        exact List.cons_subset_cons _ hdone
      . intro e
        rw [hevents, delKey_m_dbEvents, get?_rewriteOwner]
        by_cases hhead : e = EI.eventId
        . by_cases hrest : e ∈ done
          . simp only [hhead ▸ hrest, hhead, List.mem_cons, true_or, ↓reduceIte, Option.map_map]
            congr 1
            funext data
            exact data.disown_disown env parentID
          . simp [hhead, hhead ▸ hrest]
        . simp [hhead]

theorem get?_removeSubHistory_head (EI : EventItem) (list : List EventItem)
    (hthere : EI.key ccSub ∈ s.m_dbEventsSort)
    : (s.removeSubHistory env ccSub parentID (EI :: list)).1.m_dbEvents.get? EI.eventId =
        (s.m_dbEvents.get? EI.eventId).map (·.disown env parentID) := by
  unfold removeSubHistory
  dsimp only
  rw [rewriteOwner_frame]
  dsimp only
  rw [if_neg (not_not.2 hthere), ← rewriteOwner_frame]
  rcases removeSubHistory_m_dbEvents
    ((s.rewriteOwner env parentID EI.eventId).delKey (EI.key ccSub)) env ccSub parentID list with
    ⟨done, _, hevents⟩
  rw [hevents, delKey_m_dbEvents, get?_rewriteOwner, if_pos rfl]
  split
  . rw [Option.map_map]
    congr 1
    funext data
    exact data.disown_disown env parentID
  . rfl

theorem removeSubHistory_done {list : List EventItem}
    (hdistinct : (list.map (·.key ccSub)).Nodup)
    (hthere : ∀ k ∈ list.map (·.key ccSub), k ∈ s.m_dbEventsSort)
    : (s.removeSubHistory env ccSub parentID list).2 = true ∧
        (s.removeSubHistory env ccSub parentID list).1.m_dbEventsSort =
          (list.map (·.key ccSub)).foldl .del s.m_dbEventsSort ∧
        ∀ e ∈ list.map (·.eventId),
          (s.removeSubHistory env ccSub parentID list).1.m_dbEvents.get? e =
            (s.m_dbEvents.get? e).map (·.disown env parentID) := by
  induction list generalizing s with
  | nil => exact ⟨rfl, rfl, fun e he => absurd he List.not_mem_nil⟩
  | cons EI list ih =>
    rw [List.map_cons] at hdistinct hthere
    rw [List.nodup_cons] at hdistinct
    have hfirst := hthere _ List.mem_cons_self
    have hhead := @get?_removeSubHistory_head s env ccSub parentID EI list hfirst
    have hsort : (s.rewriteOwner env parentID EI.eventId).m_dbEventsSort = s.m_dbEventsSort := by
      rw [rewriteOwner_frame]
    unfold removeSubHistory at hhead ⊢
    dsimp only at hhead ⊢
    rw [hsort, if_neg (not_not.2 hfirst)] at hhead ⊢
    have hrest := ih (s := (s.rewriteOwner env parentID EI.eventId).delKey (EI.key ccSub))
      hdistinct.2 ?there
    case there =>
      intro k hk
      rw [delKey_m_dbEventsSort, hsort, Table.mem_del]
      constructor
      . rintro rfl
        exact hdistinct.1 hk
      . exact hthere k (List.mem_cons_of_mem _ hk)
    rcases hrest with ⟨hok, hkeys, hevents⟩
    refine ⟨hok, ?_, ?_⟩
    . rw [hkeys, delKey_m_dbEventsSort, hsort]
      rfl
    . intro e he
      rw [List.map_cons, List.mem_cons] at he
      by_cases heq : e = EI.eventId
      . rw [heq]
        exact hhead
      . rw [hevents e (he.resolve_left heq), delKey_m_dbEvents, get?_rewriteOwner, if_neg heq]

-- What the call does to the history of a sub: whatever the memory behind a record holds, every other
-- contact keeps its keys, every event its header up to the owner and its length, and every event
-- the sub has no key for its whole record.
structure GivesAway (s : Store) (env : Env) (ccSub parentID : MCONTACT) (t : Store × Bool) : Prop where
  others : ∀ k, k.hContact ≠ ccSub → t.1.m_dbEventsSort.get? k = s.m_dbEventsSort.get? k
  untouched : ∀ e, (∀ k ∈ s.historyKeys ccSub, k.hEvent ≠ e) →
    t.1.m_dbEvents.get? e = s.m_dbEvents.get? e
  header : ∀ e data, s.m_dbEvents.get? e = some data → ∃ data', t.1.m_dbEvents.get? e = some data' ∧
    (data'.dbe = data.dbe ∨ data'.dbe = { data.dbe with dwContactID := parentID }) ∧
    data'.tail.length = data.tail.length
  rest : t.1 = { s with m_dbEvents := t.1.m_dbEvents, m_dbEventsSort := t.1.m_dbEventsSort }
  -- the timestamps the `int` of a gathered event carries
  done : (∀ k ∈ s.historyKeys ccSub, k.ts < 2 ^ 31) → t.2 = true ∧ t.1.historyKeys ccSub = [] ∧
    ∀ k ∈ s.historyKeys ccSub, ∀ data, t.1.m_dbEvents.get? k.hEvent = some data →
      data.dbe.dwContactID = parentID

theorem gathered_eventId (s : Store) (c : MCONTACT)
    : (s.GatherContactHistory c).map (·.eventId) = (s.historyKeys c).map (·.hEvent) := by
  unfold GatherContactHistory
  rw [List.map_map]
  rfl

theorem mergedKeys_self (hts : ∀ k ∈ s.historyKeys ccSub, k.ts < 2 ^ 31)
    : s.mergedKeys ccSub ccSub = s.historyKeys ccSub := by
  unfold mergedKeys GatherContactHistory
  rw [List.map_map]
  calc
    (s.historyKeys ccSub).map _ = (s.historyKeys ccSub).map id := by
      apply List.map_congr_left
      intro k hk
      rw [Function.comp_apply, key_of_lt (hts k hk), ← (mem_historyKeys.1 hk).2]
      rfl
    _ = s.historyKeys ccSub := List.map_id _

theorem givesAway (cc : DBCachedContact) (hcc : s.m_cache.get? ccSub = some cc)
    : s.GivesAway env ccSub cc.parentID (s.MetaRemoveSubHistory env ccSub) := by
  unfold MetaRemoveSubHistory
  simp only [hcc]
  rcases removeSubHistory_m_dbEvents s env ccSub cc.parentID (s.GatherContactHistory ccSub) with
    ⟨visited, hvisited, hevents⟩
  rw [gathered_eventId] at hvisited
  constructor
  case others =>
    intro k hk
    exact get?_removeSubHistory_m_dbEventsSort _ hk
  case untouched =>
    intro e he
    rw [hevents, if_neg]
    intro hmem
    rcases List.mem_map.1 (hvisited hmem) with ⟨k, hk, heq⟩
    exact he k hk heq
  case header =>
    intro e data hdata
    rw [hevents, hdata]
    split
    . exact ⟨_, rfl, .inr rfl, by simp [EventRecord.disown]⟩
    . exact ⟨data, rfl, .inl rfl, rfl⟩
  case rest => apply removeSubHistory_frame
  case done =>
    intro hts
    have hkeys : (s.GatherContactHistory ccSub).map (·.key ccSub) = s.historyKeys ccSub :=
      mergedKeys_self hts
    have hdistinct : ((s.GatherContactHistory ccSub).map (·.key ccSub)).Nodup := by
      rw [hkeys]
      exact (s.historyKeys_sorted ccSub).nodup
    have hthere : ∀ k ∈ (s.GatherContactHistory ccSub).map (·.key ccSub), k ∈ s.m_dbEventsSort := by
      rw [hkeys]
      exact fun k hk => (mem_historyKeys.1 hk).1
    rcases @removeSubHistory_done s env ccSub cc.parentID _ hdistinct hthere with ⟨hok, hsort, hall⟩
    refine ⟨hok, ?_, ?_⟩
    . rw [List.eq_nil_iff_forall_not_mem]
      intro k hk
      rcases mem_historyKeys.1 hk with ⟨hmem, hcontact⟩
      rw [hsort, Table.mem_foldl_del] at hmem
      apply hmem.1
      rw [hkeys, mem_historyKeys]
      exact ⟨hmem.2, hcontact⟩
    . intro k hk data hdata
      rw [hall, Option.map_eq_some_iff] at hdata
      . rcases hdata with ⟨old, _, rfl⟩
        rfl
      . rw [gathered_eventId]
        exact List.mem_map_of_mem hk

def filedTwice : Store :=
  [Call.AddContact, .AddContact, .SetLinks 2 { nSubs := 1 }, .SetLinks 1 { parentID := 2 },
    .AddEvent {} 1 { iTimestamp := 5 }].foldl step (create default false)

theorem givesAway_filedTwice : filedTwice.GivesAway {} 1 2 (filedTwice.MetaRemoveSubHistory {} 1) := by
  have hcc : filedTwice.m_cache.get? 1 = some { parentID := 2, dbc := ⟨1, 1, 5⟩ } := by decide
  exact givesAway _ hcc

-- The key of the meta contact stays, and that of the sub goes.
theorem not_removes_from_meta
    : ¬ ∀ (m_crypto : MICryptoEngine) (m_bEncrypted : Bool) (s : Store) (env : Env)
        (ccSub : MCONTACT) (cc : DBCachedContact), Run step Succeeds (create m_crypto m_bEncrypted) s →
        s.m_cache.get? ccSub = some cc → cc.parentID ≠ 0 →
        ∀ k, k ∈ (s.MetaRemoveSubHistory env ccSub).1.m_dbEventsSort ↔
          k ∈ s.m_dbEventsSort ∧
            ¬ (k.hContact = cc.parentID ∧ ∃ k' ∈ s.historyKeys ccSub, k'.hEvent = k.hEvent) := by
  intro h
  have hrun : Run step Succeeds (create default false) filedTwice := by
    apply Run.of_along
    decide
  have hcc : filedTwice.m_cache.get? 1 = some { parentID := 2, dbc := ⟨1, 1, 5⟩ } := by decide
  have hkeys := h default false filedTwice {} 1 _ hrun hcc (by decide) ⟨1, 1, 5⟩
  have hgone : (⟨1, 1, 5⟩ : DBEventSortingKey) ∉
      (filedTwice.MetaRemoveSubHistory {} 1).1.m_dbEventsSort := by decide
  apply hgone
  apply hkeys.2
  constructor
  . decide
  . rintro ⟨hcontact, _⟩
    cases hcontact

end Store
end Dbx
