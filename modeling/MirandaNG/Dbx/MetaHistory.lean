import MirandaNG.Dbx.EventCount

/-!
This module contains what merging the history of a sub into a meta contact and splitting it off again
do to the sort index and to the counters. Both take the keys from a gathered history, which carries
a timestamp through an `int`.
-/

namespace Dbx

open Kv Crypt Transition

theorem EventItem.make_ts_of_lt {ts : Nat} {e : MEVENT} (h : ts < 2 ^ 31) : (make ts e).ts = ts := by
  unfold make
  dsimp only
  split <;> omega

theorem EventItem.make_ts_of_ge {ts : Nat} {e : MEVENT} (h : 2 ^ 31 ≤ ts) (hts : ts < 2 ^ 32)
    : (make ts e).ts = ts + (2 ^ 64 - 2 ^ 32) := by
  unfold make
  dsimp only
  split <;> omega

theorem EventItem.make_inj {ts ts' : Nat} {e e' : MEVENT} (hts : ts < 2 ^ 32) (hts' : ts' < 2 ^ 32)
    (h : make ts e = make ts' e')
    : ts = ts' ∧ e = e' := by
  unfold make at h
  rw [EventItem.mk.injEq] at h
  refine ⟨?_, h.2⟩
  have := h.1
  split at this <;> split at this <;> omega

def DBContact.shift (n : Nat) (dbc : DBContact) : DBContact :=
  { dbc with dwEventCount := (dbc.dwEventCount + n) % 2 ^ 32 }

theorem DBContact.shift_iterate (m n i : Nat) (dbc : DBContact)
    : (shift m)^[i] (shift n dbc) = shift (n + i * m) dbc := by
  induction i with
  | zero => simp
  | succ i ih =>
    rw [Function.iterate_succ_apply', ih]
    unfold shift
    simp only [Nat.mod_add_mod]
    rw [Nat.add_one_mul, Nat.add_assoc, Nat.add_assoc]

theorem DBContact.shift_down_up (i : Nat) {dbc : DBContact} (h : dbc.dwEventCount < 2 ^ 32)
    : (shift (2 ^ 32 - 1))^[i] ((shift 1)^[i] dbc) = dbc := by
  have hzero : shift 0 dbc = dbc := by
    unfold shift
    rw [Nat.add_zero, Nat.mod_eq_of_lt h]
  have hsum : i * 1 + i * (2 ^ 32 - 1) = i * 2 ^ 32 := by omega
  calc
    (shift (2 ^ 32 - 1))^[i] ((shift 1)^[i] dbc) = shift (i * 1 + i * (2 ^ 32 - 1)) dbc := by
      rw [← hzero, shift_iterate, shift_iterate, hzero, Nat.zero_add]
    _ = shift 0 dbc := by
      rw [hsum]
      unfold shift
      rw [Nat.add_mul_mod_self_right, Nat.add_zero]
    _ = dbc := hzero

namespace Store

variable {s : Store} {ccMeta ccSub : MCONTACT}

theorem updateCached_eq_self {c : MCONTACT} {f : DBContact → DBContact}
    (h : ∀ cc, s.m_cache.get? c = some cc → f cc.dbc = cc.dbc)
    : s.updateCached c f = s := by
  unfold updateCached
  rw [Table.modify_eq_self]
  intro cc hcc
  rw [h cc hcc]

theorem updateCached_updateCached (s : Store) (c : MCONTACT) (f g : DBContact → DBContact)
    : (s.updateCached c f).updateCached c g = s.updateCached c (g ∘ f) := by
  unfold updateCached
  dsimp only
  rw [Table.modify_modify]
  rfl

theorem mergeHistory_eq (s : Store) (ccMeta : MCONTACT) (list : List EventItem)
    : s.mergeHistory ccMeta list =
        { s.updateCached ccMeta (DBContact.shift 1)^[list.length] with
          m_dbEventsSort :=
            (list.map (·.key ccMeta)).foldl (fun t k => t.put k [0]) s.m_dbEventsSort } := by
  induction list generalizing s with
  | nil =>
    rw [List.length_nil, Function.iterate_zero, updateCached_eq_self (fun _ _ => rfl)]
    rfl
  | cons EI list ih =>
    unfold mergeHistory
    rw [ih, List.length_cons, Function.iterate_succ, ← updateCached_updateCached]
    rfl

theorem splitHistory_eq {list : List EventItem} (hdistinct : (list.map (·.key ccMeta)).Nodup)
    (hthere : ∀ k ∈ list.map (·.key ccMeta), k ∈ s.m_dbEventsSort)
    : s.splitHistory ccMeta list =
        ({ s.updateCached ccMeta (DBContact.shift (2 ^ 32 - 1))^[list.length] with
           m_dbEventsSort := (list.map (·.key ccMeta)).foldl .del s.m_dbEventsSort }, true) := by
  induction list generalizing s with
  | nil =>
    rw [List.length_nil, Function.iterate_zero, updateCached_eq_self (fun _ _ => rfl)]
    rfl
  | cons EI list ih =>
    rw [List.map_cons] at hdistinct hthere
    rw [List.nodup_cons] at hdistinct
    unfold splitHistory
    rw [if_neg (not_not.2 (hthere _ List.mem_cons_self))]
    dsimp only
    rw [ih hdistinct.2]
    . rw [List.length_cons, Function.iterate_succ, ← updateCached_updateCached]
      rfl
    . intro k hk
      apply Table.mem_del.2
      constructor
      . rintro rfl
        exact hdistinct.1 hk
      . exact hthere k (List.mem_cons_of_mem _ hk)

theorem mem_mergedKeys {k : DBEventSortingKey}
    : k ∈ s.mergedKeys ccMeta ccSub ↔
        ∃ k' ∈ s.historyKeys ccSub, (EventItem.make k'.ts k'.hEvent).key ccMeta = k := by
  unfold mergedKeys GatherContactHistory
  rw [List.map_map, List.mem_map]
  rfl

theorem mergedKeys_hContact {k : DBEventSortingKey} (h : k ∈ s.mergedKeys ccMeta ccSub)
    : k.hContact = ccMeta := by
  rcases mem_mergedKeys.1 h with ⟨k', _, rfl⟩
  rfl

theorem mergedKeys_nodup (hts : ∀ k ∈ s.historyKeys ccSub, k.ts < 2 ^ 32)
    : (s.mergedKeys ccMeta ccSub).Nodup := by
  unfold mergedKeys GatherContactHistory
  rw [List.map_map]
  apply List.Nodup.map_on
  . intro k hk k' hk' heq
    rcases k with ⟨c, e, ts⟩
    rcases k' with ⟨c', e', ts'⟩
    have hcontact := (mem_historyKeys.1 hk).2.trans (mem_historyKeys.1 hk').2.symm
    have hitem : EventItem.make ts e = EventItem.make ts' e' := by
      rw [Function.comp_apply, Function.comp_apply] at heq
      rw [EventItem.mk.injEq]
      exact ⟨congrArg DBEventSortingKey.ts heq, congrArg DBEventSortingKey.hEvent heq⟩
    rcases EventItem.make_inj (hts _ hk) (hts _ hk') hitem with ⟨rfl, he⟩
    exact DBEventSortingKey.mk.injEq .. ▸ ⟨hcontact, he, rfl⟩
  . exact (s.historyKeys_sorted ccSub).nodup

theorem saveCached_m_dbEventsSort : (s.saveCached ccMeta).m_dbEventsSort = s.m_dbEventsSort := by
  unfold saveCached
  split <;> rfl

theorem saveCached_m_cache : (s.saveCached ccMeta).m_cache = s.m_cache := by
  unfold saveCached
  split <;> rfl

theorem saveCached_m_ccDummy : (s.saveCached ccMeta).m_ccDummy = s.m_ccDummy := by
  unfold saveCached
  split <;> rfl

section Merge

variable (hmeta : ccMeta ∈ s.m_cache) (hsub : ccSub ∈ s.m_cache)

include hmeta hsub

theorem MetaMergeHistory_m_dbEventsSort
    : (s.MetaMergeHistory ccMeta ccSub).1.m_dbEventsSort =
        (s.mergedKeys ccMeta ccSub).foldl (fun t k => t.put k [0]) s.m_dbEventsSort := by
  unfold MetaMergeHistory
  rw [if_neg (by simp [hmeta, hsub])]
  dsimp only
  rw [mergeHistory_eq, saveCached_m_dbEventsSort]
  rfl

theorem MetaMergeHistory_m_cache
    : (s.MetaMergeHistory ccMeta ccSub).1.m_cache =
        (s.updateCached ccMeta
          (DBContact.shift 1)^[(s.GatherContactHistory ccSub).length]).m_cache := by
  unfold MetaMergeHistory
  rw [if_neg (by simp [hmeta, hsub])]
  dsimp only
  rw [mergeHistory_eq, saveCached_m_cache]

theorem MetaMergeHistory_m_ccDummy
    : (s.MetaMergeHistory ccMeta ccSub).1.m_ccDummy = s.m_ccDummy := by
  unfold MetaMergeHistory
  rw [if_neg (by simp [hmeta, hsub])]
  dsimp only
  rw [mergeHistory_eq, saveCached_m_ccDummy]
  rfl

theorem mem_MetaMergeHistory {k : DBEventSortingKey}
    : k ∈ (s.MetaMergeHistory ccMeta ccSub).1.m_dbEventsSort ↔
        k ∈ s.m_dbEventsSort ∨ k ∈ s.mergedKeys ccMeta ccSub := by
  rw [MetaMergeHistory_m_dbEventsSort hmeta hsub]
  exact Table.mem_foldl_put.trans or_comm

theorem historyKeys_MetaMergeHistory (hne : ccMeta ≠ ccSub)
    : (s.MetaMergeHistory ccMeta ccSub).1.historyKeys ccSub = s.historyKeys ccSub := by
  apply historyKeys_congr
  intro k hk
  rw [mem_MetaMergeHistory hmeta hsub]
  apply or_iff_left
  intro hmerged
  apply hne
  rw [← hk, mergedKeys_hContact hmerged]

end Merge

theorem MetaSplitHistory_eq {t : Store} (hmeta : ccMeta ∈ t.m_cache) (hsub : ccSub ∈ t.m_cache)
    (hdistinct : (t.mergedKeys ccMeta ccSub).Nodup)
    (hthere : ∀ k ∈ t.mergedKeys ccMeta ccSub, k ∈ t.m_dbEventsSort)
    : t.MetaSplitHistory ccMeta ccSub =
        (({ t.updateCached ccMeta
              (DBContact.shift (2 ^ 32 - 1))^[(t.GatherContactHistory ccSub).length] with
            m_dbEventsSort := (t.mergedKeys ccMeta ccSub).foldl .del t.m_dbEventsSort } :
          Store).saveCached ccMeta, true) := by
  unfold MetaSplitHistory
  rw [if_neg (by simp [hmeta, hsub])]
  dsimp only
  rw [splitHistory_eq hdistinct hthere]
  rfl

section Restore

variable (hmeta : ccMeta ∈ s.m_cache) (hsub : ccSub ∈ s.m_cache) (hne : ccMeta ≠ ccSub)
variable (hts : ∀ k ∈ s.historyKeys ccSub, k.ts < 2 ^ 32)

include hmeta hsub hne

theorem mergedKeys_MetaMergeHistory
    : (s.MetaMergeHistory ccMeta ccSub).1.mergedKeys ccMeta ccSub = s.mergedKeys ccMeta ccSub := by
  unfold mergedKeys GatherContactHistory
  rw [historyKeys_MetaMergeHistory hmeta hsub hne]

include hts

theorem split_of_merge
    : (s.MetaMergeHistory ccMeta ccSub).1.MetaSplitHistory ccMeta ccSub =
        (({ (s.MetaMergeHistory ccMeta ccSub).1.updateCached ccMeta
              (DBContact.shift (2 ^ 32 - 1))^[(s.GatherContactHistory ccSub).length] with
            m_dbEventsSort := (s.mergedKeys ccMeta ccSub).foldl .del
              (s.MetaMergeHistory ccMeta ccSub).1.m_dbEventsSort } : Store).saveCached ccMeta,
         true) := by
  have hkeys := mergedKeys_MetaMergeHistory hmeta hsub hne
  have hcache (c : MCONTACT) (hc : c ∈ s.m_cache)
      : c ∈ (s.MetaMergeHistory ccMeta ccSub).1.m_cache := by
    rw [MetaMergeHistory_m_cache hmeta hsub]
    exact Table.mem_modify.2 hc
  rw [MetaSplitHistory_eq (hcache _ hmeta) (hcache _ hsub), hkeys]
  . unfold GatherContactHistory
    rw [historyKeys_MetaMergeHistory hmeta hsub hne]
  . rw [hkeys]
    exact mergedKeys_nodup hts
  . intro k hk
    rw [hkeys] at hk
    exact (mem_MetaMergeHistory hmeta hsub).2 (.inr hk)

theorem split_of_merge_m_dbEventsSort
    (hnew : ∀ k ∈ s.historyKeys ccSub, ∀ k' ∈ s.historyKeys ccMeta, k'.hEvent ≠ k.hEvent)
    : ((s.MetaMergeHistory ccMeta ccSub).1.MetaSplitHistory ccMeta ccSub).1.m_dbEventsSort =
        s.m_dbEventsSort := by
  rw [split_of_merge hmeta hsub hne hts, saveCached_m_dbEventsSort,
    MetaMergeHistory_m_dbEventsSort hmeta hsub]
  apply Table.foldl_del_foldl_put
  intro k hk hthere
  rcases mem_mergedKeys.1 hk with ⟨k', hk', rfl⟩
  exact hnew k' hk' _ (mem_historyKeys.2 ⟨hthere, rfl⟩) rfl

theorem split_of_merge_m_cache
    (hcount : ∀ cc, s.m_cache.get? ccMeta = some cc → cc.dbc.dwEventCount < 2 ^ 32)
    : ((s.MetaMergeHistory ccMeta ccSub).1.MetaSplitHistory ccMeta ccSub).1.m_cache =
        s.m_cache := by
  rw [split_of_merge hmeta hsub hne hts, saveCached_m_cache]
  unfold updateCached
  dsimp only
  rw [MetaMergeHistory_m_cache hmeta hsub]
  unfold updateCached
  dsimp only
  rw [Table.modify_modify]
  apply Table.modify_eq_self
  intro cc hcc
  rw [Function.comp_apply, DBContact.shift_down_up _ (hcount cc hcc)]

theorem split_of_merge_m_ccDummy
    : ((s.MetaMergeHistory ccMeta ccSub).1.MetaSplitHistory ccMeta ccSub).1.m_ccDummy =
        s.m_ccDummy := by
  rw [split_of_merge hmeta hsub hne hts, saveCached_m_ccDummy]
  exact MetaMergeHistory_m_ccDummy hmeta hsub

end Restore

def FiledTwice (s : Store) (ccMeta : MCONTACT) (k : DBEventSortingKey) : Prop :=
  { k with hContact := ccMeta } ∈ s.m_dbEventsSort ∧
    { k with hContact := ccMeta, ts := k.ts + (2 ^ 64 - 2 ^ 32) } ∈ s.m_dbEventsSort

instance (s : Store) (ccMeta : MCONTACT) (k : DBEventSortingKey) : Decidable (s.FiledTwice ccMeta k) :=
  inferInstanceAs (Decidable (_ ∧ _))

theorem key_of_lt {k : DBEventSortingKey} (h : k.ts < 2 ^ 31)
    : (EventItem.make k.ts k.hEvent).key ccMeta = { k with hContact := ccMeta } := by
  rw [EventItem.key, EventItem.make_ts_of_lt h]
  rfl

theorem key_of_ge {k : DBEventSortingKey} (h : 2 ^ 31 ≤ k.ts) (hts : k.ts < 2 ^ 32)
    : (EventItem.make k.ts k.hEvent).key ccMeta =
        { k with hContact := ccMeta, ts := k.ts + (2 ^ 64 - 2 ^ 32) } := by
  rw [EventItem.key, EventItem.make_ts_of_ge h hts]
  rfl

theorem copied_iff (hmeta : ccMeta ∈ s.m_cache) (hsub : ccSub ∈ s.m_cache)
    (hts : ∀ k ∈ s.historyKeys ccSub, k.ts < 2 ^ 32)
    : (∀ k, k ∈ (s.MetaMergeHistory ccMeta ccSub).1.m_dbEventsSort ↔
        k ∈ s.m_dbEventsSort ∨ ∃ k' ∈ s.historyKeys ccSub, k = { k' with hContact := ccMeta }) ↔
      ∀ k ∈ s.historyKeys ccSub, k.ts < 2 ^ 31 ∨ s.FiledTwice ccMeta k := by
  simp only [mem_MetaMergeHistory hmeta hsub, mem_mergedKeys]
  constructor
  . intro h k hk
    apply or_iff_not_imp_left.2
    intro hge
    have hge := Nat.le_of_not_lt hge
    constructor
    . rcases (h { k with hContact := ccMeta }).2 (.inr ⟨k, hk, rfl⟩) with hold | ⟨k', hk', heq⟩
      . exact hold
      . have hts' : (EventItem.make k'.ts k'.hEvent).ts = k.ts :=
          congrArg DBEventSortingKey.ts heq
        have := hts k hk
        cases Nat.lt_or_ge k'.ts (2 ^ 31) with
        | inl hlt' =>
          rw [EventItem.make_ts_of_lt hlt'] at hts'
          omega
        | inr hge' =>
          rw [EventItem.make_ts_of_ge hge' (hts k' hk')] at hts'
          omega
    . have hwritten : (EventItem.make k.ts k.hEvent).key ccMeta = _ := key_of_ge hge (hts k hk)
      rcases (h _).1 (.inr ⟨k, hk, hwritten⟩) with hold | ⟨k', hk', heq⟩
      . exact hold
      . have hts' : k.ts + (2 ^ 64 - 2 ^ 32) = k'.ts := congrArg DBEventSortingKey.ts heq
        have := hts k' hk'
        omega
  . intro h k
    constructor
    . rintro (hold | ⟨k', hk', rfl⟩)
      . exact .inl hold
      . cases Nat.lt_or_ge k'.ts (2 ^ 31) with
        | inl hlt => exact .inr ⟨k', hk', key_of_lt hlt⟩
        | inr hge =>
          rw [key_of_ge hge (hts k' hk')]
          exact .inl ((h k' hk').resolve_left (Nat.not_lt_of_le hge)).2
    . rintro (hold | ⟨k', hk', rfl⟩)
      . exact .inl hold
      . rcases h k' hk' with hlt | hfiled
        . exact .inr ⟨k', hk', key_of_lt hlt⟩
        . exact .inl hfiled.1

structure MergesExactly (s : Store) (ccMeta ccSub : MCONTACT) : Prop where
  merged : ∀ k, k ∈ (s.MetaMergeHistory ccMeta ccSub).1.m_dbEventsSort ↔
    k ∈ s.m_dbEventsSort ∨ ∃ k' ∈ s.historyKeys ccSub, k = { k' with hContact := ccMeta }
  restored : (∀ k ∈ s.historyKeys ccSub, ∀ k' ∈ s.historyKeys ccMeta, k'.hEvent ≠ k.hEvent) →
    ∀ t, (s.MetaMergeHistory ccMeta ccSub).1.MetaSplitHistory ccMeta ccSub = t →
      t.2 = true ∧ t.1.m_dbEventsSort = s.m_dbEventsSort ∧
      ∀ c, t.1.GetEventCount c = s.GetEventCount c

theorem mergesExactly_iff (hmeta : ccMeta ∈ s.m_cache) (hsub : ccSub ∈ s.m_cache)
    (hne : ccMeta ≠ ccSub) (hts : ∀ k ∈ s.historyKeys ccSub, k.ts < 2 ^ 32)
    (hcount : ∀ cc, s.m_cache.get? ccMeta = some cc → cc.dbc.dwEventCount < 2 ^ 32)
    : s.MergesExactly ccMeta ccSub ↔
        ∀ k ∈ s.historyKeys ccSub, k.ts < 2 ^ 31 ∨ s.FiledTwice ccMeta k := by
  rw [← copied_iff hmeta hsub hts]
  constructor
  . intro h
    exact h.merged
  . intro h
    constructor
    . exact h
    . rintro hnew t rfl
      refine ⟨?_, split_of_merge_m_dbEventsSort hmeta hsub hne hts hnew, ?_⟩
      . rw [split_of_merge hmeta hsub hne hts]
      . intro c
        unfold GetEventCount
        rw [split_of_merge_m_cache hmeta hsub hne hts hcount,
          split_of_merge_m_ccDummy hmeta hsub hne hts]

def oneSub (iTimestamp : Nat) : Store :=
  [Call.AddContact, .AddContact, .AddEvent {} 1 { iTimestamp }, .SetLinks 2 { nSubs := 1 },
    .SetLinks 1 { parentID := 2 }].foldl step (create default false)

theorem mergesExactly_oneSub : (oneSub 5).MergesExactly 2 1 := by
  have hkeys : (oneSub 5).historyKeys 1 = [⟨1, 1, 5⟩] := by decide
  apply (mergesExactly_iff (by decide) (by decide) (by decide) ?_ ?_).2
  . rw [hkeys]
    decide
  . rw [hkeys]
    decide
  . intro cc hcc
    have hmeta : (oneSub 5).m_cache.get? 2 = some { nSubs := 1 } := by decide
    rw [hmeta, Option.some.injEq] at hcc
    subst hcc
    decide

-- The first second of the upper half goes to the meta contact with another timestamp.
theorem not_mergesExactly
    : ¬ ∀ (m_crypto : MICryptoEngine) (m_bEncrypted : Bool) (s : Store) (ccMeta ccSub : MCONTACT),
        Run step Succeeds (create m_crypto m_bEncrypted) s → ccMeta ∈ s.m_cache →
        (s.m_cache.get? ccSub).map (·.parentID) = some ccMeta → ccMeta ≠ ccSub →
        (∀ k ∈ s.historyKeys ccSub, k.ts < 2 ^ 32) → s.MergesExactly ccMeta ccSub := by
  intro h
  have hrun : Run step Succeeds (create default false) (oneSub (2 ^ 31)) := by
    apply Run.of_along
    decide
  have hkeys : (oneSub (2 ^ 31)).historyKeys 1 = [⟨1, 1, 2 ^ 31⟩] := by decide
  have hmerged := h default false _ 2 1 hrun (by decide) (by decide) (by decide)
    (by rw [hkeys]; decide)
  have hcopy : (⟨2, 1, 2 ^ 31⟩ : DBEventSortingKey) ∈
      ((oneSub (2 ^ 31)).MetaMergeHistory 2 1).1.m_dbEventsSort := by
    apply (hmerged.merged _).2
    rw [hkeys]
    exact .inr ⟨_, List.mem_singleton_self _, rfl⟩
  revert hcopy
  decide

end Store
end Dbx
