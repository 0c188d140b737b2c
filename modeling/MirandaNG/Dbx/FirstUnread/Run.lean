import MirandaNG.Dbx.FirstUnread.Events

/-!
This module contains the effect of the contact operations on the first unread pairs and the result
about runs: the pairs are right in every state that is reached by calls none of which is one of those
that get them wrong.
-/

namespace Dbx

open Kv Crypt Transition

namespace Store

variable {s s' : Store} {env : Env} {c c' : MCONTACT} {e : MEVENT}
variable {k m : DBEventSortingKey}

theorem first?_removeContact {cc : DBCachedContact} (hc : c ≠ 0)
    : ((s.wipeHistory env c cc).removeContact c).first? c' =
        if c' = c then none else s.first? c' := by
  unfold first?
  rw [dbc?_removeContact hc, dbc?_wipeHistory]
  split <;> rfl

theorem isUnread_wipeHistory {cc : DBCachedContact}
    : (s.wipeHistory env c cc).IsUnread e ↔
        e ∉ DeleteContact.events env cc (s.historyKeys c) ∧ s.IsUnread e := by
  unfold IsUnread wipeHistory
  dsimp only
  rw [get?_foldl_delEvent, foldl_delKey_frame]
  split
  . next hmem => simp [hmem]
  . next hmem => simp [hmem]

def lostKeys (s : Store) (env : Env) (c : MCONTACT) (cc : DBCachedContact)
    : Set DBEventSortingKey :=
  { u | u.hContact ≠ c ∧ u.hEvent ∈ DeleteContact.events env cc (s.historyKeys c) }

theorem PairInv.DeleteContact (h : PairInv s)
    (hsafe : ∀ cc, s.m_cache.get? c = some cc →
      s.GoneSafe (fun _ _ => False) (s.lostKeys env c cc))
    : PairInv (s.DeleteContact env c).1 := by
  have houtcome := DeleteContact_outcome s env c
  generalize s.DeleteContact env c = r at houtcome
  cases houtcome with
  | refused => exact h
  | half cc hcc hstored => exact absurd ((h.stored c).2 (Table.mem_iff_exists.2 ⟨cc, hcc⟩)) hstored
  | done cc hcc hstored =>
    have hc : c ≠ 0 := h.ne_zero (Table.mem_iff_exists.2 ⟨cc, hcc⟩)
    refine ⟨h.toWellFormed.removeContact cc, h.first_of_gone ?_ ?_ (hsafe cc hcc), ?_⟩
    . intro c' hsome
      have hne : c' ≠ c := by
        rintro rfl
        rw [first?_removeContact hc, if_pos rfl] at hsome
        cases hsome
      ext k
      show k ∈ (s.wipeHistory env c cc).m_dbEventsSort ∧ k.hContact = c' ∧
        (s.wipeHistory env c cc).IsUnread k.hEvent ↔ _
      rw [WellFormed.mem_wipeHistory_m_dbEventsSort, isUnread_wipeHistory]
      simp only [Unread, lostKeys, Set.mem_sdiff, Set.mem_ofPred_eq, not_and]
      constructor
      . rintro ⟨⟨hk, hkc⟩, rfl, hnot, hread⟩
        exact ⟨⟨hk, rfl, hread⟩, fun _ => hnot⟩
      . rintro ⟨⟨hk, rfl, hread⟩, hnot⟩
        exact ⟨⟨hk, hne⟩, rfl, hnot hne, hread⟩
    . intro c' m hm
      rw [first?_removeContact hc] at hm
      split at hm
      . cases hm
      . exact ⟨m, hm, .inr ⟨not_false, rfl⟩⟩
    . intro c'
      rw [first?_removeContact hc]
      unfold savedFirst?
      rw [saved?_removeContact hc, saved?_wipeHistory]
      split
      . rfl
      . exact h.saved c'

theorem PairInv.AddContact (h : PairInv s) (hroom : s.m_maxContactId + 1 < 2 ^ 32)
    : PairInv s.AddContact.1 := by
  have hunread (c : MCONTACT) : s.AddContact.1.Unread c = s.Unread c := by
    unfold Unread IsUnread
    rw [AddContact_m_dbEventsSort, AddContact_m_dbEvents]
  by_cases hmem : s.m_maxContactId + 1 ∈ s.m_cache
  . refine ⟨h.toWellFormed.AddContact hroom, ?_, ?_⟩
    . intro c m hm
      rw [hunread]
      rw [AddContact_of_mem hroom hmem] at hm
      unfold first? at hm
      rw [dbc?_saveDbc] at hm
      exact h.first c m hm
    . have hmax : ∀ c, ({ s with m_maxContactId := s.m_maxContactId + 1 } : Store).savedFirst? c =
          ({ s with m_maxContactId := s.m_maxContactId + 1 } : Store).first? c := h.saved
      rw [AddContact_of_mem hroom hmem, ← saveCached_eq_saveDbc (Nat.succ_ne_zero _)]
      exact saved_saveCached (Nat.succ_ne_zero _) hmem hmax
  . refine ⟨h.toWellFormed.AddContact hroom, ?_, ?_⟩
    . intro c m hm
      rw [hunread]
      unfold first? at hm
      rw [dbc?_AddContact hroom hmem] at hm
      split at hm
      . next heq =>
        cases hm
        have hempty : s.Unread c = ∅ := by
          rw [Set.eq_empty_iff_forall_notMem]
          rintro k ⟨hk, rfl, _⟩
          rcases h.owned k hk with hzero | hcached
          . exact absurd (heq.symm.trans hzero) (Nat.succ_ne_zero _)
          . exact hmem (heq ▸ hcached)
        rw [hempty]
        exact .empty _
      . exact h.first c m hm
    . intro c
      unfold savedFirst? first?
      rw [dbc?_AddContact hroom hmem, saved?_AddContact hroom hmem]
      split
      . rfl
      . exact h.saved c

theorem PairInv.SetLinks (h : PairInv s) (links : MetaLinks) : PairInv (s.SetLinks c links) := by
  have hfirst (c' : MCONTACT) : (s.SetLinks c links).first? c' = s.first? c' := by
    unfold first?
    rw [dbc?_SetLinks]
  refine ⟨h.toWellFormed.SetLinks links, ?_, ?_⟩
  . intro c' m hm
    exact h.first c' m (hfirst c' ▸ hm)
  . intro c'
    rw [hfirst]
    exact h.saved c'

theorem PairInv.Load (h : PairInv s) (links : MCONTACT → MetaLinks) : PairInv (s.Load links) := by
  have hfirst (c : MCONTACT) : (s.Load links).first? c = s.savedFirst? c := by
    unfold first? savedFirst?
    rw [dbc?_Load]
  refine ⟨h.toWellFormed.Load links, ?_, ?_⟩
  . intro c m hm
    rw [hfirst, h.saved] at hm
    exact h.first c m hm
  . intro c
    rw [hfirst]
    rfl

theorem PairInv.create (m_crypto : MICryptoEngine) (m_bEncrypted : Bool)
    : PairInv (create m_crypto m_bEncrypted) := by
  refine ⟨.create m_crypto m_bEncrypted, ?_, ?_⟩
  . intro c m hm
    have hempty : (Store.create m_crypto m_bEncrypted).Unread c = ∅ := by
      rw [Set.eq_empty_iff_forall_notMem]
      rintro k ⟨hk, _⟩
      exact Table.notMem_iff.2 rfl hk
    rw [hempty]
    have hzero : m = ⟨c, 0, 0⟩ := by
      unfold first? dbc? contact? Store.create at hm
      split at hm <;> cases hm
      rfl
    rw [hzero]
    exact .empty _
  . intro c
    unfold savedFirst? saved? first? dbc? contact? Store.create
    split <;> rfl

theorem PairInv.MetaMergeHistory (h : PairInv s) {ccMeta ccSub : MCONTACT}
    (hsafe : s.MergeSafe ccMeta ccSub)
    : PairInv (s.MetaMergeHistory ccMeta ccSub).1 := by
  unfold Store.MetaMergeHistory
  split
  . exact h
  . next hcached =>
    have hmem : ccMeta ∈ s.m_cache := by tauto
    exact h.mergeHistory hmem hsafe

def PairSafe (s : Store) : Call → Prop
  | .AddContact => s.m_maxContactId + 1 < 2 ^ 32
  | .DeleteContact env contactID =>
    ∀ cc, s.m_cache.get? contactID = some cc →
      s.GoneSafe (fun _ _ => False) (s.lostKeys env contactID cc)
  | .AddEvent env contactID dbei =>
    (s.m_safetyMode && env.filtered) = false →
      s.EditSafe contactID ((s.m_dwMaxEventId + 1) % 2 ^ 32) dbei
  | .EditEvent _ hDbEvent dbei =>
    ∀ data, s.m_dbEvents.get? hDbEvent = some data →
      s.EditSafe data.dbe.dwContactID hDbEvent { dbei with iTimestamp := data.dbe.timestamp }
  | .DeleteEvent _ hDbEvent => s.DeleteSafe hDbEvent
  | .MarkEventRead _ contactID hDbEvent => s.MarkSafe contactID hDbEvent
  | .MetaMergeHistory ccMeta ccSub => s.MergeSafe ccMeta ccSub
  | .MetaSplitHistory ccMeta ccSub =>
    s.GoneSafe (fun _ _ => False)
      { k | k ∈ removedKeys s.m_dbEventsSort
        ((s.GatherContactHistory ccSub).map (·.key ccMeta)) }
  | .MetaRemoveSubHistory _ ccSub =>
    s.GoneSafe (fun _ _ => False)
      { k | k ∈ removedKeys s.m_dbEventsSort
        ((s.GatherContactHistory ccSub).map (·.key ccSub)) }
  | _ => True

theorem PairInv.step (h : PairInv s) (call : Call) (hsafe : s.PairSafe call)
    : PairInv (s.step call) := by
  cases call with
  | AddContact => exact h.AddContact hsafe
  | DeleteContact env contactID => exact h.DeleteContact hsafe
  | AddEvent env contactID dbei =>
    show PairInv (s.AddEvent env contactID dbei).1
    unfold Store.AddEvent
    split
    . exact h
    . have hmax : PairInv { s with m_dwMaxEventId := (s.m_dwMaxEventId + 1) % 2 ^ 32 } :=
        ⟨⟨h.zero, h.stored, h.owned, h.oneByte⟩, h.first, h.saved⟩
      exact hmax.EditEvent' hsafe
  | EditEvent env hDbEvent dbei =>
    show PairInv (s.EditEvent env hDbEvent dbei).1
    unfold Store.EditEvent
    split
    . exact h
    . split
      . exact h
      . next data hdata => exact h.EditEvent' (fun _ => hsafe data hdata)
  | DeleteEvent env hDbEvent => exact h.DeleteEvent hsafe
  | MarkEventRead env contactID hDbEvent => exact h.MarkEventRead hsafe
  | MetaMergeHistory ccMeta ccSub => exact h.MetaMergeHistory hsafe
  | MetaSplitHistory ccMeta ccSub => exact h.MetaSplitHistory hsafe
  | MetaRemoveSubHistory env ccSub => exact h.MetaRemoveSubHistory hsafe
  | SetLinks contactID links => exact h.SetLinks links
  | SetCacheSafetyMode bIsSet => exact ⟨⟨h.zero, h.stored, h.owned, h.oneByte⟩, h.first, h.saved⟩
  | Load links => exact h.Load links

/--
The first unread pair of a contact names its least unread sorting key, and is 0 when there is none.
-/
def NamesFirstUnread (s : Store) (c : MCONTACT) : Prop :=
  ∀ cc, s.contact? c = some cc →
    CachedLeast ⟨c, 0, 0⟩ (s.Unread c) ⟨c, cc.dbc.evFirstUnread, cc.dbc.tsFirstUnread⟩

theorem namesFirstUnread_of_run {m_crypto : MICryptoEngine} {m_bEncrypted : Bool} {s : Store}
    (h : Run step PairSafe (create m_crypto m_bEncrypted) s) (c : MCONTACT)
    : s.NamesFirstUnread c := by
  have hinv : PairInv s := by
    refine h.inv (I := PairInv) ?_ (.create m_crypto m_bEncrypted)
    intro s call hs hok
    exact hs.step call hok
  intro cc hcc
  apply hinv.first c
  simp [first?, dbc?, hcc, DBContact.firstUnread]

theorem namesFirstUnread_of_add
    : ((create default false).step .AddContact |>.step (.AddEvent {} 1 { iTimestamp := 5 })
        ).NamesFirstUnread 1 := by
  have hroom : (create default false).PairSafe .AddContact := by
    show (create default false).m_maxContactId + 1 < 2 ^ 32
    decide
  have hadd : Run step PairSafe (create default false) ((create default false).step .AddContact) :=
    .call .init _ hroom
  refine namesFirstUnread_of_run (hadd.call _ ?_) 1
  intro _ cc ccSub hhistory
  have heq : ((create default false).step .AddContact).historyOf 1 = some (1, none) := by decide
  rw [heq] at hhistory
  cases hhistory
  have hnokeys (k : DBEventSortingKey)
      : k ∉ ((create default false).step .AddContact).m_dbEventsSort := by
    apply Table.notMem_iff.2
    rfl
  refine ⟨fun hmarked => absurd hmarked (by decide), fun _ => ⟨?_, ?_⟩⟩
  . rintro c (rfl | hnone)
    . intro m hm
      have hzero : ((create default false).step .AddContact).first? 1 = some ⟨1, 0, 0⟩ := by
        decide
      cases hm.symm.trans hzero
      exact ⟨fun _ u hu => absurd hu.1 (hnokeys u), fun _ hne => absurd rfl hne⟩
    . cases hnone
  . intro k hk
    exact absurd hk (hnokeys k)

-- Marking the first of two unread events read leaves the contact without a first unread event.
theorem not_namesFirstUnread_of_mark
    : ¬ ∀ (m_crypto : MICryptoEngine) (m_bEncrypted : Bool) (s : Store),
        Run step Succeeds (create m_crypto m_bEncrypted) s →
        ∀ c, s.NamesFirstUnread c := by
  intro h
  let s₁ := (create default false).step .AddContact
  let s₂ := s₁.step (.AddEvent {} 1 { iTimestamp := 5 })
  let s₃ := s₂.step (.AddEvent {} 1 { iTimestamp := 6 })
  let s₄ := s₃.step (.MarkEventRead {} 1 1)
  have h₁ : Run step Succeeds (create default false) s₁ := .call .init _ rfl
  have h₂ : Run step Succeeds (create default false) s₂ := .call h₁ _ (by decide)
  have h₃ : Run step Succeeds (create default false) s₃ := .call h₂ _ (by decide)
  have h₄ : Run step Succeeds (create default false) s₄ := .call h₃ _ (by decide)
  have hcc : s₄.contact? 1 = some { dbc := { dwEventCount := 2 } } := by decide
  have hunread : (⟨1, 2, 6⟩ : DBEventSortingKey) ∈ s₄.Unread 1 := by
    refine ⟨by decide, rfl, ?_⟩
    rcases hfound : s₄.m_dbEvents.get? 2 with _ | data
    . exact absurd hfound (by decide)
    . refine ⟨data, hfound, ?_⟩
      have hflags : (s₄.m_dbEvents.get? 2).map (·.dbe.markedRead) = some false := by decide
      rw [hfound] at hflags
      simpa using hflags
  have hmem := (h default false s₄ h₄ 1 _ hcc).mem ⟨_, hunread⟩
  have hnot : (⟨1, 0, 0⟩ : DBEventSortingKey) ∉ s₄.m_dbEventsSort := by decide
  exact hnot hmem.1

end Store
end Dbx
