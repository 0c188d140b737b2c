import MirandaNG.Dbx.Numbered

/-!
This module contains the invariant that keeps the remembered positions harmless: every sorting key has
the timestamp of its event, and so has the position a contact remembers. In runs that keep it, the ways
through a history are the same whatever was searched for before.

It also contains the searches in runs: the position a contact remembers always has the timestamp of
its event, so that a search gives the answer it would give without it, and every walk meets the
whole history.
-/

namespace Dbx

open Kv Crypt Transition

namespace Store

structure Dated (s : Store) : Prop extends Numbered s where
  dated : ∀ k ∈ s.m_dbEventsSort, s.timestamp? k.hEvent = some k.ts
  below : ∀ e, (s.timestamp? e).isSome → e ≤ s.m_dwMaxEventId
  small : ∀ e ts, s.timestamp? e = some ts → ts < 2 ^ 32

structure Steady (s s' : Store) : Prop where
  events : ∀ e ≤ s.m_dwMaxEventId, ∀ ts, s'.timestamp? e = some ts → s.timestamp? e = some ts
  max : s.m_dwMaxEventId ≤ s'.m_dwMaxEventId

variable {s s' : Store} {env : Env} {c ccMeta ccSub : MCONTACT} {e : MEVENT} {ts : Nat}
variable {k : DBEventSortingKey} {dbei : DBEVENTINFO}

theorem Shrinks.steady (h : Shrinks s s') : Steady s s' where
  events e _ ts hts := h.events e ts hts
  max := h.max.ge

theorem Steady.refl (s : Store) : Steady s s := (Keeps.refl s).shrinks.steady

theorem Dated.shrinks (h : Dated s) (hs : Shrinks s s')
    (hkept : ∀ k ∈ s'.m_dbEventsSort, (s'.timestamp? k.hEvent).isSome)
    : Dated s' where
  toNumbered := h.toNumbered.shrinks hs
  dated k hk := by
    rcases Option.isSome_iff_exists.1 (hkept k hk) with ⟨ts, hts⟩
    have hold := hs.events _ _ hts
    rw [h.dated k (hs.keys k hk)] at hold
    rw [hts, hold]
  below e he := by
    rcases Option.isSome_iff_exists.1 he with ⟨ts, hts⟩
    rw [hs.max]
    apply h.below
    rw [hs.events e ts hts]
    rfl
  small e ts hts := h.small e ts (hs.events e ts hts)

theorem Dated.keeps (h : Dated s) (hs : Keeps s s') : Dated s' := by
  apply h.shrinks hs.shrinks
  intro k hk
  rw [hs.events, h.dated k (hs.keys k hk)]
  rfl

theorem Dated.files (h : Dated s) (hs : Files s s' e ts) (he : 0 < e) (hle : e ≤ s.m_dwMaxEventId)
    (hts : ts < 2 ^ 32) (hsame : ∀ ts', s.timestamp? e = some ts' → ts' = ts)
    : Dated s' where
  toNumbered := h.toNumbered.files hs he (Nat.lt_of_le_of_lt hle h.max) hts
  dated k hk := by
    rw [hs.events]
    split
    . next heq =>
      rcases hs.keys k hk with hold | ⟨_, hnew⟩
      . have := h.dated k hold
        rw [heq] at this
        rw [hsame _ this]
      . rw [hnew]
    . next hne =>
      rcases hs.keys k hk with hold | ⟨heq, _⟩
      . exact h.dated k hold
      . exact absurd heq hne
  below e' he' := by
    rw [hs.max]
    rw [hs.events] at he'
    split at he'
    . next heq => exact heq ▸ hle
    . exact h.below e' he'
  small e' ts' hts' := by
    rw [hs.events] at hts'
    split at hts'
    . cases hts'
      exact hts
    . exact h.small e' ts' hts'

theorem Dated.create (m_crypto : MICryptoEngine) (m_bEncrypted : Bool)
    : Dated (create m_crypto m_bEncrypted) where
  toNumbered := .create m_crypto m_bEncrypted
  dated _ hk := by cases hk
  below _ he := by cases he
  small _ _ hts := by cases hts

def DateSafe (s : Store) : Call → Prop
  | .AddEvent _ _ dbei => dbei.iTimestamp = 0 ∨ s.m_dwMaxEventId + 1 < 2 ^ 32
  | .EditEvent _ hDbEvent dbei =>
    dbei.iTimestamp = 0 ∨ ∀ data, s.m_dbEvents.get? hDbEvent = some data →
      (s.historyOf data.dbe.dwContactID).isSome →
      dbei.flags &&& DBEF_MSEC = 0 ∨ data.dbe.timestamp = 0
  | .DeleteEvent _ hDbEvent =>
    ∀ data cc2, DeleteEvent.Guard s hDbEvent data cc2 → s.DeletesRecord hDbEvent data cc2 →
      ∀ k ∈ s.m_dbEventsSort, k.hEvent = hDbEvent →
        k.hContact = data.dbe.dwContactID ∨ cc2 = some k.hContact
  | .DeleteContact env contactID =>
    ∀ cc, s.m_cache.get? contactID = some cc → ∀ k ∈ s.m_dbEventsSort, k.hContact ≠ contactID →
      k.hEvent ∉ DeleteContact.events env cc (s.historyKeys contactID)
  | .MetaMergeHistory ccMeta ccSub =>
    ccMeta ∈ s.m_cache → ccSub ∈ s.m_cache → ∀ k ∈ s.historyKeys ccSub, k.ts < 2 ^ 31
  | _ => True

theorem DateSafe.numberSafe {call : Call} (h : s.DateSafe call) : s.NumberSafe call := by
  cases call with
  | AddEvent env contactID dbei => exact h
  | MetaMergeHistory ccMeta ccSub =>
    intro hmeta hsub k hk _
    have := h hmeta hsub k hk
    omega
  | _ => trivial

theorem Dated.AddEvent (h : Dated s) (hsafe : dbei.iTimestamp = 0 ∨ s.m_dwMaxEventId + 1 < 2 ^ 32)
    : Dated (s.AddEvent env c dbei).1 ∧ Steady s (s.AddEvent env c dbei).1 := by
  unfold Store.AddEvent
  split
  . exact ⟨h, .refl s⟩
  . next hts =>
    have hroom := hsafe.resolve_left hts
    rw [Nat.mod_eq_of_lt hroom]
    dsimp only
    have hnew : s.timestamp? (s.m_dwMaxEventId + 1) = none := by
      rw [← Option.not_isSome_iff_eq_none]
      intro hsome
      exact absurd (h.below _ hsome) (Nat.not_succ_le_self _)
    have hmax : Dated { s with m_dwMaxEventId := s.m_dwMaxEventId + 1 } := {
      toNumbered := ⟨h.events, h.keys, hroom⟩
      dated := h.dated
      below := fun e he => Nat.le_succ_of_le (h.below e he)
      small := h.small }
    rcases ({ s with m_dwMaxEventId := s.m_dwMaxEventId + 1 } : Store).EditEvent'_files env c
      (s.m_dwMaxEventId + 1) dbei true with hkeeps | ⟨_, hfiles⟩
    . refine ⟨hmax.keeps hkeeps, ?_, ?_⟩
      . intro e _ ts hts
        rw [hkeeps.events] at hts
        exact hts
      . rw [hkeeps.max]
        exact Nat.le_succ _
    . refine ⟨hmax.files hfiles (Nat.succ_pos _) le_rfl (getUnixtime_lt dbei) ?_, ?_, ?_⟩
      . intro ts' hts'
        have hts' : s.timestamp? (s.m_dwMaxEventId + 1) = some ts' := hts'
        rw [hnew] at hts'
        cases hts'
      . intro e he ts hts
        rw [hfiles.events, if_neg (Nat.ne_of_lt (Nat.lt_succ_of_le he))] at hts
        exact hts
      . rw [hfiles.max]
        exact Nat.le_succ _

theorem getUnixtime_of_stored {ts : Nat} (hts : ts < 2 ^ 32)
    (h : dbei.flags &&& DBEF_MSEC = 0 ∨ ts = 0)
    : ({ dbei with iTimestamp := ts } : DBEVENTINFO).getUnixtime = ts := by
  unfold DBEVENTINFO.getUnixtime
  dsimp only
  rcases h with hflags | rfl
  . rw [if_neg (not_not.2 hflags), Nat.mod_eq_of_lt hts]
  . split <;> rfl

theorem Dated.EditEvent (h : Dated s) (hsafe : s.DateSafe (.EditEvent env e dbei))
    : Dated (s.EditEvent env e dbei).1 ∧ Steady s (s.EditEvent env e dbei).1 := by
  unfold Store.EditEvent
  split
  . exact ⟨h, .refl s⟩
  . next hne =>
    split
    . exact ⟨h, .refl s⟩
    . next data hdata =>
      dsimp only
      have hts : s.timestamp? e = some data.dbe.timestamp := by
        unfold timestamp?
        rw [hdata]
        rfl
      have hsome : (s.timestamp? e).isSome := by simp [hts]
      rcases s.EditEvent'_files env data.dbe.dwContactID e
        { dbei with iTimestamp := data.dbe.timestamp } false with hkeeps | ⟨hhistory, hfiles⟩
      . exact ⟨h.keeps hkeeps, hkeeps.shrinks.steady⟩
      . have hstored := getUnixtime_of_stored (h.small e _ hts)
          (hsafe.resolve_left hne data hdata hhistory)
        rw [hstored] at hfiles
        refine ⟨h.files hfiles (h.events e hsome).1 (h.below e hsome) (h.small e _ hts) ?_, ?_, ?_⟩
        . intro ts' hts'
          rw [hts] at hts'
          cases hts'
          rfl
        . intro e' _ ts' hts'
          rw [hfiles.events] at hts'
          split at hts'
          . next heq =>
            rw [heq, hts]
            exact hts'
          . exact hts'
        . exact hfiles.max.ge

theorem Dated.eraseRecord (h : Dated s) {data : EventRecord}
    (hnone : ∀ k ∈ s.m_dbEventsSort, k.hEvent ≠ e)
    : Dated (s.eraseRecord env e data) := by
  apply h.shrinks (.eraseRecord s env e data)
  intro k hk
  rw [eraseRecord_m_dbEventsSort] at hk
  rw [timestamp?_eraseRecord, if_neg (hnone k hk), h.dated k hk]
  rfl

theorem Dated.DeleteEvent (h : Dated s) (hsafe : s.DateSafe (.DeleteEvent env e))
    : Dated (s.DeleteEvent env e).1 := by
  have houtcome := DeleteEvent_outcome s env e
  generalize s.DeleteEvent env e = r at houtcome
  have hkey (data : EventRecord) (hfound : s.m_dbEvents.get? e = some data) (k : DBEventSortingKey)
      (hk : k ∈ s.m_dbEventsSort) (he : k.hEvent = e) : k = ⟨k.hContact, e, data.dbe.timestamp⟩ := by
    have := h.dated k hk
    unfold timestamp? at this
    rw [he, hfound] at this
    cases k
    cases he
    cases this
    rfl
  cases houtcome with
  | refused => exact h
  | single data hguard =>
    apply (h.keeps (.unfileEvent s env _)).eraseRecord
    intro k hk he
    rw [unfileEvent_m_dbEventsSort, Table.mem_del] at hk
    rcases hsafe data none hguard (by intro c hc; cases hc) k hk.2 he with howner | hother
    . apply hk.1
      rw [← howner]
      exact hkey data hguard.found k hk.2 he
    . cases hother
  | half data c₂ hguard hfiled => exact h.keeps (.unfileEvent s env _)
  | double data c₂ hguard hfiled =>
    apply ((h.keeps (.unfileEvent s env _)).keeps (.unfileCached _ env _)).eraseRecord
    intro k hk he
    rw [unfileCached_m_dbEventsSort, Table.mem_del, unfileEvent_m_dbEventsSort, Table.mem_del] at hk
    have hthis := hkey data hguard.found k hk.2.2 he
    rcases hsafe data (some c₂) hguard (deletesRecord_of_filed hfiled) k hk.2.2 he with howner | hother
    . apply hk.2.1
      rw [← howner]
      exact hthis
    . apply hk.1
      rw [Option.some.inj hother]
      exact hthis

theorem Dated.DeleteContact (h : Dated s) (hsafe : s.DateSafe (.DeleteContact env c))
    : Dated (s.DeleteContact env c).1 := by
  have hwipe (cc : DBCachedContact) (hcc : s.m_cache.get? c = some cc)
      : Dated (s.wipeHistory env c cc) := by
    apply h.shrinks (.wipeHistory s env c cc)
    intro k hk
    rcases WellFormed.mem_wipeHistory_m_dbEventsSort.1 hk with ⟨hmem, hne⟩
    rw [timestamp?_wipeHistory, if_neg (hsafe cc hcc k hmem hne), h.dated k hmem]
    rfl
  have houtcome := DeleteContact_outcome s env c
  generalize s.DeleteContact env c = r at houtcome
  cases houtcome with
  | refused => exact h
  | half cc hcc hstored => exact hwipe cc hcc
  | done cc hcc hstored => exact (hwipe cc hcc).keeps (.removeContact _ c)

theorem Dated.MetaMergeHistory (h : Dated s) (hsafe : s.DateSafe (.MetaMergeHistory ccMeta ccSub))
    : Dated (s.MetaMergeHistory ccMeta ccSub).1 ∧ Steady s (s.MetaMergeHistory ccMeta ccSub).1 := by
  constructor
  . constructor
    . exact h.toNumbered.MetaMergeHistory hsafe.numberSafe
    . intro k hk
      rw [timestamp?_MetaMergeHistory]
      rcases mem_MetaMergeHistory_imp hk with hold | ⟨⟨hmeta, hsub⟩, hmerged⟩
      . exact h.dated k hold
      . rcases mem_mergedKeys.1 hmerged with ⟨k', hk', rfl⟩
        rw [key_of_lt (hsafe hmeta hsub k' hk')]
        exact h.dated k' (mem_historyKeys.1 hk').1
    . intro e he
      rw [timestamp?_MetaMergeHistory] at he
      rw [MetaMergeHistory_m_dwMaxEventId]
      exact h.below e he
    . intro e ts hts
      rw [timestamp?_MetaMergeHistory] at hts
      exact h.small e ts hts
  . constructor
    . intro e _ ts hts
      rw [timestamp?_MetaMergeHistory] at hts
      exact hts
    . exact (MetaMergeHistory_m_dwMaxEventId ..).ge

theorem Dated.Load (h : Dated s) (links : MCONTACT → MetaLinks) : Dated (s.Load links) where
  toNumbered := h.toNumbered.Load links
  dated := h.dated
  below e he := by
    have hmem : e ∈ s.m_dbEvents := timestamp?_isSome_iff.1 he
    rw [Load_m_dwMaxEventId]
    cases hlast : s.m_dbEvents.last? with
    | none =>
      rw [Table.last?_eq_none_iff] at hlast
      rcases Table.mem_iff_entries.1 hmem with ⟨data, hdata⟩
      rw [hlast] at hdata
      cases hdata
    | some a => exact Table.le_last? hlast hmem
  small := h.small

theorem Dated.step (h : Dated s) (call : Call) (hsafe : s.DateSafe call) : Dated (s.step call) := by
  cases call with
  | AddContact => exact h.keeps (.AddContact s)
  | DeleteContact env contactID => exact h.DeleteContact hsafe
  | AddEvent env contactID dbei => exact (h.AddEvent hsafe).1
  | EditEvent env hDbEvent dbei => exact (h.EditEvent hsafe).1
  | DeleteEvent env hDbEvent => exact h.DeleteEvent hsafe
  | MarkEventRead env contactID hDbEvent => exact h.keeps (.MarkEventRead s env contactID hDbEvent)
  | MetaMergeHistory ccMeta ccSub => exact (h.MetaMergeHistory hsafe).1
  | MetaSplitHistory ccMeta ccSub => exact h.keeps (.MetaSplitHistory s ccMeta ccSub)
  | MetaRemoveSubHistory env ccSub => exact h.keeps (.MetaRemoveSubHistory s env ccSub)
  | SetLinks contactID links => exact h.keeps (.of_eq rfl rfl rfl)
  | SetCacheSafetyMode bIsSet => exact h.keeps (.of_eq rfl rfl rfl)
  | Load links => exact h.Load links

theorem Dated.steady (h : Dated s) (call : Call) (hsafe : s.DateSafe call)
    (hload : ∀ links, call ≠ .Load links)
    : Steady s (s.step call) := by
  cases call with
  | AddContact => exact (Keeps.AddContact s).shrinks.steady
  | DeleteContact env contactID => exact (Shrinks.DeleteContact s env contactID).steady
  | AddEvent env contactID dbei => exact (h.AddEvent hsafe).2
  | EditEvent env hDbEvent dbei => exact (h.EditEvent hsafe).2
  | DeleteEvent env hDbEvent => exact (Shrinks.DeleteEvent s env hDbEvent).steady
  | MarkEventRead env contactID hDbEvent =>
    exact (Keeps.MarkEventRead s env contactID hDbEvent).shrinks.steady
  | MetaMergeHistory ccMeta ccSub => exact (h.MetaMergeHistory hsafe).2
  | MetaSplitHistory ccMeta ccSub => exact (Keeps.MetaSplitHistory s ccMeta ccSub).shrinks.steady
  | MetaRemoveSubHistory env ccSub => exact (Keeps.MetaRemoveSubHistory s env ccSub).shrinks.steady
  | SetLinks contactID links => exact ⟨fun _ _ _ => id, le_rfl⟩
  | SetCacheSafetyMode bIsSet => exact ⟨fun _ _ _ => id, le_rfl⟩
  | Load links => exact absurd rfl (hload links)

end Store
end Dbx

namespace Dbx

open Kv Crypt Transition

namespace Session

structure Sound (s : Store) (cc : Position) : Prop where
  below : cc.t_evLast ≤ s.m_dwMaxEventId
  dated : ∀ ts, s.timestamp? cc.t_evLast = some ts → ts = cc.t_tsLast

structure Tracked (n : Session) : Prop where
  store : n.store.Dated
  last : ∀ c, Sound n.store (n.last c)

variable {n : Session} {s : Store} {c : MCONTACT} {e : MEVENT} {k : DBEventSortingKey}
variable {key? : Option DBEventSortingKey} {ok : Store → Call → Prop}
variable {move : Table DBEventSortingKey (List UInt8) → DBEventSortingKey → Option DBEventSortingKey}

theorem Sound.zero (h : s.Numbered) (ts : Nat) : Sound s { t_tsLast := ts } where
  below := Nat.zero_le _
  dated ts' hts' := by
    have hsome : (s.timestamp? 0).isSome := by
      rw [hts']
      rfl
    exact absurd (h.events 0 hsome).1 (Nat.lt_irrefl 0)

theorem Sound.of_key (h : s.Dated) (hk : k ∈ s.m_dbEventsSort) : Sound s ⟨k.hEvent, k.ts⟩ where
  below := by
    apply h.below
    rw [h.dated k hk]
    rfl
  dated ts hts := by
    have hts : s.timestamp? k.hEvent = some ts := hts
    rw [h.dated k hk] at hts
    exact (Option.some.inj hts).symm

theorem Tracked.answer (h : Tracked n) {cc : Position} (hcc : Sound n.store cc)
    : Tracked (n.answer c cc).1 where
  store := h.store
  last c' := by
    show Sound n.store (Function.update n.last c cc c')
    by_cases heq : c' = c
    . rw [heq, Function.update_self]
      exact hcc
    . rw [Function.update_of_ne heq]
      exact h.last c'

theorem Tracked.enter (h : Tracked n) (hkey : ∀ k ∈ key?, k ∈ n.store.m_dbEventsSort)
    : Tracked (n.enter c key?).1 := by
  unfold Session.enter
  split
  . exact h.answer (.zero h.store.toNumbered _)
  . next pKey =>
    split
    . exact h.answer (.zero h.store.toNumbered _)
    . exact h.answer (.of_key h.store (hkey pKey rfl))

theorem Tracked.FindFirstEvent (h : Tracked n) (c : MCONTACT) : Tracked (n.FindFirstEvent c).1 := by
  unfold Session.FindFirstEvent
  split
  . exact h
  . apply h.enter
    intro k hk
    exact Table.first?_mem hk

theorem Tracked.FindLastEvent (h : Tracked n) (c : MCONTACT) : Tracked (n.FindLastEvent c).1 := by
  unfold Session.FindLastEvent
  split
  . exact h
  . dsimp only
    split
    . apply h.enter
      intro k hk
      rcases Option.map_eq_some_iff.1 hk with ⟨a, ha, rfl⟩
      exact Table.last?_mem ha
    . apply h.enter
      intro k hk
      exact Table.prev?_mem hk

theorem Tracked.findFrom (h : Tracked n)
    (hmove : ∀ k k', move n.store.m_dbEventsSort k = some k' → k' ∈ n.store.m_dbEventsSort)
    : Tracked (n.findFrom move c e).1 := by
  unfold Session.findFrom
  split
  . exact h
  . split
    . exact h.answer (.zero h.store.toNumbered _)
    . split
      . exact h
      . dsimp only
        split
        . exact h.answer (.zero h.store.toNumbered _)
        . split
          . exact h.answer (.zero h.store.toNumbered _)
          . next pKey hkey =>
            split
            . exact h.answer (.of_key h.store (hmove _ _ hkey))
            . exact h.answer (.zero h.store.toNumbered _)

theorem Tracked.call (h : Tracked n) (call : Call) (hsafe : n.store.DateSafe call)
    : Tracked (n.call call) where
  store := h.store.step call hsafe
  last c := by
    have hdated := h.store.step call hsafe
    have hfresh : Sound (n.store.step call) {} := .zero hdated.toNumbered 0
    cases call with
    | Load links => exact hfresh
    | _ =>
      have hsteady := h.store.steady _ hsafe (by intro links; simp)
      show Sound _ (if (n.store.contact? c).isSome then n.last c else {})
      split
      . constructor
        . exact (h.last c).below.trans hsteady.max
        . intro ts hts
          apply (h.last c).dated
          exact hsteady.events _ (h.last c).below ts hts
      . exact hfresh

def CallsMeet (ok : Store → Call → Prop) (n : Session) : Request → Prop
  | .call c => ok n.store c
  | _ => True

theorem Tracked.step (h : Tracked n) (r : Request) (hsafe : CallsMeet Store.DateSafe n r)
    : Tracked (n.step r) := by
  cases r with
  | call c => exact h.call c hsafe
  | FindFirstEvent c => exact h.FindFirstEvent c
  | FindLastEvent c => exact h.FindLastEvent c
  | FindNextEvent c e => exact h.findFrom (fun _ _ => Table.next?_mem)
  | FindPrevEvent c e => exact h.findFrom (fun _ _ => Table.prev?_mem)

theorem Tracked.locates (h : Tracked n) (hk : k ∈ n.store.m_dbEventsSort) : n.Locates c k := by
  have hts := h.store.dated k hk
  unfold Store.timestamp? at hts
  rcases Option.map_eq_some_iff.1 hts with ⟨data, hdata, heq⟩
  unfold Locates locate
  dsimp only
  split
  . rw [hdata]
    exact ⟨_, rfl, heq⟩
  . next hhint =>
    refine ⟨_, rfl, ?_⟩
    rw [not_not] at hhint
    apply ((h.last c).dated k.ts _).symm
    rw [hhint]
    exact h.store.dated k hk

def forget (n : Session) (c : MCONTACT) : Session :=
  { n with last := Function.update n.last c {} }

def answerAt (s : Store) (move : Table DBEventSortingKey (List UInt8) → DBEventSortingKey → Option DBEventSortingKey)
    (c : MCONTACT) (e : MEVENT) (ts? : Option Nat) : MEVENT :=
  match ts? with
  | none => 0
  | some ts =>
    if ⟨c, e, ts⟩ ∉ s.m_dbEventsSort then
      0
    else
      match move s.m_dbEventsSort ⟨c, e, ts⟩ with
      | none => 0
      | some pKey => if pKey.hContact = c then pKey.hEvent else 0

theorem findFrom_answer (hknown : (n.store.contact? c).isSome) (he : e ≠ 0)
    : (n.findFrom move c e).2 = answerAt n.store move c e ((n.locate c e).map (·.t_tsLast)) := by
  unfold findFrom answerAt
  rw [if_neg (by simp [Option.isSome_iff_ne_none.1 hknown]), if_neg he]
  cases n.locate c e with
  | none => rfl
  | some cc =>
    dsimp only [Option.map_some]
    split
    . rfl
    . cases move n.store.m_dbEventsSort ⟨c, e, cc.t_tsLast⟩ <;> rfl

theorem locate_forget (he : e ≠ 0)
    : ((n.forget c).locate c e).map (·.t_tsLast) = n.store.timestamp? e := by
  unfold locate forget Store.timestamp?
  dsimp only
  rw [Function.update_self, if_pos (Ne.symm he), Option.map_map]
  rfl

theorem Tracked.answer_forget (h : Tracked n) (c : MCONTACT) (e : MEVENT)
    : (n.findFrom move c e).2 = ((n.forget c).findFrom move c e).2 := by
  by_cases hknown : (n.store.contact? c).isSome
  . by_cases he : e = 0
    . unfold Session.findFrom
      rw [if_neg (by simp [Option.isSome_iff_ne_none.1 hknown]), if_pos he,
        if_neg (by simp [forget, Option.isSome_iff_ne_none.1 hknown]), if_pos he]
      rfl
    . rw [findFrom_answer hknown he, @findFrom_answer (n.forget c) c e move hknown he, locate_forget he]
      show answerAt n.store move c e _ = answerAt n.store move c e _
      unfold locate
      dsimp only
      split
      . rw [Option.map_map]
        rfl
      . next hhint =>
        rw [not_not] at hhint
        cases hts : n.store.timestamp? e with
        | some ts =>
          rw [← hhint] at hts
          rw [(h.last c).dated ts hts]
          rfl
        | none =>
          unfold answerAt
          dsimp only [Option.map_some]
          rw [if_pos]
          intro hmem
          have := h.store.dated _ hmem
          rw [hts] at this
          cases this
  . unfold Session.findFrom
    rw [if_pos (by simpa using hknown), if_pos (by simpa [forget] using hknown)]

structure Walks (n : Session) (c : MCONTACT) (keys : List DBEventSortingKey) : Prop where
  mem : ∀ k, k ∈ keys ↔ k ∈ n.store.m_dbEventsSort ∧ k.hContact = c
  ordered : keys.Pairwise fun k k' => k.ts < k'.ts ∨ k.ts = k'.ts ∧ k.hEvent < k'.hEvent
  once : (keys.map (·.hEvent)).Nodup
  forward : Walk (FindNextEvent · c ·) 0 (n.FindFirstEvent c) (keys.map (·.hEvent))
  backward : Walk (FindPrevEvent · c ·) 0 (n.FindLastEvent c) (keys.map (·.hEvent)).reverse
  next : ∀ l₁ k l₂, keys = l₁ ++ k :: l₂ →
    (n.FindNextEvent c k.hEvent).2 = (l₂.head?.map (·.hEvent)).getD 0
  prev : ∀ l₁ k l₂, keys = l₁ ++ k :: l₂ →
    (n.FindPrevEvent c k.hEvent).2 = (l₁.getLast?.map (·.hEvent)).getD 0
  hint : ∀ e, (n.FindNextEvent c e).2 = ((n.forget c).FindNextEvent c e).2 ∧
    (n.FindPrevEvent c e).2 = ((n.forget c).FindPrevEvent c e).2

def Enumerates (n : Session) (c : MCONTACT) : Prop :=
  ∃ keys, n.Walks c keys

theorem historyKeys_ordered (s : Store) (c : MCONTACT)
    : (s.historyKeys c).Pairwise fun k k' => k.ts < k'.ts ∨ k.ts = k'.ts ∧ k.hEvent < k'.hEvent := by
  apply (s.historyKeys_sorted c).imp_of_mem
  intro k k' hk hk' hlt
  rcases DBEventSortingKey.lt_iff.1 hlt with hc | ⟨_, hrest⟩
  . rw [(Store.mem_historyKeys.1 hk).2, (Store.mem_historyKeys.1 hk').2] at hc
    exact absurd hc (Nat.lt_irrefl c)
  . exact hrest

theorem reaches_answer_eq {x : Session × MEVENT} (h : Reaches s c key? x)
    : x.2 = (key?.map (·.hEvent)).getD 0 := by
  cases key? with
  | none => exact h
  | some k => exact h.1

theorem Tracked.walks (h : Tracked n) (hknown : (n.store.contact? c).isSome)
    : n.Walks c (n.store.historyKeys c) := by
  have hne : ∀ k ∈ n.store.historyKeys c, k.hEvent ≠ 0 := by
    intro k hk
    exact (h.store.keys k (Store.mem_historyKeys.1 hk).1).1.ne'
  have hlt : ∀ k ∈ n.store.historyKeys c, k < sentinel c := by
    intro k hk
    rcases Store.mem_historyKeys.1 hk with ⟨hmem, rfl⟩
    exact (h.store.keys k hmem).2.2
  have hmid {l₁ l₂ : List DBEventSortingKey} {k : DBEventSortingKey}
      (hkeys : n.store.historyKeys c = l₁ ++ k :: l₂) : k ∈ n.store.historyKeys c := by
    rw [hkeys]
    exact List.mem_append_right _ List.mem_cons_self
  constructor
  case mem => exact fun k => Store.mem_historyKeys
  case ordered => exact historyKeys_ordered n.store c
  case once =>
    apply List.Nodup.map_on
    . intro k hk k' hk' heq
      rcases Store.mem_historyKeys.1 hk with ⟨hmem, hc⟩
      rcases Store.mem_historyKeys.1 hk' with ⟨hmem', hc'⟩
      have hts := h.store.dated k hmem
      rw [heq, h.store.dated k' hmem'] at hts
      cases k
      cases k'
      cases hc
      cases hc'
      cases heq
      cases hts
      rfl
    . exact (n.store.historyKeys_sorted c).nodup
  case forward => exact walk_first hknown hne
  case backward => exact walk_last hknown hne hlt
  case next =>
    intro l₁ k l₂ hkeys
    apply reaches_answer_eq
    apply next_reaches hknown hkeys (hne k (hmid hkeys))
    exact h.locates (Store.mem_historyKeys.1 (hmid hkeys)).1
  case prev =>
    intro l₁ k l₂ hkeys
    apply reaches_answer_eq
    apply prev_reaches hknown hkeys (hne k (hmid hkeys))
    exact h.locates (Store.mem_historyKeys.1 (hmid hkeys)).1
  case hint => exact fun e => ⟨h.answer_forget c e, h.answer_forget c e⟩

theorem Tracked.create (m_crypto : MICryptoEngine) (m_bEncrypted : Bool)
    : Tracked (create (Store.create m_crypto m_bEncrypted)) where
  store := .create m_crypto m_bEncrypted
  last _ := .zero (.create m_crypto m_bEncrypted) 0

theorem enumerates_of_run {m_crypto : MICryptoEngine} {m_bEncrypted : Bool}
    (h : Run step (CallsMeet Store.DateSafe) (create (Store.create m_crypto m_bEncrypted)) n)
    (hknown : (n.store.contact? c).isSome)
    : n.Enumerates c := by
  have htracked : Tracked n := by
    apply h.inv (I := Tracked) _ (.create m_crypto m_bEncrypted)
    intro n r hn hok
    exact hn.step r hok
  exact ⟨_, htracked.walks hknown⟩

instance (n : Session) (r : Request) [∀ s c, Decidable (ok s c)] : Decidable (CallsMeet ok n r) :=
  match r with
  | .call c => inferInstanceAs (Decidable (ok n.store c))
  | .FindFirstEvent _ => .isTrue trivial
  | .FindLastEvent _ => .isTrue trivial
  | .FindNextEvent _ _ => .isTrue trivial
  | .FindPrevEvent _ _ => .isTrue trivial

def after (requests : List Request) : Session :=
  requests.foldl step (create (Store.create default false))

theorem enumerates_of_search
    : Enumerates (after [.call .AddContact, .call (.AddEvent {} 1 { iTimestamp := 5 }),
        .FindLastEvent 1]) 1 := by
  apply enumerates_of_run (Run.of_along _) (by decide)
  exact ⟨trivial, .inr (by decide), trivial, trivial⟩

def searchedMerge : List Request :=
  [.call .AddContact, .call .AddContact, .call (.AddEvent {} 1 { iTimestamp := 2 ^ 31 }),
    .call (.AddEvent {} 1 { iTimestamp := 2 ^ 31 + 1 }), .call (.SetLinks 2 { nSubs := 1 }),
    .call (.SetLinks 1 { parentID := 2 }), .call (.MetaMergeHistory 2 1), .FindFirstEvent 2]

-- Event 2 is found behind event 1 only as long as the contact remembers where event 1 is.
theorem not_enumerates_merged
    : ¬ ∀ (m_crypto : MICryptoEngine) (m_bEncrypted : Bool) (n : Session) (c : MCONTACT),
        Run step (CallsMeet Store.Succeeds) (create (Store.create m_crypto m_bEncrypted)) n →
        (n.store.contact? c).isSome → n.Enumerates c := by
  intro h
  have hrun : Run step (CallsMeet Store.Succeeds) (create (Store.create default false))
      (after searchedMerge) := by
    apply Run.of_along
    decide
  rcases h default false _ 2 hrun (by decide) with ⟨keys, hwalks⟩
  have hfound : ((after searchedMerge).FindNextEvent 2 1).2 = 2 := by decide
  have hlost : (((after searchedMerge).forget 2).FindNextEvent 2 1).2 = 0 := by decide
  have hsame := (hwalks.hint 1).1
  rw [hfound, hlost] at hsame
  cases hsame

end Session
end Dbx
