import MirandaNG.Dbx.Lemmas
import MirandaNG.Dbx.Navigation
import MirandaNG.Dbx.Timestamps

/-!
This module contains what the searches answer on a store that does not change: the first and the last
event of a history, and the neighbours of an event as long as the search knows the timestamp its
sorting key has. A walk from one end therefore meets the whole history.

It also contains the invariant the walks through a history rely on: an event is never numbered 0,
and no sorting key is as far behind as the one `FindLastEvent` searches for. It holds in every run
in which the event numbers are not used up.
-/

namespace Dbx

open Kv Transition

namespace Store

theorem historyKeys_eq_filter (s : Store) (c : MCONTACT)
    : s.historyKeys c = s.m_dbEventsSort.keys.filter (fun k => k.hContact = c) := by
  rw [historyKeys_eq]
  unfold Table.keys
  rw [List.filter_map]
  rfl

def events (s : Store) (c : MCONTACT) : List MEVENT :=
  (s.historyKeys c).map (·.hEvent)

end Store

theorem hContact_convex (c : MCONTACT) (k₁ k₂ k₃ : DBEventSortingKey) (h₁₂ : k₁ ≤ k₂) (h₂₃ : k₂ ≤ k₃)
    (h₁ : decide (k₁.hContact = c) = true) (h₃ : decide (k₃.hContact = c) = true)
    : decide (k₂.hContact = c) = true := by
  rw [decide_eq_true_eq] at h₁ h₃ ⊢
  apply le_antisymm
  . exact h₃ ▸ DBEventSortingKey.hContact_le h₂₃
  . exact h₁ ▸ DBEventSortingKey.hContact_le h₁₂

theorem firstKey_le (c : MCONTACT) (k : DBEventSortingKey) (h : decide (k.hContact = c) = true)
    : (⟨c, 0, 0⟩ : DBEventSortingKey) ≤ k := by
  rw [decide_eq_true_eq] at h
  rw [DBEventSortingKey.le_iff]
  apply Or.inr
  constructor
  . exact h.symm
  . cases Nat.eq_zero_or_pos k.ts with
    | inl hts => exact .inr ⟨hts.symm, Nat.zero_le _⟩
    | inr hts => exact .inl hts

namespace Session

variable {n : Session} {c : MCONTACT} {e : MEVENT} {k : DBEventSortingKey}
variable {key? : Option DBEventSortingKey} {l₁ l₂ : List DBEventSortingKey}

def Place (s : Store) (c : MCONTACT) (n : Session) (k : DBEventSortingKey) : Prop :=
  n.store = s ∧ n.last c = ⟨k.hEvent, k.ts⟩

abbrev Reaches (s : Store) (c : MCONTACT) (key? : Option DBEventSortingKey)
    (x : Session × MEVENT) : Prop :=
  Walk.Reaches DBEventSortingKey.hEvent 0 (Place s c) key? x

theorem reaches_answer (k : DBEventSortingKey)
    : Reaches n.store c (some k) (n.answer c ⟨k.hEvent, k.ts⟩) := by
  unfold answer
  exact ⟨rfl, rfl, Function.update_self ..⟩

theorem enter_reaches (n : Session) (c : MCONTACT) (key? : Option DBEventSortingKey)
    : Reaches n.store c (key?.filter (fun k => k.hContact = c)) (n.enter c key?) := by
  unfold enter
  cases key? with
  | none => rfl
  | some pKey =>
    dsimp only
    split
    . next hne =>
      rw [Option.filter_some_neg (by simpa using hne)]
      rfl
    . next heq =>
      rw [Option.filter_some_pos (by simpa using heq)]
      apply reaches_answer

theorem first_reaches (hknown : (n.store.contact? c).isSome)
    : Reaches n.store c (n.store.historyKeys c).head? (n.FindFirstEvent c) := by
  rw [n.store.historyKeys_eq_filter,
    ← Table.first?_filter (hContact_convex c) (by simp) (firstKey_le c)]
  unfold FindFirstEvent
  rw [if_neg (by simp [Option.isSome_iff_ne_none.1 hknown])]
  apply enter_reaches

def sentinel (c : MCONTACT) : DBEventSortingKey where
  hContact := c
  hEvent := 0xFFFFFFFF
  ts := 0xFFFFFFFFFFFFFFFF

theorem last_reaches (hknown : (n.store.contact? c).isSome)
    (hlt : ∀ k ∈ n.store.historyKeys c, k < sentinel c)
    : Reaches n.store c (n.store.historyKeys c).getLast? (n.FindLastEvent c) := by
  have hfilter : (n.store.m_dbEventsSort.prev? (sentinel c)).filter (fun k => k.hContact = c) =
      (n.store.historyKeys c).getLast? := by
    rw [n.store.historyKeys_eq_filter]
    apply Table.prev?_filter_of_lt (hContact_convex c) (by simp [sentinel])
    intro k hk hc
    apply hlt
    rw [Store.mem_historyKeys]
    exact ⟨hk, of_decide_eq_true hc⟩
  unfold FindLastEvent
  rw [if_neg (by simp [Option.isSome_iff_ne_none.1 hknown]), ← hfilter]
  dsimp only
  split
  . next hnone =>
    rw [Table.last?_of_first? hnone]
    apply enter_reaches
  . next key hkey =>
    rw [Table.prev?_of_first? hkey]
    apply enter_reaches

def Locates (n : Session) (c : MCONTACT) (k : DBEventSortingKey) : Prop :=
  ∃ cc, n.locate c k.hEvent = some cc ∧ cc.t_tsLast = k.ts

theorem locates_of_place {s : Store} (h : Place s c n k) : n.Locates c k := by
  refine ⟨n.last c, ?_, ?_⟩
  . unfold locate
    rw [h.2]
    simp
  . rw [h.2]

section From

variable {move : Table DBEventSortingKey (List UInt8) → DBEventSortingKey → Option DBEventSortingKey}

theorem findFrom_reaches (hknown : (n.store.contact? c).isSome) (hk : k ∈ n.store.historyKeys c)
    (hne : k.hEvent ≠ 0) (hlocates : n.Locates c k)
    : Reaches n.store c ((move n.store.m_dbEventsSort k).filter (fun k => k.hContact = c))
        (n.findFrom move c k.hEvent) := by
  rcases hlocates with ⟨cc, hcc, hts⟩
  rcases Store.mem_historyKeys.1 hk with ⟨hmem, hc⟩
  have hkey : (⟨c, k.hEvent, cc.t_tsLast⟩ : DBEventSortingKey) = k := by
    rw [hts, ← hc]
  unfold findFrom
  rw [if_neg (by simp [Option.isSome_iff_ne_none.1 hknown]), if_neg hne]
  simp only [hcc, hkey, not_not.2 hmem, ↓reduceIte]
  cases move n.store.m_dbEventsSort k with
  | none => rfl
  | some pKey =>
    dsimp only
    by_cases heq : pKey.hContact = c
    . rw [Option.filter_some_pos (by simpa using heq), if_pos heq]
      apply reaches_answer
    . rw [Option.filter_some_neg (by simpa using heq), if_neg heq]
      rfl

theorem findFrom_reaches_or (hknown : (n.store.contact? c).isSome) (he : e ≠ 0)
    : (n.findFrom move c e).2 = 0 ∨ ∃ k ∈ n.store.historyKeys c,
        Reaches n.store c ((move n.store.m_dbEventsSort k).filter (fun k => k.hContact = c))
          (n.findFrom move c e) := by
  cases hcc : n.locate c e with
  | none =>
    apply Or.inl
    unfold findFrom
    simp only [hcc, he, ↓reduceIte]
    split <;> rfl
  | some cc =>
    by_cases hmem : (⟨c, e, cc.t_tsLast⟩ : DBEventSortingKey) ∈ n.store.m_dbEventsSort
    . have hk : (⟨c, e, cc.t_tsLast⟩ : DBEventSortingKey) ∈ n.store.historyKeys c :=
        Store.mem_historyKeys.2 ⟨hmem, rfl⟩
      exact .inr ⟨_, hk, findFrom_reaches hknown hk he ⟨cc, hcc, rfl⟩⟩
    . apply Or.inl
      unfold findFrom
      simp only [hcc, he, hmem, ↓reduceIte, not_false_eq_true]
      split <;> rfl

end From

theorem next?_history (h : n.store.historyKeys c = l₁ ++ k :: l₂)
    : (n.store.m_dbEventsSort.next? k).filter (fun k => k.hContact = c) = l₂.head? := by
  apply Table.next?_filter (hContact_convex c)
  rw [← n.store.historyKeys_eq_filter, h]

theorem prev?_history (h : n.store.historyKeys c = l₁ ++ k :: l₂)
    : (n.store.m_dbEventsSort.prev? k).filter (fun k => k.hContact = c) = l₁.getLast? := by
  apply Table.prev?_filter (hContact_convex c)
  rw [← n.store.historyKeys_eq_filter, h]

section Neighbours

variable (hknown : (n.store.contact? c).isSome) (h : n.store.historyKeys c = l₁ ++ k :: l₂)
variable (hne : k.hEvent ≠ 0) (hlocates : n.Locates c k)

include hknown h hne hlocates

theorem next_reaches : Reaches n.store c l₂.head? (n.FindNextEvent c k.hEvent) := by
  rw [← next?_history h]
  apply findFrom_reaches hknown _ hne hlocates
  rw [h]
  exact List.mem_append_right _ List.mem_cons_self

theorem prev_reaches : Reaches n.store c l₁.getLast? (n.FindPrevEvent c k.hEvent) := by
  rw [← prev?_history h]
  apply findFrom_reaches hknown _ hne hlocates
  rw [h]
  exact List.mem_append_right _ List.mem_cons_self

end Neighbours

section Walk

variable {s : Store} (hknown : (s.contact? c).isSome) (hne : ∀ k ∈ s.historyKeys c, k.hEvent ≠ 0)

include hknown hne

theorem walk_next (l₁ l₂ : List DBEventSortingKey) (h : s.historyKeys c = l₁ ++ l₂)
    (x : Session × MEVENT) (hx : Reaches s c l₂.head? x)
    : Walk (FindNextEvent · c ·) 0 x (l₂.map (·.hEvent)) := by
  apply Walk.of_steps hne _ l₁ l₂ h x hx
  rintro n l₁ k l₂ h ⟨rfl, hlast⟩
  apply next_reaches hknown h
  . apply hne
    rw [h]
    exact List.mem_append_right _ List.mem_cons_self
  . exact locates_of_place ⟨rfl, hlast⟩

theorem walk_prev (l₁ l₂ : List DBEventSortingKey) (h : (s.historyKeys c).reverse = l₁ ++ l₂)
    (x : Session × MEVENT) (hx : Reaches s c l₂.head? x)
    : Walk (FindPrevEvent · c ·) 0 x (l₂.map (·.hEvent)) := by
  have hne' : ∀ k ∈ (s.historyKeys c).reverse, k.hEvent ≠ 0 := fun k hk => hne k (List.mem_reverse.1 hk)
  apply Walk.of_steps hne' _ l₁ l₂ h x hx
  rintro n l₁ k l₂ h ⟨rfl, hlast⟩
  have hsplit : n.store.historyKeys c = l₂.reverse ++ k :: l₁.reverse := by
    rw [← List.reverse_inj, h]
    simp
  rw [← List.getLast?_reverse]
  apply prev_reaches hknown hsplit
  . apply hne
    rw [hsplit]
    exact List.mem_append_right _ List.mem_cons_self
  . exact locates_of_place ⟨rfl, hlast⟩

end Walk

theorem walk_first (hknown : (n.store.contact? c).isSome)
    (hne : ∀ k ∈ n.store.historyKeys c, k.hEvent ≠ 0)
    : Walk (FindNextEvent · c ·) 0 (n.FindFirstEvent c) (n.store.events c) := by
  apply walk_next hknown hne [] _ rfl
  exact first_reaches hknown

theorem walk_last (hknown : (n.store.contact? c).isSome)
    (hne : ∀ k ∈ n.store.historyKeys c, k.hEvent ≠ 0)
    (hlt : ∀ k ∈ n.store.historyKeys c, k < sentinel c)
    : Walk (FindPrevEvent · c ·) 0 (n.FindLastEvent c) (n.store.events c).reverse := by
  unfold Store.events
  rw [← List.map_reverse]
  apply walk_prev hknown hne [] (n.store.historyKeys c).reverse rfl
  rw [List.head?_reverse]
  exact last_reaches hknown hlt

end Session
end Dbx

namespace Dbx

open Kv Crypt Transition

namespace Store

structure Numbered (s : Store) : Prop where
  events : ∀ e, (s.timestamp? e).isSome → 0 < e ∧ e < 2 ^ 32
  keys : ∀ k ∈ s.m_dbEventsSort, 0 < k.hEvent ∧ k.hEvent < 2 ^ 32 ∧ k < Session.sentinel k.hContact
  max : s.m_dwMaxEventId < 2 ^ 32

variable {s s' : Store} {env : Env} {c ccMeta ccSub : MCONTACT} {e : MEVENT} {ts : Nat}
variable {k : DBEventSortingKey}

theorem lt_sentinel_iff
    : k < Session.sentinel k.hContact ↔ k.ts < 2 ^ 64 - 1 ∨ k.ts = 2 ^ 64 - 1 ∧ k.hEvent < 2 ^ 32 - 1 := by
  rw [DBEventSortingKey.lt_iff]
  unfold Session.sentinel
  simp

theorem Numbered.shrinks (h : Numbered s) (hs : Shrinks s s') : Numbered s' where
  events e he := by
    rcases Option.isSome_iff_exists.1 he with ⟨ts, hts⟩
    apply h.events
    rw [hs.events e ts hts]
    rfl
  keys k hk := h.keys k (hs.keys k hk)
  max := by
    rw [hs.max]
    exact h.max

theorem Numbered.files (h : Numbered s) (hs : Files s s' e ts) (he : 0 < e) (he' : e < 2 ^ 32)
    (hts : ts < 2 ^ 32)
    : Numbered s' where
  events e' hsome := by
    rw [hs.events] at hsome
    split at hsome
    . next heq =>
      rw [heq]
      exact ⟨he, he'⟩
    . exact h.events e' hsome
  keys k hk := by
    rcases hs.keys k hk with hold | ⟨rfl, rfl⟩
    . exact h.keys k hold
    . refine ⟨he, he', ?_⟩
      rw [lt_sentinel_iff]
      omega
  max := by
    rw [hs.max]
    exact h.max

theorem Numbered.Load (h : Numbered s) (links : MCONTACT → MetaLinks) : Numbered (s.Load links) where
  events := h.events
  keys := h.keys
  max := by
    rw [Load_m_dwMaxEventId]
    cases hlast : s.m_dbEvents.last? with
    | none => simp
    | some a =>
      have hmem : (s.timestamp? a.1).isSome := timestamp?_isSome_iff.2 (Table.last?_mem hlast)
      exact (h.events _ hmem).2

theorem Numbered.create (m_crypto : MICryptoEngine) (m_bEncrypted : Bool)
    : Numbered (create m_crypto m_bEncrypted) where
  events _ he := by cases he
  keys _ hk := by cases hk
  max := Nat.two_pow_pos 32

theorem getUnixtime_lt (dbei : DBEVENTINFO) : dbei.getUnixtime < 2 ^ 32 := by
  unfold DBEVENTINFO.getUnixtime
  apply Nat.mod_lt
  exact Nat.two_pow_pos 32

theorem EventItem_make_ts_lt (ts : Nat) (e : MEVENT) : (EventItem.make ts e).ts < 2 ^ 64 := by
  unfold EventItem.make
  dsimp only
  split <;> omega

theorem EventItem_make_ts_eq (h : (EventItem.make ts e).ts = 2 ^ 64 - 1) : ts % 2 ^ 32 = 2 ^ 32 - 1 := by
  unfold EventItem.make at h
  dsimp only at h
  split at h <;> omega

-- A call that hands out a number it can hand out, and merges no event to the very end of a history.
def NumberSafe (s : Store) : Call → Prop
  | .AddEvent _ _ dbei => dbei.iTimestamp = 0 ∨ s.m_dwMaxEventId + 1 < 2 ^ 32
  | .MetaMergeHistory ccMeta ccSub =>
    ccMeta ∈ s.m_cache → ccSub ∈ s.m_cache →
      ∀ k ∈ s.historyKeys ccSub, k.hEvent = 2 ^ 32 - 1 → k.ts % 2 ^ 32 ≠ 2 ^ 32 - 1
  | _ => True

theorem Numbered.EditEvent' (h : Numbered s) (he : 0 < e) (he' : e < 2 ^ 32) (dbei : DBEVENTINFO)
    (bNew : Bool)
    : Numbered (s.EditEvent' env c e dbei bNew).1 := by
  rcases s.EditEvent'_files env c e dbei bNew with hkeeps | ⟨_, hfiles⟩
  . exact h.shrinks hkeeps.shrinks
  . exact h.files hfiles he he' (getUnixtime_lt dbei)

theorem Numbered.AddEvent (h : Numbered s) (dbei : DBEVENTINFO)
    (hsafe : dbei.iTimestamp = 0 ∨ s.m_dwMaxEventId + 1 < 2 ^ 32)
    : Numbered (s.AddEvent env c dbei).1 := by
  unfold Store.AddEvent
  split
  . exact h
  . next hts =>
    have hroom := hsafe.resolve_left hts
    have hmax : Numbered { s with m_dwMaxEventId := s.m_dwMaxEventId + 1 } := ⟨h.events, h.keys, hroom⟩
    rw [Nat.mod_eq_of_lt hroom]
    exact hmax.EditEvent' (Nat.succ_pos _) hroom dbei true

theorem Numbered.EditEvent (h : Numbered s) (dbei : DBEVENTINFO)
    : Numbered (s.EditEvent env e dbei).1 := by
  unfold Store.EditEvent
  split
  . exact h
  . split
    . exact h
    . next data hdata =>
      have hmem : (s.timestamp? e).isSome := timestamp?_isSome_iff.2 (Table.mem_iff_exists.2 ⟨data, hdata⟩)
      rcases h.events e hmem with ⟨he, he'⟩
      exact h.EditEvent' he he' _ _

theorem Numbered.MetaMergeHistory (h : Numbered s)
    (hsafe : ccMeta ∈ s.m_cache → ccSub ∈ s.m_cache →
      ∀ k ∈ s.historyKeys ccSub, k.hEvent = 2 ^ 32 - 1 → k.ts % 2 ^ 32 ≠ 2 ^ 32 - 1)
    : Numbered (s.MetaMergeHistory ccMeta ccSub).1 where
  events e he := by
    rw [timestamp?_MetaMergeHistory] at he
    exact h.events e he
  keys k hk := by
    rcases mem_MetaMergeHistory_imp hk with hold | ⟨⟨hmeta, hsub⟩, hmerged⟩
    . exact h.keys k hold
    . rcases mem_mergedKeys.1 hmerged with ⟨k', hk', rfl⟩
      rcases h.keys k' (mem_historyKeys.1 hk').1 with ⟨hpos, hlt, _⟩
      refine ⟨hpos, hlt, ?_⟩
      rw [lt_sentinel_iff]
      have hts := EventItem_make_ts_lt k'.ts k'.hEvent
      have hlast := hsafe hmeta hsub k' hk'
      by_cases heq : (EventItem.make k'.ts k'.hEvent).ts = 2 ^ 64 - 1
      . apply Or.inr
        refine ⟨heq, ?_⟩
        have hne : k'.hEvent ≠ 2 ^ 32 - 1 := fun he => hlast he (EventItem_make_ts_eq heq)
        show k'.hEvent < 2 ^ 32 - 1
        exact Nat.lt_of_le_of_ne (Nat.le_pred_of_lt hlt) hne
      . apply Or.inl
        show (EventItem.make k'.ts k'.hEvent).ts < 2 ^ 64 - 1
        omega
  max := by
    rw [MetaMergeHistory_m_dwMaxEventId]
    exact h.max

theorem Numbered.step (h : Numbered s) (call : Call) (hsafe : s.NumberSafe call)
    : Numbered (s.step call) := by
  cases call with
  | AddContact => exact h.shrinks (Keeps.AddContact s).shrinks
  | DeleteContact env contactID => exact h.shrinks (.DeleteContact s env contactID)
  | AddEvent env contactID dbei => exact h.AddEvent dbei hsafe
  | EditEvent env hDbEvent dbei => exact h.EditEvent dbei
  | DeleteEvent env hDbEvent => exact h.shrinks (.DeleteEvent s env hDbEvent)
  | MarkEventRead env contactID hDbEvent =>
    exact h.shrinks (Keeps.MarkEventRead s env contactID hDbEvent).shrinks
  | MetaMergeHistory ccMeta ccSub => exact h.MetaMergeHistory hsafe
  | MetaSplitHistory ccMeta ccSub => exact h.shrinks (Keeps.MetaSplitHistory s ccMeta ccSub).shrinks
  | MetaRemoveSubHistory env ccSub => exact h.shrinks (Keeps.MetaRemoveSubHistory s env ccSub).shrinks
  | SetLinks contactID links => exact ⟨h.events, h.keys, h.max⟩
  | SetCacheSafetyMode bIsSet => exact ⟨h.events, h.keys, h.max⟩
  | Load links => exact h.Load links

end Store
end Dbx
