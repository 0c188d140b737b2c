import MirandaNG.Dbx.Enumeration

/-!
This module contains what the two kinds of event cursors yield: that of the store the whole history,
whatever event it is asked to start at, and that of the base class the events behind that event.
-/

namespace Dbx

open Kv Crypt Transition

def Store.inOrder (s : Store) (c : MCONTACT) (forward : Bool) : List DBEventSortingKey :=
  if forward then s.historyKeys c else (s.historyKeys c).reverse

namespace Session

variable {n : Session} {s : Store} {c : MCONTACT} {e : MEVENT} {forward : Bool} {l : List MEVENT}
variable {k : DBEventSortingKey} {l₁ l₂ : List DBEventSortingKey}

theorem move_inOrder (h : s.inOrder c forward = l₁ ++ k :: l₂)
    : (if forward then s.m_dbEventsSort.next? k else s.m_dbEventsSort.prev? k).filter
        (fun k => k.hContact = c) = l₂.head? := by
  cases forward with
  | true => exact next?_history (n := create s) h
  | false =>
    have hsplit : s.historyKeys c = l₂.reverse ++ k :: l₁.reverse := by
      have h : (s.historyKeys c).reverse = l₁ ++ k :: l₂ := h
      rw [← List.reverse_inj, h]
      simp
    rw [← List.getLast?_reverse]
    exact prev?_history (n := create s) hsplit

def enterFrom (n : Session) (c : MCONTACT) (forward : Bool) : Session × MEVENT :=
  if forward then n.FindFirstEvent c else n.FindLastEvent c

theorem enterFrom_reaches (h : n.store.Numbered) (hknown : (n.store.contact? c).isSome)
    : Reaches n.store c (n.store.inOrder c forward).head? (n.enterFrom c forward) := by
  unfold enterFrom Store.inOrder
  cases forward with
  | true => exact first_reaches hknown
  | false =>
    simp only [Bool.false_eq_true, ↓reduceIte, List.head?_reverse]
    apply last_reaches hknown
    intro k hk
    rcases Store.mem_historyKeys.1 hk with ⟨hmem, rfl⟩
    exact (h.keys k hmem).2.2

theorem inOrder_ne_zero (h : s.Numbered) : ∀ k ∈ s.inOrder c forward, k.hEvent ≠ 0 := by
  intro k hk
  have hk : k ∈ s.historyKeys c := by
    unfold Store.inOrder at hk
    split at hk
    . exact hk
    . exact List.mem_reverse.1 hk
  exact (h.keys k (Store.mem_historyKeys.1 hk).1).1.ne'

theorem mem_inOrder : k ∈ s.inOrder c forward ↔ k ∈ s.historyKeys c := by
  unfold Store.inOrder
  split
  . rfl
  . exact List.mem_reverse

def Yields (s : Store) (cur : CMdbxEventCursor) (l : List MEVENT) : Prop :=
  Walk (fun cur _ => CMdbxEventCursor.FetchNext s cur) 0 (CMdbxEventCursor.FetchNext s cur) l

structure StandsAt (c : MCONTACT) (forward : Bool) (cur : CMdbxEventCursor) (k : DBEventSortingKey)
    : Prop where
  hContact : cur.hContact = c
  m_bForward : cur.m_bForward = forward
  m_bFirst : cur.m_bFirst = false
  m_key : cur.m_key = k

theorem fetch_steps (cur : CMdbxEventCursor) (h : s.inOrder c forward = l₁ ++ k :: l₂)
    (hat : StandsAt c forward cur k)
    : Walk.Reaches DBEventSortingKey.hEvent 0 (StandsAt c forward) l₂.head?
        (CMdbxEventCursor.FetchNext s cur) := by
  rcases cur with ⟨hContact, m_bForward, m_bFirst, m_key⟩
  rcases hat with ⟨rfl, rfl, rfl, rfl⟩
  have hmem : m_key ∈ s.m_dbEventsSort := by
    have : m_key ∈ s.inOrder hContact m_bForward := by
      rw [h]
      exact List.mem_append_right _ List.mem_cons_self
    exact (Store.mem_historyKeys.1 (mem_inOrder.1 this)).1
  rw [← move_inOrder h]
  unfold CMdbxEventCursor.FetchNext
  simp only [Bool.false_eq_true, not_not.2 hmem, ↓reduceIte]
  cases (if m_bForward then s.m_dbEventsSort.next? m_key else s.m_dbEventsSort.prev? m_key) with
  | none => rfl
  | some dbKey =>
    dsimp only
    split
    . next hne =>
      rw [Option.filter_some_neg (by simpa using hne)]
      rfl
    . next heq =>
      rw [Option.filter_some_pos (by simpa using heq)]
      exact ⟨rfl, rfl, rfl, rfl, rfl⟩

theorem create_store (hreaches : Reaches s c (s.inOrder c forward).head? (n.enterFrom c forward))
    (h : s.Numbered)
    : Walk.Reaches DBEventSortingKey.hEvent 0 (StandsAt c forward) (s.inOrder c forward).head?
        (CMdbxEventCursor.FetchNext s (CMdbxEventCursor.create n c forward).2) := by
  have hmem : ∀ k ∈ (s.inOrder c forward).head?, k ∈ s.inOrder c forward :=
    fun k hk => List.mem_of_mem_head? hk
  unfold CMdbxEventCursor.create
  unfold enterFrom at hreaches
  generalize (if forward then n.FindFirstEvent c else n.FindLastEvent c) = x at hreaches
  generalize (s.inOrder c forward).head? = key? at hreaches hmem
  rcases x with ⟨n', hEvent⟩
  cases key? with
  | none =>
    have hzero : hEvent = 0 := hreaches
    subst hzero
    rfl
  | some k =>
    rcases hreaches with ⟨hanswer, hplace⟩
    dsimp only at hanswer
    subst hanswer
    have hk := hmem k rfl
    have hne := inOrder_ne_zero h k hk
    unfold CMdbxEventCursor.FetchNext
    simp only [hne, ↓reduceIte, ne_eq, not_false_eq_true]
    refine ⟨rfl, rfl, rfl, rfl, ?_⟩
    rw [hplace.2]
    rw [← (Store.mem_historyKeys.1 (mem_inOrder.1 hk)).2]

theorem yields_all (h : n.store.Numbered) (hknown : (n.store.contact? c).isSome)
    : Yields n.store (CMdbxEventCursor.create n c forward).2
        ((n.store.inOrder c forward).map (·.hEvent)) := by
  apply Walk.of_steps (inOrder_ne_zero h) _ [] _ rfl
  . exact create_store (enterFrom_reaches h hknown) h
  . intro cur l₁ k l₂ hsplit hat
    exact fetch_steps cur hsplit hat

def CompatYields (x : Session × CCompatiblityCursor) (l : List MEVENT) : Prop :=
  Walk (fun x _ => CCompatiblityCursor.FetchNext x) 0 (CCompatiblityCursor.FetchNext x) l

theorem compatYields_of_walk {x : Session × MEVENT}
    (h : Walk (CCompatiblityCursor.find · c forward ·) 0 x l)
    : CompatYields (x.1, ⟨c, forward, x.2⟩) l := by
  induction h with
  | finished n => exact .finished _
  | @more n e l he hrest ih =>
    unfold CompatYields CCompatiblityCursor.FetchNext
    dsimp only
    rw [if_neg he]
    exact .more he ih

theorem walk_find (h : s.Numbered) (hknown : (s.contact? c).isSome) (l₁ l₂ : List DBEventSortingKey)
    (hkeys : s.inOrder c forward = l₁ ++ l₂) (x : Session × MEVENT) (hx : Reaches s c l₂.head? x)
    : Walk (CCompatiblityCursor.find · c forward ·) 0 x (l₂.map (·.hEvent)) := by
  have hne : ∀ k ∈ s.historyKeys c, k.hEvent ≠ 0 := by
    intro k hk
    exact (h.keys k (Store.mem_historyKeys.1 hk).1).1.ne'
  cases forward with
  | true => exact walk_next hknown hne l₁ l₂ hkeys x hx
  | false => exact walk_prev hknown hne l₁ l₂ hkeys x hx

theorem compatYields_all (h : n.store.Numbered) (hknown : (n.store.contact? c).isSome)
    : CompatYields (CCompatiblityCursor.create n c forward 0)
        ((n.store.inOrder c forward).map (·.hEvent)) := by
  apply @compatYields_of_walk c forward _ (n.enterFrom c forward)
  apply walk_find h hknown [] (n.store.inOrder c forward) rfl
  exact enterFrom_reaches h hknown

theorem find_reaches (hknown : (n.store.contact? c).isSome) (he : e ≠ 0)
    : (CCompatiblityCursor.find n c forward e).2 = 0 ∨
        ∃ l₁ k l₂, n.store.inOrder c forward = l₁ ++ k :: l₂ ∧
          Reaches n.store c l₂.head? (CCompatiblityCursor.find n c forward e) := by
  cases forward with
  | true =>
    rcases @findFrom_reaches_or n c e Table.next? hknown he with hzero | ⟨k, hk, hreaches⟩
    . exact .inl hzero
    . rcases List.append_of_mem hk with ⟨l₁, l₂, hkeys⟩
      exact .inr ⟨l₁, k, l₂, hkeys, next?_history hkeys ▸ hreaches⟩
  | false =>
    rcases @findFrom_reaches_or n c e Table.prev? hknown he with hzero | ⟨k, hk, hreaches⟩
    . exact .inl hzero
    . rcases List.append_of_mem hk with ⟨l₁, l₂, hkeys⟩
      refine .inr ⟨l₂.reverse, k, l₁.reverse, ?_, ?_⟩
      . show (n.store.historyKeys c).reverse = _
        rw [hkeys]
        simp
      . rw [List.head?_reverse, ← prev?_history hkeys]
        exact hreaches

theorem compatYields_behind (h : n.store.Numbered) (hknown : (n.store.contact? c).isSome)
    (he : e ≠ 0) (hmem : e ∈ n.store.events c)
    : ∃ l₁ l₂, l₁ ≠ [] ∧ n.store.inOrder c forward = l₁ ++ l₂ ∧
        CompatYields (CCompatiblityCursor.create n c forward e) (l₂.map (·.hEvent)) := by
  have hcreate : CCompatiblityCursor.create n c forward e =
      ((CCompatiblityCursor.find n c forward e).1,
        ⟨c, forward, (CCompatiblityCursor.find n c forward e).2⟩) := by
    unfold CCompatiblityCursor.create
    rw [if_neg he]
  rw [hcreate]
  rcases @find_reaches n c e forward hknown he with hzero | ⟨l₁, k, l₂, hkeys, hreaches⟩
  . rcases List.mem_map.1 hmem with ⟨k, hk, _⟩
    refine ⟨n.store.inOrder c forward, [], ?_, (List.append_nil _).symm, ?_⟩
    . exact List.ne_nil_of_mem (mem_inOrder.2 hk)
    . apply compatYields_of_walk
      rw [← Prod.mk.eta (p := CCompatiblityCursor.find n c forward e), hzero]
      exact .finished _
  . refine ⟨l₁ ++ [k], l₂, by simp, by rw [hkeys]; simp, ?_⟩
    apply compatYields_of_walk
    apply walk_find h hknown (l₁ ++ [k]) l₂
    . rw [hkeys]
      simp
    . exact hreaches

structure CursorsAgree (n : Session) (c : MCONTACT) (e : MEVENT) : Prop where
  forward : ∃ x l, n.EventCursor c e = some x ∧ Yields n.store x.2 l ∧
    CompatYields (CCompatiblityCursor.create n c true e) l ∧ (e = 0 → l = n.store.events c)
  backward : ∃ x l, n.EventCursorRev c e = some x ∧ Yields n.store x.2 l ∧
    CompatYields (CCompatiblityCursor.create n c false e) l ∧ (e = 0 → l = (n.store.events c).reverse)

theorem openCursor_eq (hknown : (n.store.contact? c).isSome) (forward : Bool)
    : n.openCursor c forward = some (CMdbxEventCursor.create n c forward) := by
  unfold openCursor
  rw [if_neg (by simp [Option.isSome_iff_ne_none.1 hknown])]

theorem cursorsAgree_zero (h : n.store.Numbered) (hknown : (n.store.contact? c).isSome)
    : n.CursorsAgree c 0 where
  forward := ⟨_, _, openCursor_eq hknown true, yields_all h hknown, compatYields_all h hknown,
    fun _ => rfl⟩
  backward := ⟨_, _, openCursor_eq hknown false, yields_all h hknown, compatYields_all h hknown,
    fun _ => List.map_reverse⟩

theorem not_cursorsAgree (h : n.store.Numbered) (hknown : (n.store.contact? c).isSome) (he : e ≠ 0)
    (hmem : e ∈ n.store.events c)
    : ¬ n.CursorsAgree c e := by
  rintro ⟨⟨x, l, hx, hyields, hcompat, _⟩, _⟩
  rw [EventCursor, openCursor_eq hknown, Option.some.injEq] at hx
  subst hx
  have hall := hyields.unique (yields_all h hknown)
  rcases compatYields_behind h hknown he hmem with ⟨l₁, l₂, hne, hkeys, hbehind⟩
  have hlen := congrArg List.length (hall.symm.trans (hcompat.unique hbehind))
  rw [hkeys, List.length_map, List.length_map, List.length_append] at hlen
  apply hne
  apply List.eq_nil_of_length_eq_zero
  omega

theorem enter_store (n : Session) (c : MCONTACT) (key? : Option DBEventSortingKey)
    : (n.enter c key?).1.store = n.store := by
  unfold enter
  split
  . rfl
  . split <;> rfl

theorem findFrom_store {move} (n : Session) (c : MCONTACT) (e : MEVENT)
    : (n.findFrom move c e).1.store = n.store := by
  unfold findFrom
  split
  . rfl
  . split
    . rfl
    . split
      . rfl
      . dsimp only
        split
        . rfl
        . split <;> rfl

theorem numbered_step (h : n.store.Numbered) (r : Request) (hsafe : CallsMeet Store.NumberSafe n r)
    : (n.step r).store.Numbered := by
  cases r with
  | call c => exact h.step c hsafe
  | FindFirstEvent c =>
    have hstore : (n.FindFirstEvent c).1.store = n.store := by
      unfold FindFirstEvent
      split
      . rfl
      . apply enter_store
    exact hstore ▸ h
  | FindLastEvent c =>
    have hstore : (n.FindLastEvent c).1.store = n.store := by
      unfold FindLastEvent
      split
      . rfl
      . dsimp only
        split <;> apply enter_store
    exact hstore ▸ h
  | FindNextEvent c e => exact (findFrom_store n c e : (n.FindNextEvent c e).1.store = _) ▸ h
  | FindPrevEvent c e => exact (findFrom_store n c e : (n.FindPrevEvent c e).1.store = _) ▸ h

theorem numbered_of_run {m_crypto : MICryptoEngine} {m_bEncrypted : Bool}
    (h : Run step (CallsMeet Store.NumberSafe) (create (Store.create m_crypto m_bEncrypted)) n)
    : n.store.Numbered := by
  apply h.inv (I := fun n => n.store.Numbered) _ (.create m_crypto m_bEncrypted)
  intro n r hn hok
  exact numbered_step hn r hok

theorem cursorsAgree_iff {m_crypto : MICryptoEngine} {m_bEncrypted : Bool}
    (h : Run step (CallsMeet Store.NumberSafe) (create (Store.create m_crypto m_bEncrypted)) n)
    (hknown : (n.store.contact? c).isSome) (hstart : e = 0 ∨ e ∈ n.store.events c)
    : n.CursorsAgree c e ↔ e = 0 := by
  have hnumbered := numbered_of_run h
  constructor
  . intro hagree
    by_contra he
    exact not_cursorsAgree hnumbered hknown he (hstart.resolve_left he) hagree
  . rintro rfl
    exact cursorsAgree_zero hnumbered hknown

def twoEvents : List Request :=
  [.call .AddContact, .call (.AddEvent {} 1 { iTimestamp := 5 }),
    .call (.AddEvent {} 1 { iTimestamp := 6 })]

theorem numberSafe_twoEvents
    : Along step (CallsMeet Store.NumberSafe) (create (Store.create default false)) twoEvents :=
  ⟨trivial, .inr (by decide), .inr (by decide), trivial⟩

theorem cursorsAgree_twoEvents : (after twoEvents).CursorsAgree 1 0 :=
  (cursorsAgree_iff (Run.of_along numberSafe_twoEvents) (by decide) (.inl rfl)).2 rfl

-- The store yields both events where the base class yields the second.
theorem not_cursorsAgree_start
    : ¬ ∀ (m_crypto : MICryptoEngine) (m_bEncrypted : Bool) (n : Session) (c : MCONTACT) (e : MEVENT),
        Run step (CallsMeet Store.Succeeds) (create (Store.create m_crypto m_bEncrypted)) n →
        (n.store.contact? c).isSome → e = 0 ∨ e ∈ n.store.events c → n.CursorsAgree c e := by
  intro h
  have hrun : Run step (CallsMeet Store.Succeeds) (create (Store.create default false))
      (after twoEvents) := by
    apply Run.of_along
    decide
  have hnumbered := numbered_of_run (Run.of_along numberSafe_twoEvents)
  apply not_cursorsAgree hnumbered (c := 1) (e := 1) (by decide) (by decide) (by decide)
  apply h default false _ 1 1 hrun (by decide) (.inr (by decide))

end Session
end Dbx
