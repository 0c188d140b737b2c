import MirandaNG.DbxSqlite.Basic
import MirandaNG.Transition.Run

/-!
This module contains the cursors over the history of a contact: two prepared statements that are stepped as long as
the caller goes on where the last call stopped. It proves that they visit the rows of the contact in order.
-/

open Rel Transition

namespace DbxSqlite

inductive Bound where
  | all
  | beyond (key : Int)
  | nothing
deriving DecidableEq

def Bound.holds : Bound → Int → Bool
  | all, _ => true
  | beyond b, key => b < key
  | nothing, _ => false

structure Walk where
  contact : Nat
  bound : Bound
deriving DecidableEq

structure Cursor where
  cur : Option Walk := none
  hContact : Nat := 0
  hEvent : Nat := 0
deriving DecidableEq

structure Events where
  db : Db := {}
  cursor : Bool → Cursor := fun _ => {}

def EventSrt.order (back : Bool) (r : EventSrt) : Int := if back then -r.timestamp else r.timestamp

def Db.history (db : Db) (hContact : Nat) : List EventSrt := db.events_srt.filter fun r => r.contact_id = hContact

def Db.nextRow (db : Db) (back : Bool) (walk : Walk) : Option EventSrt :=
  first (EventSrt.order back) ((db.history walk.contact).filter fun r => walk.bound.holds (r.order back))

-- `timestamp > (SELECT timestamp FROM events_srt WHERE id=?)`, where the rows of the event stand in the order they
-- were inserted in
def Db.subselect (db : Db) (back : Bool) (hDbEvent : Nat) : Bound :=
  match db.events_srt.find? fun r => r.id = hDbEvent with
  | none => .nothing
  | some r => .beyond (r.order back)

namespace Events

def fetch (st : Events) (back : Bool) (hContact : Nat) (walk : Walk) : Nat × Events :=
  match st.db.nextRow back walk with
  | none => (0, { st with cursor := Function.update st.cursor back {} })
  | some r =>
    (r.id, { st with cursor :=
      Function.update st.cursor back ⟨some ⟨walk.contact, .beyond (r.order back)⟩, hContact, r.id⟩ })

def find (st : Events) (back : Bool) (hContact : Nat) : Nat × Events :=
  match st.db.contactOrSystem hContact with
  | none => (0, st)
  | some _ => st.fetch back hContact ⟨hContact, .all⟩

def findBeyond (st : Events) (back : Bool) (hContact hDbEvent : Nat) : Nat × Events :=
  if hDbEvent = 0 then
    (0, st)
  else
    match st.db.contactOrSystem hContact with
    | none => (0, st)
    | some _ =>
      if hContact ≠ (st.cursor back).hContact ∨ hDbEvent ≠ (st.cursor back).hEvent then
        st.fetch back hContact ⟨hContact, st.db.subselect back hDbEvent⟩
      else
        match (st.cursor back).cur with
        | none => (0, { st with cursor := Function.update st.cursor back {} })
        | some walk => st.fetch back (st.cursor back).hContact walk

def FindFirstEvent (st : Events) (hContact : Nat) : Nat × Events := st.find false hContact

def FindNextEvent (st : Events) (hContact hDbEvent : Nat) : Nat × Events := st.findBeyond false hContact hDbEvent

def FindLastEvent (st : Events) (hContact : Nat) : Nat × Events := st.find true hContact

def FindPrevEvent (st : Events) (hContact hDbEvent : Nat) : Nat × Events := st.findBeyond true hContact hDbEvent

inductive EventsCall where
  | db (c : Db.Call)
  | FindFirstEvent (hContact : Nat)
  | FindNextEvent (hContact hDbEvent : Nat)
  | FindLastEvent (hContact : Nat)
  | FindPrevEvent (hContact hDbEvent : Nat)

def step (st : Events) : EventsCall → Events
  | .db c => { st with db := st.db.step c }
  | .FindFirstEvent hContact => (st.FindFirstEvent hContact).2
  | .FindNextEvent hContact hDbEvent => (st.FindNextEvent hContact hDbEvent).2
  | .FindLastEvent hContact => (st.FindLastEvent hContact).2
  | .FindPrevEvent hContact hDbEvent => (st.FindPrevEvent hContact hDbEvent).2

-- for (h = FindFirstEvent(hContact); h; h = FindNextEvent(hContact, h)), or the same backwards
def visitFrom (back : Bool) (hContact : Nat) : Nat → Nat × Events → List Nat
  | 0, _ => []
  | fuel + 1, (h, st) => if h = 0 then [] else h :: visitFrom back hContact fuel (st.findBeyond back hContact h)

def visits (st : Events) (back : Bool) (hContact fuel : Nat) : List Nat :=
  visitFrom back hContact fuel (st.find back hContact)

end Events

structure Db.InOrder (db : Db) (back : Bool) (hContact : Nat) (l : List EventSrt) : Prop where
  perm : (db.history hContact).Perm l
  sorted : l.Pairwise fun a b => a.order back < b.order back

namespace Db.InOrder

variable {db : Db} {back : Bool} {hContact : Nat} {l : List EventSrt}

theorem nextRow (h : db.InOrder back hContact l) (bound : Bound)
    : db.nextRow back ⟨hContact, bound⟩ = (l.filter fun r => bound.holds (r.order back)).head? :=
  first_of_perm (h.perm.filter _) (h.sorted.filter _)

theorem nextRow_all (h : db.InOrder back hContact l) : db.nextRow back ⟨hContact, .all⟩ = l.head? := by
  have hall : (l.filter fun r => Bound.all.holds (r.order back)) = l := List.filter_eq_self.mpr fun _ _ => rfl
  rw [h.nextRow, hall]

theorem nextRow_beyond {done rest : List EventSrt} {r : EventSrt} (h : db.InOrder back hContact (done ++ r :: rest))
    : db.nextRow back ⟨hContact, .beyond (r.order back)⟩ = rest.head? := by
  obtain ⟨_, hrest, hdone⟩ := List.pairwise_append.mp h.sorted
  rw [h.nextRow, List.filter_append, List.filter_eq_nil_iff.mpr, List.nil_append, List.filter_cons,
    if_neg (by simp [Bound.holds]), List.filter_eq_self.mpr]
  . intro x hx
    exact decide_eq_true (List.rel_of_pairwise_cons hrest hx)
  . intro x hx
    have hlt := hdone x hx r List.mem_cons_self
    simp only [Bound.holds, decide_eq_true_eq]
    omega

theorem mem_history (h : db.InOrder back hContact l) {r : EventSrt} (hr : r ∈ l)
    : r ∈ db.events_srt ∧ r.contact_id = hContact := by
  have hmem := List.mem_filter.mp (h.perm.mem_iff.mpr hr)
  exact ⟨hmem.1, of_decide_eq_true hmem.2⟩

end Db.InOrder

namespace Events

variable {st : Events} {back : Bool} {hContact : Nat}

def At (st : Events) (back : Bool) (hContact : Nat) (r : EventSrt) : Prop :=
  st.cursor back = ⟨some ⟨hContact, .beyond (r.order back)⟩, hContact, r.id⟩

theorem findBeyond_of_at {r : EventSrt} (hat : st.At back hContact r) (hr : r.id ≠ 0)
    (hcontact : (st.db.contactOrSystem hContact).isSome)
    : st.findBeyond back hContact r.id = st.fetch back hContact ⟨hContact, .beyond (r.order back)⟩ := by
  obtain ⟨cc, hcc⟩ := Option.isSome_iff_exists.mp hcontact
  unfold findBeyond
  rw [if_neg hr, hcc, hat]
  dsimp only
  rw [if_neg (by simp)]

theorem fetch_of_none {walk : Walk} (h : st.db.nextRow back walk = none)
    : st.fetch back hContact walk = (0, { st with cursor := Function.update st.cursor back {} }) := by
  unfold fetch
  rw [h]

theorem fetch_of_some {bound : Bound} {r : EventSrt} (h : st.db.nextRow back ⟨hContact, bound⟩ = some r)
    : ∃ st', st.fetch back hContact ⟨hContact, bound⟩ = (r.id, st') ∧ st'.db = st.db ∧ st'.At back hContact r := by
  unfold fetch
  rw [h]
  exact ⟨_, rfl, rfl, Function.update_self ..⟩

theorem visitFrom_eq {done rest : List EventSrt} {r : EventSrt} (horder : st.db.InOrder back hContact (done ++ r :: rest))
    (hid : ∀ r ∈ st.db.events_srt, r.id ≠ 0) (hcontact : (st.db.contactOrSystem hContact).isSome)
    (hat : st.At back hContact r) (fuel : Nat)
    : visitFrom back hContact (rest.length + 2 + fuel) (r.id, st) = (r :: rest).map EventSrt.id := by
  induction rest generalizing done r st with
  | nil =>
    have hr : r.id ≠ 0 := hid r (horder.mem_history (List.mem_append_right _ List.mem_cons_self)).1
    rw [List.length_nil, show 0 + 2 + fuel = fuel + 1 + 1 by omega, visitFrom, if_neg hr,
      findBeyond_of_at hat hr hcontact, fetch_of_none horder.nextRow_beyond, visitFrom, if_pos rfl]
    rfl
  | cons r' rest ih =>
    have hr : r.id ≠ 0 := hid r (horder.mem_history (List.mem_append_right _ List.mem_cons_self)).1
    obtain ⟨st', hfetch, hdb, hat'⟩ := fetch_of_some horder.nextRow_beyond
    rw [show (r' :: rest).length + 2 + fuel = rest.length + 2 + fuel + 1 by rw [List.length_cons]; omega, visitFrom,
      if_neg hr, findBeyond_of_at hat hr hcontact, hfetch, @ih st' (done ++ [r]) r' ?_ (hdb ▸ hid) (hdb ▸ hcontact) hat']
    . rfl
    . rw [hdb, List.append_assoc]
      exact horder

theorem visits_eq {l : List EventSrt} (horder : st.db.InOrder back hContact l)
    (hid : ∀ r ∈ st.db.events_srt, r.id ≠ 0) (hcontact : (st.db.contactOrSystem hContact).isSome) (fuel : Nat)
    : st.visits back hContact (l.length + 1 + fuel) = l.map EventSrt.id := by
  obtain ⟨cc, hcc⟩ := Option.isSome_iff_exists.mp hcontact
  unfold visits find
  rw [hcc]
  dsimp only
  cases l with
  | nil =>
    rw [fetch_of_none horder.nextRow_all, List.length_nil, Nat.zero_add, Nat.add_comm, visitFrom, if_pos rfl]
    rfl
  | cons r rest =>
    obtain ⟨st', hfetch, hdb, hat⟩ := fetch_of_some horder.nextRow_all
    rw [hfetch, List.length_cons]
    exact @visitFrom_eq _ _ _ [] _ _ (hdb.symm ▸ horder) (hdb ▸ hid) (hdb ▸ hcontact) hat fuel

end Events

-- New rows are those of a new event, or copies that keep event and time.
structure Db.KeepsTimes (db db' : Db) : Prop where
  next : db.nextEvent ≤ db'.nextEvent
  rows : ∀ r' ∈ db'.events_srt, (∃ r ∈ db.events_srt, r.id = r'.id ∧ r.timestamp = r'.timestamp) ∨
    (r'.id = db.nextEvent ∧ db.nextEvent < db'.nextEvent)
  keys : (db.events_srt.map EventSrt.key).Nodup → (db'.events_srt.map EventSrt.key).Nodup

namespace Db

variable {db : Db}

theorem KeepsTimes.of_sublist {db' : Db} (hnext : db'.nextEvent = db.nextEvent)
    (hrows : db'.events_srt.Sublist db.events_srt) : KeepsTimes db db' where
  next := hnext.ge
  rows r' hr' := .inl ⟨r', hrows.subset hr', rfl, rfl⟩
  keys := (hrows.map EventSrt.key).nodup

theorem nodup_insertAll {t t' rows : List EventSrt} (h : insertAll EventSrt.key t rows = some t')
    (hnodup : (t.map EventSrt.key).Nodup) : (t'.map EventSrt.key).Nodup := by
  induction rows generalizing t with
  | nil =>
    cases h
    exact hnodup
  | cons r rows ih =>
    rw [insertAll] at h
    split at h
    . cases h
    next hany =>
      refine ih h ?_
      rw [List.map_append, List.nodup_append]
      refine ⟨hnodup, List.nodup_singleton _, fun k hk k' hk' => ?_⟩
      rw [List.map_singleton, List.mem_singleton] at hk'
      obtain ⟨r', hr', rfl⟩ := List.mem_map.mp hk
      rintro heq
      exact hany (List.any_eq_true.mpr ⟨r', hr', decide_eq_true (heq.trans hk')⟩)

theorem nodup_insertFree (row : Int → EventSrt) (fuel : Nat) (ts : Int) {t : List EventSrt}
    (hnodup : (t.map EventSrt.key).Nodup) : ((insertFree EventSrt.key row fuel ts t).map EventSrt.key).Nodup := by
  induction fuel generalizing ts with
  | zero => exact hnodup
  | succ fuel ih =>
    unfold insertFree
    split
    next t' h => exact nodup_insertAll h hnodup
    . exact ih (ts + 1)

theorem mem_AddEventSrt {hDbEvent hContact : Nat} {ts : Int} {r : EventSrt}
    (h : r ∈ (db.AddEventSrt hDbEvent hContact ts).events_srt) : r ∈ db.events_srt ∨ r.id = hDbEvent := by
  unfold AddEventSrt at h
  dsimp only at h
  generalize db.events_srt.length + 1 = fuel at h
  induction fuel generalizing ts with
  | zero => exact .inl h
  | succ fuel ih =>
    unfold insertFree at h
    split at h
    next t' hinsert =>
      rw [insertAll_eq hinsert, List.mem_append, List.mem_singleton] at h
      rcases h with h | rfl
      . exact .inl h
      . exact .inr rfl
    . exact ih h

theorem KeepsTimes.refl (db : Db) : KeepsTimes db db := .of_sublist rfl (List.Sublist.refl _)

theorem KeepsTimes.of_new {db' : Db} (hnext : db.nextEvent < db'.nextEvent)
    (hrows : ∀ r ∈ db'.events_srt, r ∈ db.events_srt ∨ r.id = db.nextEvent)
    (hkeys : (db.events_srt.map EventSrt.key).Nodup → (db'.events_srt.map EventSrt.key).Nodup) : KeepsTimes db db' where
  next := hnext.le
  rows r hr := (hrows r hr).imp (fun h => ⟨r, h, rfl, rfl⟩) fun h => ⟨h, hnext⟩
  keys := hkeys

theorem keepsTimes_AddEvent (db : Db) (hContact iTimestamp : Nat) (bMsec filtered : Bool)
    : KeepsTimes db (db.AddEvent hContact iTimestamp bMsec filtered).2 := by
  unfold AddEvent
  split
  . exact .refl db
  . split
    . exact .refl db
    next cc ccSub _ =>
      split
      . exact .refl db
      . dsimp only [insertEvent]
        generalize (if bMsec = true then (iTimestamp : Int) else (iTimestamp : Int) * 1000) = tsSort
        generalize hdb₁ : Db.mk db.cache db.m_count _ db.events_srt db.nextContact (db.nextEvent + 1) = db₁
        have hsrt : db₁.events_srt = db.events_srt := by rw [← hdb₁]
        have hnext : db₁.nextEvent = db.nextEvent + 1 := by rw [← hdb₁]
        have hfirst : ∀ r ∈ ((db₁.AddEventSrt db.nextEvent cc tsSort).addCount cc 1).events_srt,
            r ∈ db.events_srt ∨ r.id = db.nextEvent := fun r hr => hsrt ▸ mem_AddEventSrt hr
        have hkeys : (db.events_srt.map EventSrt.key).Nodup →
            (((db₁.AddEventSrt db.nextEvent cc tsSort).addCount cc 1).events_srt.map EventSrt.key).Nodup :=
          fun h => nodup_insertFree _ _ _ (hsrt.symm ▸ h)
        cases ccSub with
        | none => exact .of_new (by dsimp only [addCount, AddEventSrt]; omega) hfirst hkeys
        | some ccSub =>
          refine .of_new (by dsimp only [addCount, AddEventSrt]; omega) (fun r hr => ?_)
            fun h => nodup_insertFree _ _ _ (hkeys h)
          rcases mem_AddEventSrt hr with hr | hr
          . exact hfirst r hr
          . exact .inr hr

theorem keepsTimes_DeleteEvent (db : Db) (hDbEvent : Nat) : KeepsTimes db (db.DeleteEvent hDbEvent).2 := by
  unfold DeleteEvent
  split
  . exact .refl db
  . split
    . exact .refl db
    . split
      . exact .refl db
      . dsimp only
        split
        . split <;> exact .of_sublist rfl List.filter_sublist
        . exact .of_sublist rfl List.filter_sublist

theorem keepsTimes_step (db : Db) (c : Call) : KeepsTimes db (db.step c) := by
  cases c with
  | AddContact bMeta => exact .of_sublist rfl (List.Sublist.refl _)
  | AddEvent hContact iTimestamp bMsec filtered => exact keepsTimes_AddEvent ..
  | EditEvent hDbEvent iTimestamp =>
    unfold Db.step EditEvent
    dsimp only
    split <;> exact .of_sublist rfl (List.Sublist.refl _)
  | DeleteEvent hDbEvent => exact keepsTimes_DeleteEvent ..
  | DeleteContact hContact =>
    unfold Db.step DeleteContact
    dsimp only
    split
    . exact .refl db
    . exact .of_sublist rfl List.filter_sublist
  | MetaMergeHistory ccMeta ccSub =>
    unfold Db.step MetaMergeHistory
    dsimp only
    split
    . split
      . exact .of_sublist rfl (List.Sublist.refl _)
      next events_srt hinsert =>
        refine ⟨le_rfl, fun r hr => ?_, nodup_insertAll hinsert⟩
        dsimp only at hr
        rw [insertAll_eq hinsert, List.mem_append] at hr
        rcases hr with hr | hr
        . exact .inl ⟨r, hr, rfl, rfl⟩
        . obtain ⟨r', hr', rfl⟩ := List.mem_map.mp hr
          exact .inl ⟨r', (List.mem_filter.mp hr').1, rfl, rfl⟩
    . exact .refl db
  | MetaSplitHistory ccMeta ccSub =>
    unfold Db.step MetaSplitHistory
    dsimp only
    split
    . exact .of_sublist rfl List.filter_sublist
    . exact .refl db

def SameTimes (db : Db) : Prop :=
  ∀ r ∈ db.events_srt, ∀ r' ∈ db.events_srt, r.id = r'.id → r.timestamp = r'.timestamp

end Db

namespace Events

structure Sound (st : Events) : Prop where
  next : 0 < st.db.nextEvent
  ids : ∀ r ∈ st.db.events_srt, r.id ≠ 0 ∧ r.id < st.db.nextEvent
  keys : (st.db.events_srt.map EventSrt.key).Nodup
  cursor : ∀ back, (st.cursor back).hEvent ≠ 0 → (st.cursor back).hEvent < st.db.nextEvent ∧
    ∃ b, (st.cursor back).cur = some ⟨(st.cursor back).hContact, .beyond b⟩ ∧
      ∀ r ∈ st.db.events_srt, r.id = (st.cursor back).hEvent → r.order back = b

theorem sound_init : Sound {} where
  next := Nat.one_pos
  ids _ h := by cases h
  keys := List.nodup_nil
  cursor _ h := absurd rfl h

variable {st : Events}

theorem order_eq_order {r r' : EventSrt} (h : r.timestamp = r'.timestamp) (back : Bool)
    : r.order back = r'.order back := by
  unfold EventSrt.order
  rw [h]

theorem Sound.db (h : st.Sound) (c : Db.Call) : (st.step (.db c)).Sound := by
  have hkeeps := st.db.keepsTimes_step c
  have hnext : st.db.nextEvent ≤ (st.db.step c).nextEvent := hkeeps.next
  refine ⟨h.next.trans_le hnext, fun r hr => ?_, hkeeps.keys h.keys, fun back hne => ?_⟩
  . rcases hkeeps.rows r hr with ⟨r', hr', hid, -⟩ | ⟨hid, hlt⟩
    . have hold := h.ids r' hr'
      dsimp only [step]
      exact ⟨hid ▸ hold.1, by omega⟩
    . have hpos := h.next
      dsimp only [step]
      omega
  . obtain ⟨hlt, b, hcur, horder⟩ := h.cursor back hne
    refine ⟨hlt.trans_le hnext, b, hcur, fun r hr hid => ?_⟩
    rcases hkeeps.rows r hr with ⟨r', hr', hid', htime⟩ | ⟨hid', _⟩
    . rw [← order_eq_order htime]
      exact horder r' hr' (hid'.trans hid)
    . exact absurd (hid'.symm.trans hid) (Nat.ne_of_gt hlt)

theorem Sound.clear (h : st.Sound) (back : Bool)
    : Sound { st with cursor := Function.update st.cursor back {} } := by
  refine ⟨h.next, h.ids, h.keys, fun back' hne => ?_⟩
  by_cases hback : back' = back
  . subst hback
    dsimp only at hne
    rw [Function.update_self] at hne
    exact absurd rfl hne
  . dsimp only at hne ⊢
    rw [Function.update_of_ne hback] at hne ⊢
    exact h.cursor back' hne

theorem Sound.fetch (h : st.Sound) (hsame : st.db.SameTimes) (back : Bool) (hContact : Nat) (bound : Bound)
    : (st.fetch back hContact ⟨hContact, bound⟩).2.Sound := by
  unfold Events.fetch
  cases hrow : st.db.nextRow back ⟨hContact, bound⟩ with
  | none => exact h.clear back
  | some r =>
    have hr : r ∈ st.db.events_srt := (List.mem_filter.mp (List.mem_filter.mp (first_mem hrow)).1).1
    refine ⟨h.next, h.ids, h.keys, fun back' hne => ?_⟩
    by_cases hback : back' = back
    . subst hback
      dsimp only
      rw [Function.update_self]
      exact ⟨(h.ids r hr).2, r.order back', rfl, fun r' hr' hid => order_eq_order (hsame r' hr' r hr hid) back'⟩
    . dsimp only at hne ⊢
      rw [Function.update_of_ne hback] at hne ⊢
      exact h.cursor back' hne

theorem Sound.find (h : st.Sound) (hsame : st.db.SameTimes) (back : Bool) (hContact : Nat)
    : (st.find back hContact).2.Sound := by
  unfold Events.find
  split
  . exact h
  . exact h.fetch hsame back hContact .all

theorem Sound.findBeyond (h : st.Sound) (hsame : st.db.SameTimes) (back : Bool) (hContact hDbEvent : Nat)
    : (st.findBeyond back hContact hDbEvent).2.Sound := by
  unfold Events.findBeyond
  split
  . exact h
  next hne =>
    split
    . exact h
    . split
      . exact h.fetch hsame back hContact _
      next hmatch =>
        obtain ⟨rfl, rfl⟩ := not_or.mp hmatch |>.imp not_not.mp not_not.mp
        obtain ⟨_, b, hcur, _⟩ := h.cursor back hne
        rw [hcur]
        exact h.fetch hsame back _ (.beyond b)

theorem Sound.step (h : st.Sound) (hsame : st.db.SameTimes) (c : EventsCall) : (st.step c).Sound := by
  cases c with
  | db c => exact h.db c
  | FindFirstEvent hContact => exact h.find hsame false hContact
  | FindNextEvent hContact hDbEvent => exact h.findBeyond hsame false hContact hDbEvent
  | FindLastEvent hContact => exact h.find hsame true hContact
  | FindPrevEvent hContact hDbEvent => exact h.findBeyond hsame true hContact hDbEvent

end Events

def Db.eventBeyond (db : Db) (back : Bool) (hContact hDbEvent : Nat) : Nat :=
  match (db.history hContact).find? fun r => r.id = hDbEvent with
  | none => 0
  | some r => ((db.nextRow back ⟨hContact, .beyond (r.order back)⟩).map EventSrt.id).getD 0

namespace Events

structure Enumerates (st : Events) : Prop where
  visits : ∀ hContact, (st.db.contactOrSystem hContact).isSome →
    ∃ l : List EventSrt, (st.db.history hContact).Perm l ∧ (l.Pairwise fun a b => a.timestamp < b.timestamp) ∧
      (l.map EventSrt.id).Nodup ∧
      ∃ n, ∀ fuel, st.visits false hContact (n + fuel) = l.map EventSrt.id ∧
        st.visits true hContact (n + fuel) = (l.map EventSrt.id).reverse
  beyond : ∀ back hContact hDbEvent, (st.db.contactOrSystem hContact).isSome →
    (∃ r ∈ st.db.history hContact, r.id = hDbEvent) →
    (st.findBeyond back hContact hDbEvent).1 = st.db.eventBeyond back hContact hDbEvent

variable {st : Events}

theorem Sound.exists_order (h : st.Sound) (hContact : Nat)
    : ∃ l : List EventSrt, (st.db.history hContact).Perm l ∧ l.Pairwise fun a b => a.timestamp < b.timestamp := by
  have hkeys : ((st.db.history hContact).map EventSrt.key).Nodup :=
    ((List.filter_sublist).map EventSrt.key).nodup h.keys
  have htimes : ((st.db.history hContact).map EventSrt.timestamp).Nodup := by
    refine List.Nodup.of_map (fun ts => (hContact, ts)) ?_
    rw [List.map_map]
    refine (List.map_congr_left fun r hr => ?_) ▸ hkeys
    have hcontact : r.contact_id = hContact := of_decide_eq_true (List.mem_filter.mp hr).2
    exact Prod.ext hcontact rfl
  have hperm := List.mergeSort_perm (st.db.history hContact) fun a b => decide (a.timestamp ≤ b.timestamp)
  refine ⟨_, hperm.symm, ?_⟩
  have hle := @List.pairwise_mergeSort _ (fun a b : EventSrt => decide (a.timestamp ≤ b.timestamp))
    (by simp only [decide_eq_true_eq]; omega) (by simp only [Bool.or_eq_true, decide_eq_true_eq]; omega)
    (st.db.history hContact)
  have hne := List.pairwise_map.mp ((hperm.map EventSrt.timestamp).nodup_iff.mpr htimes)
  refine (hle.and hne).imp fun hboth => ?_
  have hle := of_decide_eq_true hboth.1
  omega

theorem fetch_fst (st : Events) (back : Bool) (hContact : Nat) (walk : Walk)
    : (st.fetch back hContact walk).1 = ((st.db.nextRow back walk).map EventSrt.id).getD 0 := by
  unfold fetch
  cases st.db.nextRow back walk with
  | none => rfl
  | some r => rfl

theorem Sound.findBeyond_fst (h : st.Sound) (hsame : st.db.SameTimes) {back : Bool} {hContact hDbEvent : Nat}
    (hcontact : (st.db.contactOrSystem hContact).isSome) (hrow : ∃ r ∈ st.db.history hContact, r.id = hDbEvent)
    : (st.findBeyond back hContact hDbEvent).1 = st.db.eventBeyond back hContact hDbEvent := by
  obtain ⟨cc, hcc⟩ := Option.isSome_iff_exists.mp hcontact
  obtain ⟨r₀, hr₀, hid₀⟩ := hrow
  unfold Db.eventBeyond
  cases hfind : (st.db.history hContact).find? fun r => r.id = hDbEvent with
  | none => exact absurd (decide_eq_true hid₀) (List.find?_eq_none.mp hfind r₀ hr₀)
  | some r =>
    have hid : r.id = hDbEvent := by simpa using List.find?_some hfind
    have hr : r ∈ st.db.events_srt := (List.mem_filter.mp (List.mem_of_find?_eq_some hfind)).1
    have hne : hDbEvent ≠ 0 := hid ▸ (h.ids r hr).1
    unfold Events.findBeyond
    rw [if_neg hne, hcc]
    dsimp only
    split
    . rw [fetch_fst]
      have hselect : st.db.subselect back hDbEvent = .beyond (r.order back) := by
        unfold Db.subselect
        cases hsub : st.db.events_srt.find? fun r => r.id = hDbEvent with
        | none => exact absurd (decide_eq_true hid) (List.find?_eq_none.mp hsub r hr)
        | some r' =>
          have hid' : r'.id = hDbEvent := by simpa using List.find?_some hsub
          exact congrArg Bound.beyond
            (order_eq_order (hsame r' (List.mem_of_find?_eq_some hsub) r hr (hid'.trans hid.symm)) back)
      rw [hselect]
    next hmatch =>
      obtain ⟨hContact', hDbEvent'⟩ := not_or.mp hmatch |>.imp not_not.mp not_not.mp
      obtain ⟨_, b, hcur, horder⟩ := h.cursor back (hDbEvent' ▸ hne)
      rw [hcur]
      dsimp only
      rw [fetch_fst, ← horder r hr (hid.trans hDbEvent'), ← hContact']

theorem Sound.enumerates (h : st.Sound) (hsame : st.db.SameTimes) : st.Enumerates where
  beyond _ _ _ hcontact hrow := h.findBeyond_fst hsame hcontact hrow
  visits := by
    intro hContact hcontact
    obtain ⟨l, hperm, hsorted⟩ := h.exists_order hContact
    have hid : ∀ r ∈ st.db.events_srt, r.id ≠ 0 := fun r hr => (h.ids r hr).1
    have hfwd : st.db.InOrder false hContact l := ⟨hperm, hsorted.imp fun hlt => hlt⟩
    have hback : st.db.InOrder true hContact l.reverse := by
      refine ⟨hperm.trans l.reverse_perm.symm, List.pairwise_reverse.mpr (hsorted.imp fun hlt => ?_)⟩
      exact Int.neg_lt_neg hlt
    refine ⟨l, hperm, hsorted, ?_, l.length + 1, fun fuel => ⟨visits_eq hfwd hid hcontact fuel, ?_⟩⟩
    . refine List.pairwise_map.mpr (hsorted.imp_of_mem fun {a b} ha hb hlt heq => ?_)
      have htime := hsame a (hfwd.mem_history ha).1 b (hfwd.mem_history hb).1 heq
      omega
    . have hvisits := visits_eq hback hid hcontact fuel
      rw [List.length_reverse, List.map_reverse] at hvisits
      exact hvisits

theorem events_enumerate {st : Events} (h : Run step (fun st c => (st.step c).db.SameTimes) {} st)
    : st.Enumerates := by
  have hboth : st.Sound ∧ st.db.SameTimes := by
    apply h.inv (I := fun st => st.Sound ∧ st.db.SameTimes)
    . exact fun st c hst hsame => ⟨hst.1.step hst.2 c, hsame⟩
    . exact ⟨sound_init, fun _ hr => nomatch hr⟩
  exact hboth.1.enumerates hboth.2

theorem events_enumerate_oneEvent
    : Enumerates (((({} : Events).step (.db (.AddContact false))).step (.db (.AddEvent 1 5 false false))).step
        (.FindFirstEvent 1)) := by
  have hcontact := (@Run.init _ _ step (fun st c => (st.step c).db.SameTimes) {}).call (.db (.AddContact false))
    (by unfold Db.SameTimes; decide)
  have hadded := hcontact.call (.db (.AddEvent 1 5 false false)) (by unfold Db.SameTimes; decide)
  exact events_enumerate (hadded.call (.FindFirstEvent 1) (by unfold Db.SameTimes; decide))

def sameMillisecond : Events :=
  [Db.Call.AddContact true, .AddContact false, .AddContact false, .MetaMergeHistory 1 2, .MetaMergeHistory 1 3,
    .AddEvent 2 1000 true false, .AddEvent 3 1000 true false].foldl (fun st c => st.step (.db c)) {}

-- What comes before the event of the second sub depends on the call before it.
theorem not_beyond_of_tables
    : ¬∀ st st' : Events, Run step (fun _ _ => True) {} st → Run step (fun _ _ => True) {} st' → st.db = st'.db →
        ∀ back hContact hDbEvent,
          (st.findBeyond back hContact hDbEvent).1 = (st'.findBeyond back hContact hDbEvent).1 := by
  intro h
  have hrun : Run step (fun _ _ => True) {} sameMillisecond := by
    unfold sameMillisecond
    rw [← List.foldl_map]
    exact Run.foldl (fun _ _ => trivial) _ _
  have hsame := h _ _ (hrun.call (.FindLastEvent 3) trivial) hrun (by rfl) true 3 2
  exact absurd hsame (by decide)

end Events

end DbxSqlite
