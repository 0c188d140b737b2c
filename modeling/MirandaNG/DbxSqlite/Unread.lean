import MirandaNG.DbxSqlite.Cursors

/-!
This module contains the search for the first unread event of a contact. It proves when that event is the first unread
one that the cursors come to.
-/

open Rel Transition

namespace DbxSqlite
namespace Db

def isSubOf (db : Db) (hMeta contactID : Nat) : Bool :=
  match db.GetCachedContact contactID with
  | none => false
  | some cc => cc.IsSub && cc.parentID = hMeta

def unreadRows (db : Db) (is_read : Nat → Bool) (hContact : Nat) : List Event :=
  match db.contactOrSystem hContact with
  | none => []
  | some cc =>
    if cc.IsMeta then
      db.events.filter fun e => !is_read e.id && db.isSubOf hContact e.contact_id
    else
      db.events.filter fun e => e.contact_id = hContact && !is_read e.id

-- ORDER BY timestamp LIMIT 1. The index has rows with the same timestamp in the order of their ids.
def FindFirstUnreadEvent (db : Db) (is_read : Nat → Bool) (hContact : Nat) : Nat :=
  ((first (fun e => (e.timestamp : Int)) (db.unreadRows is_read hContact)).map Event.id).getD 0

end Db

namespace Events

-- for (h = FindFirstEvent(hContact); h; h = FindNextEvent(hContact, h)) if (!read) return h; return 0;
def firstUnread (st : Events) (is_read : Nat → Bool) (hContact fuel : Nat) : Nat :=
  ((st.visits false hContact fuel).find? fun h => !is_read h).getD 0

end Events

namespace Db

def FindsFirstUnread (db : Db) (is_read : Nat → Bool) (hContact : Nat) : Prop :=
  ∀ cursor, ∃ n, ∀ fuel,
    db.FindFirstUnreadEvent is_read hContact = Events.firstUnread ⟨db, cursor⟩ is_read hContact (n + fuel)

def unreadHistory (db : Db) (is_read : Nat → Bool) (hContact : Nat) : List EventSrt :=
  (db.history hContact).filter fun r => !is_read r.id

/--
The unread row with the lowest time in the history is that of an unread event that the query asks for, and the other
events it asks for have a higher timestamp, or the same and a higher id.
-/
def OrdersAgree (db : Db) (is_read : Nat → Bool) (hContact : Nat) : Prop :=
  (db.unreadHistory is_read hContact = [] ∧ db.unreadRows is_read hContact = []) ∨
    ∃ r ∈ db.unreadHistory is_read hContact, ∃ e ∈ db.unreadRows is_read hContact, r.id = e.id ∧
      (∀ r' ∈ db.unreadHistory is_read hContact, r.timestamp ≤ r'.timestamp) ∧
      ∀ e' ∈ db.unreadRows is_read hContact, e' = e ∨ e.timestamp < e'.timestamp ∨
        (e.timestamp = e'.timestamp ∧ e.id < e'.id)

structure Tables (db : Db) : Prop where
  next : 0 < db.nextEvent
  rows : ∀ r ∈ db.events_srt, r.id ≠ 0 ∧ r.id < db.nextEvent
  keys : (db.events_srt.map EventSrt.key).Nodup
  events : ∀ e ∈ db.events, e.id ≠ 0 ∧ e.id < db.nextEvent
  sorted : db.events.Pairwise fun a b => a.id < b.id

theorem tables_init : Tables {} where
  next := Nat.one_pos
  rows _ h := nomatch h
  keys := List.nodup_nil
  events _ h := nomatch h
  sorted := List.Pairwise.nil

variable {db : Db}

-- Events are only taken away, given another time, or put behind the others with the next number.
structure KeepsEvents (db db' : Db) : Prop where
  events : (db'.events.map Event.id).Sublist (db.events.map Event.id) ∨
    (db'.events.map Event.id = db.events.map Event.id ++ [db.nextEvent] ∧ db'.nextEvent = db.nextEvent + 1)

theorem KeepsEvents.of_sublist {db' : Db} (h : db'.events.Sublist db.events) : KeepsEvents db db' :=
  ⟨.inl (h.map Event.id)⟩

theorem KeepsEvents.refl (db : Db) : KeepsEvents db db := .of_sublist (List.Sublist.refl _)

theorem keepsEvents_step (db : Db) (c : Call) : KeepsEvents db (db.step c) := by
  cases c with
  | AddContact bMeta => exact .of_sublist (List.Sublist.refl _)
  | AddEvent hContact iTimestamp bMsec filtered =>
    unfold Db.step AddEvent
    dsimp only
    split
    . exact .refl db
    . split
      . exact .refl db
      next cc ccSub _ =>
        split
        . exact .refl db
        . have hmap : (db.events ++ [Event.mk db.nextEvent hContact iTimestamp]).map Event.id
              = db.events.map Event.id ++ [db.nextEvent] := List.map_append
          cases ccSub <;> exact ⟨.inr ⟨hmap, rfl⟩⟩
  | EditEvent hDbEvent iTimestamp =>
    unfold Db.step EditEvent
    dsimp only
    split
    . exact .refl db
    . have hids : (db.events.map fun e => if e.id = hDbEvent then { e with timestamp := iTimestamp } else e).map Event.id
          = db.events.map Event.id := by
        rw [List.map_map]
        refine List.map_congr_left fun e _ => ?_
        dsimp only [Function.comp]
        split <;> rfl
      exact ⟨.inl (hids ▸ List.Sublist.refl _)⟩
  | DeleteEvent hDbEvent =>
    unfold Db.step DeleteEvent
    dsimp only
    split
    . exact .refl db
    . split
      . exact .refl db
      . split
        . exact .refl db
        . split
          . split <;> exact .of_sublist List.filter_sublist
          . exact .of_sublist List.filter_sublist
  | DeleteContact hContact =>
    unfold Db.step DeleteContact
    dsimp only
    split
    . exact .refl db
    . exact .of_sublist List.filter_sublist
  | MetaMergeHistory ccMeta ccSub =>
    unfold Db.step MetaMergeHistory
    dsimp only
    split
    . split <;> exact .of_sublist (List.Sublist.refl _)
    . exact .refl db
  | MetaSplitHistory ccMeta ccSub =>
    unfold Db.step
    dsimp only
    split <;> exact .of_sublist (List.Sublist.refl _)

theorem Tables.step (h : db.Tables) (c : Call) : (db.step c).Tables := by
  have htimes := db.keepsTimes_step c
  have hids : (∀ n ∈ (db.step c).events.map Event.id, n ≠ 0 ∧ n < (db.step c).nextEvent) ∧
      ((db.step c).events.map Event.id).Pairwise fun a b => a < b := by
    have hold : ∀ n ∈ db.events.map Event.id, n ≠ 0 ∧ n < db.nextEvent := by
      intro n hn
      obtain ⟨e, he, rfl⟩ := List.mem_map.mp hn
      exact h.events e he
    have hsorted : (db.events.map Event.id).Pairwise fun a b => a < b := List.pairwise_map.mpr h.sorted
    rcases (db.keepsEvents_step c).events with hsub | ⟨heq, hnext⟩
    . refine ⟨fun n hn => ?_, hsorted.sublist hsub⟩
      have hn := hold n (hsub.subset hn)
      exact ⟨hn.1, hn.2.trans_le htimes.next⟩
    . rw [heq, hnext]
      have hpos := h.next
      refine ⟨fun n hn => ?_, List.pairwise_append.mpr ⟨hsorted, List.pairwise_singleton _ _, fun a ha b hb => ?_⟩⟩
      . rcases List.mem_append.mp hn with hn | hn
        . have hn := hold n hn
          omega
        . rw [List.mem_singleton.mp hn]
          omega
      . rw [List.mem_singleton.mp hb]
        exact (hold a ha).2
  refine ⟨h.next.trans_le htimes.next, fun r hr => ?_, htimes.keys h.keys,
    fun e he => hids.1 e.id (List.mem_map_of_mem he), List.pairwise_map.mp hids.2⟩
  rcases htimes.rows r hr with ⟨r', hr', hid, _⟩ | ⟨hid, hlt⟩
  . have hold := h.rows r' hr'
    exact ⟨hid ▸ hold.1, hid ▸ hold.2.trans_le htimes.next⟩
  . have hpos := h.next
    exact ⟨by omega, by omega⟩

theorem tables_of_run (h : Run Db.step (fun _ _ => True) {} db) : db.Tables :=
  h.inv (fun _ c hdb _ => hdb.step c) tables_init

theorem mem_unreadRows {is_read : Nat → Bool} {hContact : Nat} {e : Event} (h : e ∈ db.unreadRows is_read hContact)
    : e ∈ db.events := by
  unfold unreadRows at h
  split at h
  . cases h
  . split at h <;> exact (List.mem_filter.mp h).1

theorem Tables.sorted_unreadRows (h : db.Tables) (is_read : Nat → Bool) (hContact : Nat)
    : (db.unreadRows is_read hContact).Pairwise fun a b => a.id < b.id := by
  unfold unreadRows
  split
  . exact List.Pairwise.nil
  . split <;> exact h.sorted.filter _

theorem Tables.exists_order (h : db.Tables) (hContact : Nat)
    : ∃ l : List EventSrt, (db.history hContact).Perm l ∧ l.Pairwise fun a b => a.timestamp < b.timestamp :=
  @Events.Sound.exists_order ⟨db, fun _ => {}⟩ ⟨h.next, h.rows, h.keys, fun _ h => absurd rfl h⟩ hContact

theorem Tables.firstUnread_eq (h : db.Tables) (is_read : Nat → Bool) {hContact : Nat}
    (hcontact : (db.contactOrSystem hContact).isSome) (cursor : Bool → Cursor)
    : ∃ n, ∀ fuel, Events.firstUnread ⟨db, cursor⟩ is_read hContact (n + fuel)
        = ((first EventSrt.timestamp (db.unreadHistory is_read hContact)).map EventSrt.id).getD 0 := by
  obtain ⟨l, hperm, hsorted⟩ := h.exists_order hContact
  have hfirst : first EventSrt.timestamp (db.unreadHistory is_read hContact)
      = (l.filter fun r => !is_read r.id).head? := first_of_perm (hperm.filter _) (hsorted.filter _)
  have horder : db.InOrder false hContact l := ⟨hperm, hsorted.imp fun hlt => hlt⟩
  refine ⟨l.length + 1, fun fuel => ?_⟩
  unfold Events.firstUnread
  rw [@Events.visits_eq ⟨db, cursor⟩ _ _ _ horder (fun r hr => (h.rows r hr).1) hcontact fuel, hfirst, List.find?_map,
    List.head?_filter]
  rfl

theorem Tables.first_eq_iff (h : db.Tables) (is_read : Nat → Bool) (hContact : Nat)
    : db.FindFirstUnreadEvent is_read hContact
          = ((first EventSrt.timestamp (db.unreadHistory is_read hContact)).map EventSrt.id).getD 0
        ↔
      db.OrdersAgree is_read hContact := by
  have hrowId : ∀ r ∈ db.unreadHistory is_read hContact, r.id ≠ 0 := fun r hr =>
    (h.rows r (List.mem_filter.mp (List.mem_filter.mp hr).1).1).1
  have heventId : ∀ e ∈ db.unreadRows is_read hContact, e.id ≠ 0 := fun e he => (h.events e (mem_unreadRows he)).1
  unfold FindFirstUnreadEvent OrdersAgree
  cases hrow : first EventSrt.timestamp (db.unreadHistory is_read hContact) with
  | none =>
    have hnil := first_eq_none.mp hrow
    cases hevent : first (fun e : Event => (e.timestamp : Int)) (db.unreadRows is_read hContact) with
    | none => exact iff_of_true rfl (.inl ⟨hnil, first_eq_none.mp hevent⟩)
    | some e =>
      refine iff_of_false (heventId e (first_mem hevent)) ?_
      rintro (⟨_, hnil'⟩ | ⟨r, hr, _⟩)
      . rw [first_eq_none.mpr hnil'] at hevent
        cases hevent
      . rw [hnil] at hr
        cases hr
  | some r =>
    have hr := first_mem hrow
    cases hevent : first (fun e : Event => (e.timestamp : Int)) (db.unreadRows is_read hContact) with
    | none =>
      refine iff_of_false (fun heq => hrowId r hr heq.symm) ?_
      rintro (⟨hnil, _⟩ | ⟨_, _, e, he, _⟩)
      . rw [first_eq_none.mpr hnil] at hrow
        cases hrow
      . rw [first_eq_none.mp hevent] at he
        cases he
    | some e =>
      have he := first_mem hevent
      have hleast := first_least hevent (h.sorted_unreadRows is_read hContact)
      obtain ⟨l, hperm, hsorted⟩ := h.exists_order hContact
      have hrowLeast := first_lt (hperm.filter fun r : EventSrt => !is_read r.id) (hsorted.filter _) hrow
      constructor
      . intro heq
        refine .inr ⟨r, hr, e, he, heq.symm, fun r' hr' => ?_, fun e' he' => ?_⟩
        . rcases hrowLeast r' hr' with rfl | hlt
          . exact le_rfl
          . exact hlt.le
        . rcases hleast e' he' with rfl | hlt | ⟨heq, hlt⟩
          . exact .inl rfl
          . exact .inr (.inl (by omega))
          . exact .inr (.inr ⟨by omega, hlt⟩)
      . rintro (⟨hnil, _⟩ | ⟨r', hr', e', he', hid, hrow', hevent'⟩)
        . rw [hnil] at hr
          cases hr
        . have hrr : r' = r := by
            rcases hrowLeast r' hr' with heq | hlt
            . exact heq
            . have hle := hrow' r hr
              omega
          have hee : e' = e := by
            rcases hleast e' he' with heq | hlt | ⟨heq, hlt⟩
            . exact heq
            . rcases hevent' e he with heq' | hlt' | ⟨heq', hlt'⟩
              . exact heq'.symm
              . omega
              . omega
            . rcases hevent' e he with heq' | hlt' | ⟨heq', hlt'⟩
              . exact heq'.symm
              . omega
              . omega
          rw [← hrr, ← hee]
          exact hid.symm

def twoEvents (first second : Nat × Bool) : Db :=
  [Call.AddContact false, .AddEvent 1 first.1 first.2 false, .AddEvent 1 second.1 second.2 false].foldl Db.step {}

theorem run_twoEvents (first second : Nat × Bool) : Run Db.step (fun _ _ => True) {} (twoEvents first second) :=
  Run.foldl (fun _ _ => trivial) _ ({} : Db)

end Db
end DbxSqlite
