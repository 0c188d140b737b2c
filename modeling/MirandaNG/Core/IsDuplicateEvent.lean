import Mathlib.Tactic
import Mathlib.Data.UInt
import MirandaNG.Transition.Run

/-!
This module contains the search for an event among those of a contact. It begins at the place where
the search before it ended.

It proves when the search for an event finds it.
-/

namespace DB

abbrev MCONTACT := UInt32
abbrev MEVENT := UInt32

def INVALID_CONTACT_ID : MCONTACT := 0xFFFFFFFF

structure DBEVENTINFO where
  iTimestamp : UInt64
  bMsec : Bool
  bSent : Bool
  eventType : UInt32
  cbBlob : Int32
deriving DecidableEq

namespace DBEVENTINFO

def getUnixtime (dbei : DBEVENTINFO) : UInt32 :=
  (if dbei.bMsec then dbei.iTimestamp / 1000 else dbei.iTimestamp).toUInt32

def same (dbei e : DBEVENTINFO) : Bool :=
  dbei.iTimestamp = e.iTimestamp ∧ dbei.eventType = e.eventType ∧ dbei.cbBlob = e.cbBlob ∧
    dbei.bSent = e.bSent

end DBEVENTINFO

-- What a database tells of its events: `next` and `prev` go along the history of a contact, and may
-- answer anything for an event that is not in it.
structure Histories where
  history : MCONTACT → List MEVENT
  get : MEVENT → DBEVENTINFO
  next : MCONTACT → MEVENT → MEVENT
  prev : MCONTACT → MEVENT → MEVENT
  nonzero : ∀ hContact, 0 ∉ history hContact
  no_contact : history INVALID_CONTACT_ID = []
  next_eq : ∀ hContact before h behind,
    history hContact = before ++ h :: behind → next hContact h = behind.head?.getD 0
  prev_eq : ∀ hContact before h behind,
    history hContact = before ++ h :: behind → prev hContact h = before.getLast?.getD 0

structure Position where
  dwPreviousTimeStamp : UInt32 := 0xFFFFFFFF
  hPreviousContact : MCONTACT := INVALID_CONTACT_ID
  hPreviousDbEvent : MEVENT := 0
deriving DecidableEq

structure Answer where
  found : Bool
  compared : List MEVENT
  pos : Position
deriving DecidableEq

namespace Histories

variable (db : Histories)

def time (h : MEVENT) : UInt32 := (db.get h).getUnixtime

def db_event_first (hContact : MCONTACT) : MEVENT := (db.history hContact).head?.getD 0

def db_event_last (hContact : MCONTACT) : MEVENT := (db.history hContact).getLast?.getD 0

def remember (pos : Position) (h : MEVENT) : Position :=
  { pos with hPreviousDbEvent := h, dwPreviousTimeStamp := db.time h }

def look (past : UInt32 → Bool) (step : MEVENT → MEVENT) (dbei : DBEVENTINFO) (pos : Position)
    : Nat → MEVENT → List MEVENT → Option Answer
  | 0, _, _ => none
  | n + 1, h, compared =>
    if h = 0 then
      some ⟨false, compared, { pos with hPreviousContact := INVALID_CONTACT_ID }⟩
    else if past (db.time h) then
      some ⟨false, compared, db.remember pos h⟩
    else if dbei.same (db.get h) then
      some ⟨true, h :: compared, db.remember pos h⟩
    else
      look past step dbei pos n (step h) (h :: compared)

def skip (hContact : MCONTACT) : Nat → MEVENT → Position → Option Position
  | 0, _, _ => none
  | n + 1, h, pos =>
    if h = 0 then
      some pos
    else if db.time h ≠ pos.dwPreviousTimeStamp then
      some (db.remember pos h)
    else
      skip hContact n (db.next hContact h) { pos with hPreviousDbEvent := h }

def search (n : Nat) (hContact : MCONTACT) (dbei : DBEVENTINFO) (pos : Position)
    (compared : List MEVENT)
    : Option Answer :=
  if dbei.getUnixtime ≤ pos.dwPreviousTimeStamp then
    db.look (fun t => t < dbei.getUnixtime) (db.prev hContact) dbei pos n pos.hPreviousDbEvent compared
  else
    db.look (fun t => dbei.getUnixtime < t) (db.next hContact) dbei pos n pos.hPreviousDbEvent compared

def searchEqual (n : Nat) (hContact : MCONTACT) (dbei : DBEVENTINFO) (pos : Position)
    : Option Answer :=
  if dbei.iTimestamp = pos.dwPreviousTimeStamp.toUInt64 then
    if dbei.same (db.get pos.hPreviousDbEvent) then
      some ⟨true, [pos.hPreviousDbEvent], pos⟩
    else
      (db.skip hContact n (db.next hContact pos.hPreviousDbEvent) pos).bind fun pos' =>
        db.search n hContact dbei pos' [pos.hPreviousDbEvent]
  else
    db.search n hContact dbei pos []

def IsDuplicateEvent (n : Nat) (pos : Position) (hContact : MCONTACT) (dbei : DBEVENTINFO)
    : Option Answer :=
  let last := db.db_event_last hContact
  if last = 0 then
    some ⟨false, [], pos⟩
  else if db.time last < dbei.getUnixtime then
    some ⟨false, [], db.remember pos last⟩
  else if hContact ≠ pos.hPreviousContact then
    let pos := db.remember { pos with hPreviousContact := hContact } last
    let first := db.db_event_first hContact
    if first = 0 then
      some ⟨false, [], pos⟩
    else if dbei.getUnixtime ≤ db.time first then
      let pos := db.remember pos first
      if dbei.getUnixtime ≠ db.time first then
        some ⟨false, [], pos⟩
      else
        db.searchEqual n hContact dbei pos
    else
      db.searchEqual n hContact dbei pos
  else
    db.searchEqual n hContact dbei pos

def call (pos : Option Position) (c : Nat × MCONTACT × DBEVENTINFO) : Option Position :=
  pos.bind fun pos => (db.IsDuplicateEvent c.1 pos c.2.1 c.2.2).map Answer.pos

end Histories

def behind (h : MEVENT) (events : List MEVENT) : MEVENT :=
  (events.dropWhile (· ≠ h)).tail.head?.getD 0

theorem behind_eq {events before after : List MEVENT} {h : MEVENT} (hnodup : events.Nodup)
    (heq : events = before ++ h :: after)
    : behind h events = after.head?.getD 0 := by
  have hdrop : events.dropWhile (· ≠ h) = h :: after := by
    rw [heq, List.dropWhile_append_of_pos, List.dropWhile_cons_of_neg (by simp)]
    intro x hx
    rw [decide_eq_true_iff]
    rintro rfl
    rw [heq] at hnodup
    exact (List.nodup_append.1 hnodup).2.2 x hx x (List.mem_cons_self ..) rfl
  unfold behind
  rw [hdrop]
  rfl

def Histories.ofLists (history : MCONTACT → List MEVENT) (get : MEVENT → DBEVENTINFO)
    (hnonzero : ∀ hContact, 0 ∉ history hContact) (hnodup : ∀ hContact, (history hContact).Nodup)
    (hno : history INVALID_CONTACT_ID = [])
    : Histories where
  history := history
  get := get
  next hContact h := behind h (history hContact)
  prev hContact h := behind h (history hContact).reverse
  nonzero := hnonzero
  no_contact := hno
  next_eq hContact before h after heq := behind_eq (hnodup hContact) heq
  prev_eq hContact before h after heq := by
    have hreverse : (history hContact).reverse = after.reverse ++ h :: before.reverse := by
      rw [heq]
      simp
    rw [behind_eq (List.nodup_reverse.2 (hnodup hContact)) hreverse, List.head?_reverse]

end DB

namespace DB

theorem mem_takeWhile_of_pairwise {α : Type} {p : α → Bool} {xs : List α} {x : α}
    (hxs : xs.Pairwise fun x y => p y → p x) (hmem : x ∈ xs) (hx : p x)
    : x ∈ xs.takeWhile p := by
  induction xs with
  | nil => exact absurd hmem List.not_mem_nil
  | cons y ys ih =>
    obtain ⟨hy, hys⟩ := List.pairwise_cons.1 hxs
    rcases List.mem_cons.1 hmem with rfl | hmem
    . rw [List.takeWhile_cons_of_pos hx]
      exact List.mem_cons_self ..
    . rw [List.takeWhile_cons_of_pos (hy x hmem hx)]
      exact List.mem_cons_of_mem _ (ih hys hmem)

theorem DBEVENTINFO.getUnixtime_le {dbei : DBEVENTINFO} {t : UInt32}
    (h : dbei.iTimestamp = t.toUInt64)
    : dbei.getUnixtime ≤ t := by
  unfold getUnixtime
  rw [h, UInt32.le_iff_toNat_le]
  have ht := t.toNat_lt
  split
  . rw [UInt64.toNat_toUInt32, UInt64.toNat_div, UInt32.toNat_toUInt64]
    have h1000 : (1000 : UInt64).toNat = 1000 := rfl
    rw [h1000]
    omega
  . rw [UInt64.toNat_toUInt32, UInt32.toNat_toUInt64]
    omega

namespace Histories

variable {db : Histories} {hContact : MCONTACT} {dbei : DBEVENTINFO} {pos : Position}
variable {n : Nat} {h : MEVENT} {before behind compared : List MEVENT}

def HasDuplicate (db : Histories) (hContact : MCONTACT) (dbei : DBEVENTINFO) : Prop :=
  ∃ h ∈ db.history hContact, dbei.same (db.get h)

def Answers (db : Histories) (ok : Option Position → Nat × MCONTACT × DBEVENTINFO → Prop)
    (st : Option Position)
    : Prop :=
  ∀ pos n hContact dbei, st = some pos → ok st (n, hContact, dbei) →
    (db.history hContact).length < n →
      ∃ r, db.IsDuplicateEvent n pos hContact dbei = some r ∧
        (r.found = true ↔ db.HasDuplicate hContact dbei) ∧
        ∀ h ∈ r.compared, h ∈ db.history hContact

def Sorted (db : Histories) (hContact : MCONTACT) : Prop :=
  (db.history hContact).Pairwise fun x y => db.time x ≤ db.time y

-- The events that equal this one have its second, in a history that is in the order of the seconds;
-- and the event has its timestamp in seconds, or there are no other events in its second.
def Findable (db : Histories) (hContact : MCONTACT) (dbei : DBEVENTINFO) : Prop :=
  ∀ h ∈ db.history hContact, dbei.same (db.get h) →
    db.Sorted hContact ∧ db.time h = dbei.getUnixtime ∧
      (dbei.iTimestamp = dbei.getUnixtime.toUInt64 ∨
        ∀ x ∈ db.history hContact, db.time x = dbei.getUnixtime → dbei.same (db.get x))

-- An event that is newer than the whole history is not searched for between two searches for events
-- of another contact.
def OwnPosition (db : Histories) (pos : Position) (hContact : MCONTACT) (dbei : DBEVENTINFO) : Prop :=
  db.time (db.db_event_last hContact) < dbei.getUnixtime →
    db.history hContact = [] ∨ pos.hPreviousContact = hContact ∨
      pos.hPreviousContact = INVALID_CONTACT_ID

structure Fair (db : Histories) (st : Option Position) (c : Nat × MCONTACT × DBEVENTINFO) : Prop where
  rounds : (db.history c.2.1).length < c.1
  findable : db.Findable c.2.1 c.2.2
  own : ∀ pos, st = some pos → db.OwnPosition pos c.2.1 c.2.2

def Valid (db : Histories) (pos : Position) : Prop :=
  pos.hPreviousContact ≠ INVALID_CONTACT_ID →
    pos.hPreviousDbEvent ∈ db.history pos.hPreviousContact ∧
      pos.dwPreviousTimeStamp = db.time pos.hPreviousDbEvent

def Follows (step : MEVENT → MEVENT) : List MEVENT → Prop
  | [] => True
  | x :: xs => step x = xs.head?.getD 0 ∧ Follows step xs

theorem follows_next {xs : List MEVENT} (heq : db.history hContact = before ++ xs)
    : Follows (db.next hContact) xs := by
  induction xs generalizing before with
  | nil => trivial
  | cons x xs ih =>
    refine ⟨db.next_eq hContact before x xs heq, @ih (before ++ [x]) ?_⟩
    rw [heq, List.append_assoc]
    rfl

theorem follows_prev {xs : List MEVENT} (heq : db.history hContact = xs.reverse ++ behind)
    : Follows (db.prev hContact) xs := by
  induction xs generalizing behind with
  | nil => trivial
  | cons x xs ih =>
    rw [List.reverse_cons, List.append_assoc] at heq
    refine ⟨?_, ih heq⟩
    rw [db.prev_eq hContact xs.reverse x behind heq, List.getLast?_reverse]

theorem look_spec {past : UInt32 → Bool} {step : MEVENT → MEVENT} {xs : List MEVENT}
    (hfollows : Follows step xs) (hzero : 0 ∉ xs) (hn : xs.length < n)
    : ∃ r, db.look past step dbei pos n (xs.head?.getD 0) compared = some r ∧
        (r.found = (xs.takeWhile fun h => !past (db.time h)).any fun h => dbei.same (db.get h)) ∧
        (∀ h ∈ r.compared, h ∈ compared ∨ h ∈ xs) ∧
        (r.pos.hPreviousContact = INVALID_CONTACT_ID ∨ ∃ h ∈ xs, r.pos = db.remember pos h) := by
  induction xs generalizing n compared with
  | nil =>
    obtain ⟨n, rfl⟩ := Nat.exists_eq_add_of_lt hn
    exact ⟨_, rfl, rfl, fun h hmem => .inl hmem, .inl rfl⟩
  | cons x xs ih =>
    obtain ⟨n, rfl⟩ : ∃ m, n = m + 1 := ⟨n - 1, by rw [List.length_cons] at hn; omega⟩
    have hx : x ≠ 0 := by
      rintro rfl
      exact hzero (List.mem_cons_self ..)
    unfold look
    rw [List.head?_cons, Option.getD_some, if_neg hx]
    split
    . next hpast =>
      refine ⟨_, rfl, ?_, fun h hmem => .inl hmem, .inr ⟨x, List.mem_cons_self .., rfl⟩⟩
      rw [List.takeWhile_cons_of_neg (by simp [hpast])]
      rfl
    . next hpast =>
      rw [List.takeWhile_cons_of_pos (by simpa using hpast), List.any_cons]
      split
      . next hsame =>
        refine ⟨_, rfl, ?_, ?_, .inr ⟨x, List.mem_cons_self .., rfl⟩⟩
        . rw [hsame]
          rfl
        . intro h hmem
          rcases List.mem_cons.1 hmem with rfl | hmem
          . exact .inr (List.mem_cons_self ..)
          . exact .inl hmem
      . next hsame =>
        obtain ⟨r, hr, hfound, hcompared, hpos⟩ := @ih n (x :: compared) hfollows.2
          (fun hmem => hzero (List.mem_cons_of_mem _ hmem)) (by rw [List.length_cons] at hn; omega)
        rw [hfollows.1]
        refine ⟨r, hr, ?_, ?_, ?_⟩
        . rw [hfound, Bool.eq_false_iff.2 hsame]
          rfl
        . intro h hmem
          rcases hcompared h hmem with hold | hxs
          . rcases List.mem_cons.1 hold with rfl | hold
            . exact .inr (List.mem_cons_self ..)
            . exact .inl hold
          . exact .inr (List.mem_cons_of_mem _ hxs)
        . exact hpos.imp_right fun ⟨h, hmem, heq⟩ => ⟨h, List.mem_cons_of_mem _ hmem, heq⟩

theorem skip_spec {xs : List MEVENT} (heq : db.history hContact = before ++ h :: xs)
    (hpos : pos = db.remember pos h) (hn : xs.length < n)
    : ∃ before' h' behind', db.history hContact = before' ++ h' :: behind' ∧
        db.skip hContact n (xs.head?.getD 0) pos = some (db.remember pos h') ∧
        (h' = h ∨ h' ∈ xs) ∧
        (db.time h' = db.time h → behind' = []) := by
  induction xs generalizing before h pos n with
  | nil =>
    obtain ⟨n, rfl⟩ := Nat.exists_eq_add_of_lt hn
    refine ⟨before, h, [], heq, ?_, .inl rfl, fun _ => rfl⟩
    rw [← hpos]
    rfl
  | cons x xs ih =>
    obtain ⟨n, rfl⟩ : ∃ m, n = m + 1 := ⟨n - 1, by rw [List.length_cons] at hn; omega⟩
    have hx : x ≠ 0 := by
      rintro rfl
      exact db.nonzero hContact (by rw [heq]; simp)
    have heq' : db.history hContact = (before ++ [h]) ++ x :: xs := by
      rw [heq, List.append_assoc]
      rfl
    have htime : pos.dwPreviousTimeStamp = db.time h := by
      rw [hpos]
      rfl
    unfold skip
    rw [List.head?_cons, Option.getD_some, if_neg hx, htime]
    split
    . next hne =>
      exact ⟨before ++ [h], x, xs, heq', rfl, .inr (List.mem_cons_self ..),
        fun h => absurd h hne⟩
    . next hnext =>
      rw [not_not] at hnext
      have hpos' : { pos with hPreviousDbEvent := x } =
          db.remember { pos with hPreviousDbEvent := x } x := by
        unfold remember
        rw [hnext, ← htime]
      obtain ⟨before', h', behind', hsplit, hskip, hmem, hlast⟩ := @ih
        { pos with hPreviousDbEvent := x } n x (before ++ [h]) heq' hpos' (by rw [List.length_cons] at hn; omega)
      rw [htime] at hskip
      rw [db.next_eq hContact _ x xs heq', hskip]
      refine ⟨before', h', behind', hsplit, rfl, .inr ?_, ?_⟩
      . rcases hmem with rfl | hmem
        . exact List.mem_cons_self ..
        . exact List.mem_cons_of_mem _ hmem
      . rwa [← hnext]

structure At (db : Histories) (pos : Position) (before : List MEVENT) (h : MEVENT)
    (behind : List MEVENT)
    : Prop where
  history : db.history pos.hPreviousContact = before ++ h :: behind
  event : pos.hPreviousDbEvent = h
  time : pos.dwPreviousTimeStamp = db.time h

theorem At.of_remember (heq : db.history pos.hPreviousContact = before ++ h :: behind)
    : At db (db.remember pos h) before h behind :=
  ⟨heq, rfl, rfl⟩

theorem At.eq_remember (hat : At db pos before h behind) : pos = db.remember pos h := by
  unfold remember
  rw [← hat.time, ← hat.event]

theorem At.valid (hat : At db pos before h behind) : db.Valid pos := by
  intro _
  rw [hat.event, hat.history]
  exact ⟨List.mem_append_right _ (List.mem_cons_self ..), hat.time⟩

structure Sound (db : Histories) (hContact : MCONTACT) (dbei : DBEVENTINFO) (r : Answer) : Prop where
  found : r.found = true → db.HasDuplicate hContact dbei
  compared : ∀ h ∈ r.compared, h ∈ db.history hContact
  valid : db.Valid r.pos

theorem search_spec (hat : At db pos before h behind)
    (hcompared : ∀ h ∈ compared, h ∈ db.history pos.hPreviousContact)
    (hn : (db.history pos.hPreviousContact).length < n)
    : ∃ r, db.search n pos.hPreviousContact dbei pos compared = some r ∧
        db.Sound pos.hPreviousContact dbei r ∧
        (db.Sorted pos.hPreviousContact → ∀ e, db.time e = dbei.getUnixtime → dbei.same (db.get e) →
          (if dbei.getUnixtime ≤ db.time h then e ∈ before ++ [h] else e ∈ h :: behind) →
            r.found = true) := by
  have hlook : ∀ (past : UInt32 → Bool) (step : MEVENT → MEVENT) (xs : List MEVENT),
      Follows step (h :: xs) → (∀ x ∈ h :: xs, x ∈ db.history pos.hPreviousContact) →
      xs.length < (db.history pos.hPreviousContact).length →
      ∃ r, db.look past step dbei pos n pos.hPreviousDbEvent compared = some r ∧
        db.Sound pos.hPreviousContact dbei r ∧
        r.found = ((h :: xs).takeWhile fun h => !past (db.time h)).any
          fun h => dbei.same (db.get h) := by
    intro past step xs hfollows hmem hlength
    obtain ⟨r, hr, hfound, hlooked, hpos⟩ := @look_spec db dbei pos n compared past step (h :: xs)
      hfollows (fun hzero => db.nonzero _ (hmem 0 hzero)) (by rw [List.length_cons]; omega)
    rw [List.head?_cons, Option.getD_some, ← hat.event] at hr
    refine ⟨r, hr, ⟨?_, ?_, ?_⟩, hfound⟩
    . intro htrue
      rw [hfound, List.any_eq_true] at htrue
      obtain ⟨e, he, hsame⟩ := htrue
      exact ⟨e, hmem e (List.takeWhile_subset _ he), hsame⟩
    . intro e he
      exact (hlooked e he).elim (hcompared e) (hmem e)
    . rcases hpos with hreset | ⟨e, he, hpos⟩
      . exact fun hne => absurd hreset hne
      . rw [hpos]
        exact fun _ => ⟨hmem e he, rfl⟩
  have hsplit := hat.history
  have hlength := congrArg List.length hsplit
  rw [List.length_append, List.length_cons] at hlength
  have hsorted : db.Sorted pos.hPreviousContact →
      (before ++ h :: behind).Pairwise fun x y => db.time x ≤ db.time y := by
    intro hsorted
    rwa [← hsplit]
  unfold search
  rw [hat.time]
  split
  . next hle =>
    obtain ⟨r, hr, hsound, hfound⟩ := hlook (fun t => t < dbei.getUnixtime)
      (db.prev pos.hPreviousContact) before.reverse
      (@follows_prev db pos.hPreviousContact behind _ (by rw [hsplit]; simp))
      (by intro x hx; rw [hsplit]; simp at hx ⊢; tauto) (by rw [List.length_reverse]; omega)
    refine ⟨r, hr, hsound, ?_⟩
    intro hsort e htime hsame hmem
    have hmem' : e ∈ h :: before.reverse := by simpa [or_comm] using hmem
    have hpairwise : (h :: before.reverse).Pairwise fun x y => db.time y ≤ db.time x := by
      have hprefix : (before ++ [h]).Pairwise fun x y => db.time x ≤ db.time y :=
        (hsorted hsort).sublist (by simp)
      have := List.pairwise_reverse.2 hprefix
      rwa [List.reverse_append] at this
    rw [hfound, List.any_eq_true]
    refine ⟨e, mem_takeWhile_of_pairwise (hpairwise.imp ?_) hmem' ?_, hsame⟩
    . intro x y hxy hy
      simp only [Bool.not_eq_eq_eq_not, Bool.not_true, decide_eq_false_iff_not] at hy ⊢
      exact fun hx => hy (UInt32.lt_of_le_of_lt hxy hx)
    . simp [htime]
  . next hlt =>
    obtain ⟨r, hr, hsound, hfound⟩ := hlook (fun t => dbei.getUnixtime < t)
      (db.next pos.hPreviousContact) behind (follows_next hsplit)
      (by intro x hx; rw [hsplit]; exact List.mem_append_right _ hx) (by omega)
    refine ⟨r, hr, hsound, ?_⟩
    intro hsort e htime hsame hmem
    have hpairwise := (List.pairwise_append.1 (hsorted hsort)).2.1
    rw [hfound, List.any_eq_true]
    refine ⟨e, mem_takeWhile_of_pairwise (hpairwise.imp ?_) hmem ?_, hsame⟩
    . intro x y hxy hy
      simp only [Bool.not_eq_eq_eq_not, Bool.not_true, decide_eq_false_iff_not] at hy ⊢
      exact fun hx => hy (UInt32.lt_of_lt_of_le hx hxy)
    . simp [htime]

theorem searchEqual_spec (hat : At db pos before h behind)
    (hn : (db.history pos.hPreviousContact).length < n)
    : ∃ r, db.searchEqual n pos.hPreviousContact dbei pos = some r ∧
        db.Sound pos.hPreviousContact dbei r ∧
        (db.Findable pos.hPreviousContact dbei → db.HasDuplicate pos.hPreviousContact dbei →
          r.found = true) := by
  have hsplit := hat.history
  have hmem : h ∈ db.history pos.hPreviousContact := by
    rw [hsplit]
    exact List.mem_append_right _ (List.mem_cons_self ..)
  have hlength := congrArg List.length hsplit
  rw [List.length_append, List.length_cons] at hlength
  unfold searchEqual
  rw [hat.event]
  split
  . next hequal =>
    have hle := DBEVENTINFO.getUnixtime_le hequal
    rw [hat.time] at hle
    split
    . next hsame =>
      refine ⟨_, rfl, ⟨fun _ => ⟨h, hmem, hsame⟩, ?_, hat.valid⟩, fun _ _ => rfl⟩
      intro x hx
      rwa [List.mem_singleton.1 hx]
    . next hdiff =>
      obtain ⟨before', h', behind', hsplit', hskip, hh', hlast⟩ := @skip_spec db
        pos.hPreviousContact pos n h before behind hsplit hat.eq_remember (by omega)
      obtain ⟨r, hr, hsound, hfound⟩ := @search_spec db dbei (db.remember pos h') n h' before'
        behind' [h] (At.of_remember hsplit') (fun x hx => by rwa [List.mem_singleton.1 hx]) hn
      rw [db.next_eq _ before h behind hsplit, hskip]
      refine ⟨r, hr, hsound, ?_⟩
      intro hfindable ⟨e, he, hsame⟩
      obtain ⟨hsorted, htime, -⟩ := hfindable e he hsame
      have hforward : db.time h ≤ db.time h' := by
        have hpairwise : (before ++ h :: behind).Pairwise fun x y => db.time x ≤ db.time y := by
          rwa [← hsplit]
        rcases hh' with rfl | hh'
        . exact UInt32.le_refl _
        . exact (List.pairwise_cons.1 (List.pairwise_append.1 hpairwise).2.1).1 h' hh'
      apply hfound hsorted e htime hsame
      rw [if_pos (UInt32.le_trans hle hforward)]
      rw [hsplit', List.mem_append, List.mem_cons] at he
      rcases he with he | rfl | he
      . exact List.mem_append_left _ he
      . exact List.mem_append_right _ (List.mem_singleton_self _)
      . have hpairwise : (before' ++ h' :: behind').Pairwise fun x y => db.time x ≤ db.time y := by
          rwa [← hsplit']
        have hafter := (List.pairwise_cons.1 (List.pairwise_append.1 hpairwise).2.1).1 e he
        rw [htime] at hafter
        have heq := UInt32.le_antisymm (UInt32.le_trans hafter hle) hforward
        rw [hlast heq] at he
        cases he
  . next hne =>
    obtain ⟨r, hr, hsound, hfound⟩ := @search_spec db dbei pos n h before behind [] hat nofun hn
    refine ⟨r, hr, hsound, ?_⟩
    intro hfindable ⟨e, he, hsame⟩
    obtain ⟨hsorted, htime, hsecond⟩ := hfindable e he hsame
    have hpairwise : (before ++ h :: behind).Pairwise fun x y => db.time x ≤ db.time y := by
      rwa [← hsplit]
    obtain ⟨-, hbehind, hbefore⟩ := List.pairwise_append.1 hpairwise
    rw [hsplit, List.mem_append, List.mem_cons] at he
    by_cases hle : dbei.getUnixtime ≤ db.time h
    . rcases he with he | rfl | he
      . apply hfound hsorted e htime hsame
        rw [if_pos hle]
        exact List.mem_append_left _ he
      . apply hfound hsorted e htime hsame
        rw [if_pos hle]
        exact List.mem_append_right _ (List.mem_singleton_self _)
      . -- the event has the second of the position, and its timestamp in milliseconds
        have hafter := (List.pairwise_cons.1 hbehind).1 e he
        rw [htime] at hafter
        have heq := UInt32.le_antisymm hafter hle
        rcases hsecond with hsecond | hsecond
        . rw [← heq, ← hat.time] at hsecond
          exact absurd hsecond hne
        . apply hfound hsorted h heq (hsecond h hmem heq)
          rw [if_pos hle]
          exact List.mem_append_right _ (List.mem_singleton_self _)
    . apply hfound hsorted e htime hsame
      rw [if_neg hle]
      rcases he with he | he
      . have := hbefore e he h (List.mem_cons_self ..)
        rw [htime] at this
        exact absurd this hle
      . exact List.mem_cons.2 he

theorem IsDuplicateEvent_spec (hvalid : db.Valid pos)
    (hn : (db.history hContact).length < n)
    : ∃ r, db.IsDuplicateEvent n pos hContact dbei = some r ∧
        (r.found = true → db.HasDuplicate hContact dbei) ∧
        (∀ h ∈ r.compared, h ∈ db.history hContact) ∧
        (db.OwnPosition pos hContact dbei → db.Valid r.pos) ∧
        (db.Findable hContact dbei → db.HasDuplicate hContact dbei → r.found = true) := by
  have hzero := db.nonzero hContact
  unfold IsDuplicateEvent
  simp only []
  rcases List.eq_nil_or_concat (db.history hContact) with hnil | ⟨init, last, hinit⟩
  . have hlast : db.db_event_last hContact = 0 := by
      unfold db_event_last
      rw [hnil]
      rfl
    rw [if_pos hlast]
    refine ⟨_, rfl, nofun, nofun, fun _ => hvalid, fun _ ⟨e, he, _⟩ => ?_⟩
    rw [hnil] at he
    cases he
  rw [List.concat_eq_append] at hinit
  have hlast : db.db_event_last hContact = last := by
    unfold db_event_last
    rw [hinit, List.getLast?_concat]
    rfl
  have hlastMem : last ∈ db.history hContact := by
    rw [hinit]
    exact List.mem_append_right _ (List.mem_singleton_self _)
  have hlastNe : last ≠ 0 := fun heq => hzero (heq ▸ hlastMem)
  rw [hlast, if_neg hlastNe]
  split
  . next hnew =>
    refine ⟨_, rfl, nofun, nofun, ?_, ?_⟩
    . intro hown hne
      rw [OwnPosition, hlast] at hown
      rcases hown hnew with hnil | hprev | hprev
      . rw [hnil] at hlastMem
        cases hlastMem
      . have hcontact : (db.remember pos last).hPreviousContact = hContact := hprev
        rw [hcontact]
        exact ⟨hlastMem, rfl⟩
      . exact absurd hprev hne
    . intro hfindable ⟨e, he, hsame⟩
      obtain ⟨hsorted, htime, -⟩ := hfindable e he hsame
      rw [Sorted, hinit] at hsorted
      rw [hinit, List.mem_append, List.mem_singleton] at he
      have hle : db.time e ≤ db.time last := by
        rcases he with he | rfl
        . exact (List.pairwise_append.1 hsorted).2.2 e he last (List.mem_singleton_self _)
        . exact UInt32.le_refl _
      rw [htime] at hle
      exact absurd hnew (UInt32.not_lt.2 hle)
  . next hold =>
    have hsearch : ∀ pos' before h behind, pos'.hPreviousContact = hContact →
        At db pos' before h behind →
        ∃ r, db.searchEqual n hContact dbei pos' = some r ∧
          (r.found = true → db.HasDuplicate hContact dbei) ∧
          (∀ h ∈ r.compared, h ∈ db.history hContact) ∧
          (db.OwnPosition pos hContact dbei → db.Valid r.pos) ∧
          (db.Findable hContact dbei → db.HasDuplicate hContact dbei → r.found = true) := by
      rintro pos' before h behind rfl hat
      obtain ⟨r, hr, hsound, hfound⟩ := @searchEqual_spec db dbei pos' n h before behind hat hn
      exact ⟨r, hr, hsound.found, hsound.compared, fun _ => hsound.valid, hfound⟩
    split
    . obtain ⟨first, rest, hfirst⟩ := List.exists_cons_of_ne_nil (List.ne_nil_of_mem hlastMem)
      have hfirstEq : db.db_event_first hContact = first := by
        unfold db_event_first
        rw [hfirst]
        rfl
      have hfirstNe : first ≠ 0 := fun heq => hzero (heq ▸ hfirst ▸ List.mem_cons_self ..)
      have hatFirst : At db (db.remember (db.remember { pos with hPreviousContact := hContact } last)
          first) [] first rest :=
        At.of_remember hfirst
      rw [hfirstEq, if_neg hfirstNe]
      split
      . split
        . next hle hne =>
          refine ⟨_, rfl, nofun, nofun, fun _ => hatFirst.valid, ?_⟩
          intro hfindable ⟨e, he, hsame⟩
          obtain ⟨hsorted, htime, -⟩ := hfindable e he hsame
          rw [Sorted, hfirst] at hsorted
          rw [hfirst, List.mem_cons] at he
          have hge : db.time first ≤ db.time e := by
            rcases he with rfl | he
            . exact UInt32.le_refl _
            . exact (List.pairwise_cons.1 hsorted).1 e he
          rw [htime] at hge
          exact absurd (UInt32.le_antisymm hle hge) hne
        . exact hsearch _ [] first rest rfl hatFirst
      . exact hsearch _ init last [] rfl (At.of_remember hinit)
    . next hsame =>
      rw [not_not] at hsame
      have hne : pos.hPreviousContact ≠ INVALID_CONTACT_ID := by
        rw [← hsame]
        rintro rfl
        rw [db.no_contact] at hlastMem
        cases hlastMem
      obtain ⟨hmem, htime⟩ := hvalid hne
      obtain ⟨before, behind, hsplit⟩ := List.append_of_mem hmem
      exact hsearch pos before _ behind hsame.symm ⟨hsplit, rfl, htime⟩

theorem valid_of_run {st : Option Position} (h : Transition.Run db.call db.Fair (some {}) st)
    : ∃ pos, st = some pos ∧ db.Valid pos := by
  refine h.inv (I := fun st => ∃ pos, st = some pos ∧ db.Valid pos) ?_
    ⟨{}, rfl, fun hne => absurd rfl hne⟩
  rintro st c ⟨pos, rfl, hvalid⟩ hfair
  obtain ⟨r, hr, -, -, hnew, -⟩ :=
    @IsDuplicateEvent_spec db c.2.1 c.2.2 pos c.1 hvalid hfair.rounds
  refine ⟨r.pos, ?_, hnew (hfair.own pos rfl)⟩
  unfold call
  rw [Option.bind_some, hr]
  rfl

theorem answers_of_run {st : Option Position} (h : Transition.Run db.call db.Fair (some {}) st)
    : db.Answers db.Fair st := by
  obtain ⟨pos, rfl, hvalid⟩ := valid_of_run h
  intro pos' n hContact dbei hpos hfair hn
  injection hpos with hpos
  rw [hpos] at hvalid
  obtain ⟨r, hr, hsound, hcompared, -, hfound⟩ :=
    @IsDuplicateEvent_spec db hContact dbei pos' n hvalid hn
  exact ⟨r, hr, ⟨hsound, hfound hfair.findable⟩, hcompared⟩

def message (seconds : UInt64) : DBEVENTINFO where
  iTimestamp := seconds
  bMsec := false
  bSent := false
  eventType := 0
  cbBlob := 1

def twoContacts : Histories :=
  .ofLists (fun hContact => if hContact = 1 then [1, 3] else if hContact = 2 then [2] else [])
    (fun h => message (h.toUInt64 * 10))
    (by intro hContact; split_ifs <;> decide) (by intro hContact; split_ifs <;> decide) rfl

theorem answers_twoContacts
    : twoContacts.Answers twoContacts.Fair (twoContacts.call (some {}) (3, 1, message 30)) := by
  refine answers_of_run (Transition.Run.init.call (3, 1, message 30) ⟨by decide, ?_, ?_⟩)
  . intro h hmem hsame
    refine ⟨?_, ?_, .inl (by decide)⟩
    . have hsorted : [1, 3].Pairwise fun x y => twoContacts.time x ≤ twoContacts.time y := by decide
      exact hsorted
    . have heq := (of_decide_eq_true hsame).1
      change (message (h.toUInt64 * 10)).getUnixtime = (message 30).getUnixtime
      unfold message DBEVENTINFO.getUnixtime
      exact congrArg UInt64.toUInt32 heq.symm
  . rintro pos ⟨⟩
    intro hnew
    exact absurd hnew (by decide)

-- The search for a new event of contact 2 leaves its last one behind as the place to begin with for
-- contact 1.
theorem not_answers_twoContacts
    : ¬ ∀ (db : Histories) (st : Option Position),
        Transition.Run db.call (fun _ _ => True) (some {}) st → db.Answers (fun _ _ => True) st := by
  intro h
  have hrun : Transition.Run twoContacts.call (fun _ _ => True) (some {}) _ :=
    (Transition.Run.init.call (3, 1, message 25) trivial).call (3, 2, message 25) trivial
  have hst : twoContacts.call (twoContacts.call (some {}) (3, 1, message 25)) (3, 2, message 25) =
      some ⟨20, 1, 2⟩ := by decide
  rw [hst] at hrun
  obtain ⟨r, hr, hiff, -⟩ := h twoContacts _ hrun ⟨20, 1, 2⟩ 3 1 (message 20) rfl trivial (by decide)
  have hanswer : twoContacts.IsDuplicateEvent 3 ⟨20, 1, 2⟩ 1 (message 20) =
      some ⟨true, [2], ⟨20, 1, 2⟩⟩ := by decide
  rw [hanswer] at hr
  injection hr with hr
  obtain ⟨e, he, hsame⟩ := hiff.1 (by rw [← hr])
  have hmem : e = 1 ∨ e ∈ [3] := List.mem_cons.1 he
  rcases hmem with rfl | hmem
  . exact absurd hsame (by decide)
  . rw [List.mem_singleton.1 hmem] at hsame
    exact absurd hsame (by decide)

end Histories
end DB
