import MirandaNG.NewStory.HistoryArray
import MirandaNG.Order.MovedBefore

/-!
This module contains the list that a history array stands for, and what each call does to both.

It also contains runs of a history array against the list that it stands for.
-/

namespace NewStory

open Pages (Page)

variable {a : HistoryArray} {l unused : List ItemData} {p x : ItemData}

namespace Items

def append (l : List ItemData) (new : NewItem) : List ItemData :=
  let (p, prev) := new.check (new.fill {}) l.getLast?
  match prev with
  | some prev => l.set (l.length - 1) prev ++ [p]
  | none => l ++ [p]

def step (l : List ItemData) : Call → List ItemData
  | .addEvent env pOwner hContact hEvent count bNew =>
    (newEvents env pOwner hContact hEvent count bNew).foldl append l
  | .addResults env pOwner pArray => (newResults env pOwner pArray).foldl append l
  | .insert pos => l.insertIdx pos {}
  | .remove id => l.eraseIdx id
  | .clear => []
  | .write id p => l.set id p

def run (l : List ItemData) (calls : List Call) : List ItemData := calls.foldl step l

theorem append_eq (l : List ItemData) (new : NewItem)
    : append l new
        = (new.check (new.fill {}) l.getLast?).2.elim l (l.set (l.length - 1) ·)
          ++ [(new.check (new.fill {}) l.getLast?).1] := by
  unfold append
  rcases new.check (new.fill {}) l.getLast? with ⟨p, prev | prev⟩ <;> rfl

theorem length_append (l : List ItemData) (new : NewItem) : (append l new).length = l.length + 1 := by
  unfold append
  rcases new.check (new.fill {}) l.getLast? with ⟨p, prev | prev⟩
  . rw [List.length_append, List.length_singleton]
  . rw [List.length_append, List.length_singleton, List.length_set]

end Items

theorem blockSize_pos : 0 < HIST_BLOCK_SIZE := by decide

namespace HistoryArray

def Filled (a : HistoryArray) : Prop :=
  if a.pages = [] then
    a.iLastPageCounter = 0 ∨ a.iLastPageCounter = HIST_BLOCK_SIZE
  else
    0 < a.iLastPageCounter ∧ a.iLastPageCounter ≤ HIST_BLOCK_SIZE

structure Holds (a : HistoryArray) (l unused : List ItemData) : Prop where
  slots : Pages.slots a.pages = l ++ unused
  count : a.getCount = l.length
  filled : a.Filled
  noEvent : ∀ x ∈ unused, x.dbe.m_hEvent = 0

theorem holds_clear (a : HistoryArray) : a.clear.Holds [] [] where
  slots := rfl
  count := rfl
  filled := .inl rfl
  noEvent := fun _ hx => absurd hx List.not_mem_nil

theorem get_eq (a : HistoryArray) (id : Nat) : a.get id = (Pages.slots a.pages)[id]? :=
  Pages.get?_eq blockSize_pos a.pages id

theorem slots_set (a : HistoryArray) (id : Nat) (p : ItemData)
    : Pages.slots (a.set id p).pages = (Pages.slots a.pages).set id p :=
  Pages.slots_set blockSize_pos a.pages id p

theorem set_pages_eq_nil (a : HistoryArray) (id : Nat) (p : ItemData) : (a.set id p).pages = [] ↔ a.pages = [] := by
  rw [← List.length_eq_zero_iff, ← List.length_eq_zero_iff]
  unfold set
  rw [Pages.length_set]

theorem getCount_set (a : HistoryArray) (id : Nat) (p : ItemData) : (a.set id p).getCount = a.getCount := by
  unfold getCount
  simp only [set_pages_eq_nil]
  unfold set
  rw [Pages.length_set]

theorem filled_set (a : HistoryArray) (id : Nat) (p : ItemData) : (a.set id p).Filled ↔ a.Filled := by
  unfold Filled
  simp only [set_pages_eq_nil]
  rfl

namespace Holds

theorem get_of_lt (h : a.Holds l unused) {i : Nat} (hi : i < l.length) : a.get i = l[i]? := by
  rw [get_eq, h.slots, List.getElem?_append_left hi]

theorem get_of_le (h : a.Holds l unused) {i : Nat} (hi : l.length ≤ i) : a.get i = unused[i - l.length]? := by
  rw [get_eq, h.slots, List.getElem?_append_right hi]

theorem set (h : a.Holds l unused) {i : Nat} (hi : i < l.length) (p : ItemData)
    : (a.set i p).Holds (l.set i p) unused where
  slots := by rw [slots_set, h.slots, List.set_append_left _ _ hi]
  count := by rw [getCount_set, h.count, List.length_set]
  filled := (filled_set a i p).mpr h.filled
  noEvent := h.noEvent

theorem length (h : a.Holds l unused) : l.length + unused.length = a.pages.length * HIST_BLOCK_SIZE := by
  rw [← Pages.length_slots, h.slots, List.length_append]

end Holds

theorem indexOf_append {found : ItemData → Bool} (h : ∀ x ∈ unused, found x = false) (l : List ItemData)
    : indexOf found (l ++ unused) = indexOf found l := by
  unfold indexOf
  rw [List.findIdx?_append, List.findIdx?_eq_none_iff.mpr h, Option.map_none, Option.or_none]

theorem getCount_mk {pages : List (Page ItemData HIST_BLOCK_SIZE)} (h : pages ≠ []) (n : Nat)
    : (HistoryArray.mk pages n).getCount = (pages.length - 1) * HIST_BLOCK_SIZE + n :=
  if_neg h

theorem getCount_of_pages (h : a.pages ≠ []) : a.getCount = (a.pages.length - 1) * HIST_BLOCK_SIZE + a.iLastPageCounter :=
  getCount_mk h a.iLastPageCounter

def Full (a : HistoryArray) : Prop := a.pages = [] ∨ a.iLastPageCounter = HIST_BLOCK_SIZE

theorem Holds.counter_of_not_full (h : a.Holds l unused) (hfull : ¬ a.Full)
    : 0 < a.iLastPageCounter ∧ a.iLastPageCounter < HIST_BLOCK_SIZE := by
  have hfilled := h.filled
  unfold Filled at hfilled
  rw [if_neg fun hpages => hfull (.inl hpages)] at hfilled
  have hne : a.iLastPageCounter ≠ HIST_BLOCK_SIZE := fun hcounter => hfull (.inr hcounter)
  omega

theorem Holds.count_of_full (h : a.Holds l unused) (hfull : a.Full) : l.length = a.pages.length * HIST_BLOCK_SIZE := by
  rw [← h.count]
  by_cases hpages : a.pages = []
  . unfold getCount
    rw [if_pos hpages, hpages, List.length_nil, Nat.zero_mul]
  . have hlength := List.length_pos_iff.mpr hpages
    rw [getCount_of_pages hpages, hfull.resolve_left hpages, ← Nat.succ_mul]
    congr 1
    omega

theorem allocateItem_of_full (hfilled : a.Filled) (hfull : a.Full)
    : a.allocateItem
        = ({ pages := a.pages ++ [newBlock], iLastPageCounter := 1 }, a.pages.length * HIST_BLOCK_SIZE) := by
  unfold Filled at hfilled
  unfold allocateItem
  by_cases hcounter : a.iLastPageCounter = HIST_BLOCK_SIZE
  . rw [if_pos hcounter]
    simp
  . have hpages := hfull.resolve_right hcounter
    rw [if_pos hpages] at hfilled
    rw [if_neg hcounter, if_pos hpages, hpages, hfilled.resolve_right hcounter]
    simp

theorem allocateItem_of_not_full (h : ¬ a.Full)
    : a.allocateItem
        = ({ a with iLastPageCounter := a.iLastPageCounter + 1 },
          (a.pages.length - 1) * HIST_BLOCK_SIZE + a.iLastPageCounter) := by
  unfold allocateItem
  rw [if_neg fun hcounter => h (.inr hcounter), if_neg fun hpages => h (.inl hpages)]

theorem slots_newBlock
    : Pages.slots [newBlock] = ({} : ItemData) :: List.replicate (HIST_BLOCK_SIZE - 1) ({} : ItemData) := by
  rw [← List.replicate_succ, Nat.sub_add_cancel blockSize_pos]
  exact List.append_nil _

theorem Holds.allocateItem (h : a.Holds l unused)
    : ∃ x rest, a.allocateItem.2 = l.length ∧ a.allocateItem.1.Holds (l ++ [x]) rest
        ∧ (unused = x :: rest ∨ unused = [] ∧ x :: rest = List.replicate HIST_BLOCK_SIZE {}) := by
  have hlength := h.length
  by_cases hfull : a.Full
  . have hcount := h.count_of_full hfull
    have hunused : unused = [] := List.length_eq_zero_iff.mp (by omega)
    refine ⟨{}, List.replicate (HIST_BLOCK_SIZE - 1) {}, ?_, ?_, .inr ⟨hunused, ?_⟩⟩
    . rw [allocateItem_of_full h.filled hfull, hcount]
    . rw [allocateItem_of_full h.filled hfull]
      refine ⟨?_, ?_, ?_, fun x hx => ?_⟩
      . rw [Pages.slots_append, h.slots, hunused, List.append_nil, List.append_assoc, slots_newBlock,
          List.singleton_append]
      . rw [getCount_mk (List.append_ne_nil_of_right_ne_nil _ (List.cons_ne_nil _ _)), List.length_append,
          List.length_append, List.length_singleton, List.length_singleton, Nat.add_sub_cancel, hcount]
      . unfold Filled
        rw [if_neg (List.append_ne_nil_of_right_ne_nil _ (List.cons_ne_nil _ _))]
        exact ⟨Nat.one_pos, blockSize_pos⟩
      . rw [List.eq_of_mem_replicate hx]
    . rw [← List.replicate_succ, Nat.sub_add_cancel blockSize_pos]
  . obtain ⟨hpos, hlt⟩ := h.counter_of_not_full hfull
    have hpages : a.pages ≠ [] := fun hpages => hfull (.inl hpages)
    have hcount : l.length = (a.pages.length - 1) * HIST_BLOCK_SIZE + a.iLastPageCounter := by
      rw [← h.count, getCount_of_pages hpages]
    have hmul : a.pages.length * HIST_BLOCK_SIZE = (a.pages.length - 1) * HIST_BLOCK_SIZE + HIST_BLOCK_SIZE := by
      rw [← Nat.succ_mul, Nat.succ_eq_add_one, Nat.sub_add_cancel (List.length_pos_iff.mpr hpages)]
    rw [allocateItem_of_not_full hfull]
    cases hunused : unused with
    | nil =>
      rw [hunused, List.length_nil] at hlength
      omega
    | cons x rest =>
      refine ⟨x, rest, hcount.symm, ⟨?_, ?_, ?_, fun y hy => ?_⟩, .inl rfl⟩
      . rw [h.slots, hunused, List.append_assoc]
        rfl
      . rw [getCount_mk hpages, List.length_append, hcount, List.length_singleton, Nat.add_assoc]
      . unfold Filled
        rw [if_neg hpages]
        exact ⟨Nat.succ_pos _, hlt⟩
      . refine h.noEvent y ?_
        rw [hunused]
        exact List.mem_cons_of_mem _ hy

def lastIndex (l : List ItemData) : Option Nat := if l.length = 0 then none else some (l.length - 1)

theorem Holds.lastItem (h : a.Holds l unused) : a.lastItem = lastIndex l := by
  unfold HistoryArray.lastItem lastIndex
  rw [h.count]

theorem lastIndex_bind (h : a.Holds (l ++ [x]) unused) : (lastIndex l).bind a.get = l.getLast? := by
  unfold lastIndex
  rw [List.getLast?_eq_getElem?]
  by_cases hl : l.length = 0
  . rw [if_pos hl, Option.bind_none, List.getElem?_eq_none (by omega)]
  . rw [if_neg hl, Option.bind_some, h.get_of_lt (by rw [List.length_append]; omega),
      List.getElem?_append_left (by omega)]

theorem setPrev_holds (h : a.Holds (l ++ [x]) unused) (prev : Option ItemData)
    : (a.setPrev (lastIndex l) prev).Holds ((prev.elim l (l.set (l.length - 1) ·)) ++ [x]) unused := by
  unfold lastIndex
  cases prev with
  | none =>
    rw [Option.elim_none]
    by_cases hl : l.length = 0
    . rw [if_pos hl]
      exact h
    . rw [if_neg hl]
      exact h
  | some prev =>
    rw [Option.elim_some]
    by_cases hl : l.length = 0
    . rw [if_pos hl, List.length_eq_zero_iff.mp hl]
      rw [List.length_eq_zero_iff.mp hl] at h
      exact h
    . rw [if_neg hl, ← List.set_append_left _ _ (by omega)]
      exact h.set (by rw [List.length_append]; omega) prev

theorem addItem_eq {pPrev : Option Nat} (hx : a.allocateItem.1.get a.allocateItem.2 = some x) (new : NewItem)
    : a.addItem pPrev new
        = (let checked := new.check (new.fill x) (pPrev.bind a.allocateItem.1.get)
           ((a.allocateItem.1.setPrev pPrev checked.2).set a.allocateItem.2 checked.1, some a.allocateItem.2)) := by
  unfold addItem
  dsimp only
  rw [hx]

theorem Holds.addItem {k : Nat} (h : a.Holds l unused) (hblank : ∀ x ∈ unused.take (k + 1), x = {}) (new : NewItem)
    : ∃ rest, (a.addItem (lastIndex l) new).1.Holds (Items.append l new) rest ∧ (∀ x ∈ rest.take k, x = {})
        ∧ (a.addItem (lastIndex l) new).2 = lastIndex (Items.append l new) := by
  obtain ⟨x, rest, hindex, hholds, hplace⟩ := h.allocateItem
  have hx : x = {} ∧ ∀ y ∈ rest.take k, y = {} := by
    rcases hplace with hunused | ⟨-, hnew⟩
    . rw [hunused, List.take_succ_cons] at hblank
      exact ⟨hblank x List.mem_cons_self, fun y hy => hblank y (List.mem_cons_of_mem _ hy)⟩
    . have hall : ∀ y ∈ x :: rest, y = {} := fun y hy => List.eq_of_mem_replicate (hnew ▸ hy)
      exact ⟨hall x List.mem_cons_self, fun y hy => hall y (List.mem_cons_of_mem _ (List.mem_of_mem_take hy))⟩
  have hget : a.allocateItem.1.get l.length = some {} := by
    rw [hholds.get_of_lt (by rw [List.length_append, List.length_singleton]; omega), hx.1]
    exact List.getElem?_concat_length
  have hlast : lastIndex (Items.append l new) = some l.length := by
    unfold lastIndex
    rw [Items.length_append, if_neg (Nat.succ_ne_zero _), Nat.add_sub_cancel]
  rw [← hindex] at hget
  rw [addItem_eq hget, hlast, lastIndex_bind hholds, Items.append_eq, hindex]
  refine ⟨rest, ?_, hx.2, rfl⟩
  have hlength : ((new.check (new.fill {}) l.getLast?).2.elim l (l.set (l.length - 1) ·)).length = l.length := by
    cases (new.check (new.fill {}) l.getLast?).2 with
    | none => rfl
    | some prev => exact List.length_set
  have hset := (setPrev_holds hholds (new.check (new.fill {}) l.getLast?).2).set (i := l.length)
    (by rw [List.length_append, hlength, List.length_singleton]; omega) (new.check (new.fill {}) l.getLast?).1
  rw [List.set_append_right _ _ hlength.le, hlength, Nat.sub_self] at hset
  exact hset

theorem Holds.addItems (news : List NewItem) (h : a.Holds l unused)
    (hblank : ∀ x ∈ unused.take news.length, x = {})
    : ∃ rest, (a.addItems (lastIndex l) news).Holds (news.foldl Items.append l) rest := by
  induction news generalizing a l unused with
  | nil => exact ⟨unused, h⟩
  | cons new news ih =>
    obtain ⟨rest, hholds, hrest, hlast⟩ := h.addItem hblank new
    rw [HistoryArray.addItems, List.foldl_cons]
    dsimp only
    rw [hlast]
    exact ih hholds hrest

theorem slots_copy {pNew pPrev : Nat} (h : pPrev < (Pages.slots a.pages).length)
    : Pages.slots (a.copy pNew pPrev).pages = (Pages.slots a.pages).set pNew (Pages.slots a.pages)[pPrev] := by
  unfold copy
  rw [get_eq, List.getElem?_eq_getElem h]
  exact slots_set a pNew _

theorem copy_frame (a : HistoryArray) (pNew pPrev : Nat)
    : (a.copy pNew pPrev).getCount = a.getCount ∧ ((a.copy pNew pPrev).Filled ↔ a.Filled) := by
  unfold copy
  cases a.get pPrev with
  | none => exact ⟨rfl, Iff.rfl⟩
  | some p => exact ⟨getCount_set a pNew p, filled_set a pNew p⟩

theorem insertLoop_frame (pos i : Nat) (a : HistoryArray) (pNew pPrev : Nat)
    : (insertLoop pos i a pNew pPrev).1.getCount = a.getCount
        ∧ ((insertLoop pos i a pNew pPrev).1.Filled ↔ a.Filled) := by
  induction i generalizing a pNew pPrev with
  | zero =>
    rw [insertLoop]
    split
    . exact copy_frame a pNew pPrev
    . exact ⟨rfl, Iff.rfl⟩
  | succ i ih =>
    rw [insertLoop]
    split
    . obtain ⟨hcount, hfilled⟩ := ih (a.copy pNew pPrev) pPrev i
      obtain ⟨hcopy, hcopied⟩ := copy_frame a pNew pPrev
      exact ⟨hcount.trans hcopy, hfilled.trans hcopied⟩
    . exact ⟨rfl, Iff.rfl⟩

theorem set_eq_take_cons_drop {i : Nat} (hi : i < l.length) (x : ItemData)
    : l.set i x = l.take i ++ x :: l.drop (i + 1) := by
  rw [List.set_eq_take_append_cons_drop, if_pos hi]

theorem insertLoop_slots {pos i : Nat} (hpos : pos ≤ i + 1) (hi : i + 1 < (Pages.slots a.pages).length) (x : ItemData)
    : Pages.slots ((insertLoop pos i a (i + 1) i).1.set (insertLoop pos i a (i + 1) i).2 x).pages
        = (Pages.slots a.pages).take pos
          ++ x :: (((Pages.slots a.pages).take (i + 1)).drop pos ++ (Pages.slots a.pages).drop (i + 2)) := by
  induction i generalizing a with
  | zero =>
    rw [insertLoop]
    by_cases hzero : pos = 0
    . rw [if_pos hzero, hzero, slots_set, slots_copy (by omega), set_eq_take_cons_drop hi,
        set_eq_take_cons_drop (by simp)]
      simp [List.take_add_one, List.getElem?_eq_getElem (Nat.lt_of_succ_lt hi)]
    . have hone : pos = 1 := by omega
      rw [if_neg hzero, slots_set, set_eq_take_cons_drop hi, hone]
      simp
  | succ i ih =>
    rw [insertLoop]
    by_cases hle : pos ≤ i + 1
    . rw [if_pos hle]
      have hcopy : Pages.slots (a.copy (i + 2) (i + 1)).pages = _ := slots_copy (Nat.lt_of_succ_lt hi)
      rw [ih hle (by rw [hcopy, List.length_set]; omega), hcopy, List.take_set_of_le (by omega),
        List.take_set_of_le (by omega), List.drop_set, if_neg (by omega), Nat.sub_self,
        ← List.take_append_getElem (i := i + 1) (by omega), List.drop_append_of_le_length (by rw [List.length_take]; omega)]
      rw [List.drop_eq_getElem_cons hi, List.set_cons_zero]
      simp
    . have heq : pos = i + 2 := by omega
      have hnone : ((Pages.slots a.pages).take (i + 1 + 1)).drop (i + 2) = [] :=
        List.drop_of_length_le (by rw [List.length_take]; omega)
      rw [if_neg hle, slots_set, set_eq_take_cons_drop hi, heq, hnone]
      rfl

theorem insertLoop_self {pos n : Nat} (hpos : pos ≤ n) (hn : n < (Pages.slots a.pages).length) (x : ItemData)
    : Pages.slots ((insertLoop pos n a n n).1.set (insertLoop pos n a n n).2 x).pages
        = (Pages.slots a.pages).take pos
          ++ x :: (((Pages.slots a.pages).take n).drop pos ++ (Pages.slots a.pages).drop (n + 1)) := by
  have hcopy : Pages.slots (a.copy n n).pages = Pages.slots a.pages := by
    rw [slots_copy hn, List.set_getElem_self]
  cases n with
  | zero =>
    have hzero := Nat.le_zero.mp hpos
    rw [insertLoop, if_pos hzero, slots_set, hcopy, set_eq_take_cons_drop hn, hzero]
    rfl
  | succ n =>
    rw [insertLoop, if_pos hpos, insertLoop_slots hpos (by rw [hcopy]; exact hn), hcopy]

theorem insertLoop_last {pos n : Nat} (hpos : pos ≤ n + 1) (hn : n + 1 < (Pages.slots a.pages).length) (x : ItemData)
    : Pages.slots ((insertLoop pos (n + 1) a (n + 1) n).1.set (insertLoop pos (n + 1) a (n + 1) n).2 x).pages
        = (Pages.slots a.pages).take (min pos n)
          ++ x :: (((Pages.slots a.pages).take n).drop (min pos n)
            ++ (Pages.slots a.pages)[n] :: (Pages.slots a.pages).drop (n + 2)) := by
  have hcopy : Pages.slots (a.copy (n + 1) n).pages = (Pages.slots a.pages).set (n + 1) (Pages.slots a.pages)[n] :=
    slots_copy (by omega)
  have htake : (Pages.slots (a.copy (n + 1) n).pages).take n = (Pages.slots a.pages).take n := by
    rw [hcopy, List.take_set_of_le (by omega)]
  have hdrop : (Pages.slots (a.copy (n + 1) n).pages).drop (n + 1)
      = (Pages.slots a.pages)[n] :: (Pages.slots a.pages).drop (n + 2) := by
    rw [hcopy, List.drop_set, if_neg (by omega), Nat.sub_self, List.drop_eq_getElem_cons hn, List.set_cons_zero]
  have hlength : n < (Pages.slots (a.copy (n + 1) n).pages).length := by
    rw [hcopy, List.length_set]
    omega
  rw [insertLoop, if_pos hpos]
  by_cases hle : pos ≤ n
  . rw [insertLoop_self hle hlength, htake, hdrop, Nat.min_eq_left hle, hcopy, List.take_set_of_le (by omega)]
  . have heq : pos = n + 1 := by omega
    have hend : insertLoop pos n (a.copy (n + 1) n) n n = (a.copy (n + 1) n, n) := by
      cases n with
      | zero => rw [insertLoop, if_neg (by omega)]
      | succ n => rw [insertLoop, if_neg hle]
    rw [hend, slots_set, set_eq_take_cons_drop hlength, htake, hdrop, Nat.min_eq_right (by omega),
      List.drop_of_length_le (List.length_take_le n _)]
    rfl

theorem Holds.insert (h : a.Holds l unused) {pos : Nat} (hpos : pos ≤ l.length)
    : ∃ rest, (a.insert pos).Holds (l.insertIdx (min pos (l.length - 1)) {}) rest := by
  obtain ⟨x, rest, hindex, hholds, -⟩ := h.allocateItem
  have hlength : (Pages.slots a.allocateItem.1.pages).length = l.length + 1 + rest.length := by
    rw [hholds.slots, List.length_append, List.length_append, List.length_singleton]
  refine ⟨rest, ?_⟩
  unfold HistoryArray.insert
  dsimp only
  rw [hindex, h.count]
  cases hl : l.length with
  | zero =>
    have hnil := List.length_eq_zero_iff.mp hl
    rw [if_neg (by omega), Nat.zero_sub, Nat.min_zero, hnil]
    rw [hnil] at hholds
    exact hholds.set (by simp) {}
  | succ n =>
    rw [if_pos (Nat.succ_pos n), Nat.add_sub_cancel]
    obtain ⟨hcount, hfilled⟩ := insertLoop_frame pos (n + 1) a.allocateItem.1 (n + 1) n
    have hlast : n + 1 < (Pages.slots a.allocateItem.1.pages).length := by omega
    have hslots := insertLoop_last (hl ▸ hpos) hlast {}
    refine ⟨?_, ?_, ?_, hholds.noEvent⟩
    . have htake : ∀ m ≤ n, (Pages.slots a.allocateItem.1.pages).take m = l.take m := by
        intro m hm
        rw [hholds.slots, List.append_assoc, List.take_append_of_le_length (by omega)]
      have hn : n < (Pages.slots a.allocateItem.1.pages).length := by omega
      have hget : (Pages.slots a.allocateItem.1.pages)[n] = l[n] := by
        simp only [hholds.slots, List.append_assoc]
        rw [List.getElem_append_left (by omega)]
      have hdrop : (Pages.slots a.allocateItem.1.pages).drop (n + 2) = rest := by
        rw [hholds.slots, List.drop_left' (by rw [List.length_append, hl]; rfl)]
      have hlast : l.drop (min pos n) = (l.take n).drop (min pos n) ++ [l[n]] := by
        rw [← List.drop_append_of_le_length (by rw [List.length_take]; omega), List.take_append_getElem,
          List.take_of_length_le (by omega)]
      rw [hslots, htake _ (Nat.min_le_right _ _), htake n le_rfl, hget, hdrop,
        Compare.insertIdx_eq_append (by omega), hlast]
      simp only [List.append_assoc, List.cons_append, List.nil_append]
    . rw [getCount_set, hcount, hholds.count, List.length_append, List.length_insertIdx_of_le_length (by omega), hl]
      rfl
    . exact (filled_set _ _ _).mpr (hfilled.mpr hholds.filled)

def removed (a : HistoryArray) (id : Nat) (pPage : Page ItemData HIST_BLOCK_SIZE)
    : List (Page ItemData HIST_BLOCK_SIZE) :=
  a.pages.take (id / HIST_BLOCK_SIZE)
    ++ Pages.cascade .zeroed (pPage.moveDown (id % HIST_BLOCK_SIZE)) (a.pages.drop (id / HIST_BLOCK_SIZE + 1))

theorem remove_eq {id : Nat} {pPage : Page ItemData HIST_BLOCK_SIZE} (h : a.pages[id / HIST_BLOCK_SIZE]? = some pPage)
    : a.remove id
        = if a.iLastPageCounter = 1 then
            { pages := (a.removed id pPage).dropLast, iLastPageCounter := HIST_BLOCK_SIZE }
          else
            HistoryArray.set { pages := a.removed id pPage, iLastPageCounter := a.iLastPageCounter - 1 }
              (((a.removed id pPage).length - 1) * HIST_BLOCK_SIZE + (a.iLastPageCounter - 1)) {} := by
  have hmove : (if id % HIST_BLOCK_SIZE ≠ HIST_BLOCK_SIZE - 1 then pPage.moveDown (id % HIST_BLOCK_SIZE) else pPage)
      = pPage.moveDown (id % HIST_BLOCK_SIZE) := by
    by_cases hoffset : id % HIST_BLOCK_SIZE = HIST_BLOCK_SIZE - 1
    . rw [if_neg (not_not_intro hoffset), hoffset, Pages.moveDown_last blockSize_pos]
    . rw [if_pos hoffset]
  unfold remove
  dsimp only
  rw [h]
  dsimp only
  rw [hmove]
  rfl

theorem length_removed {id : Nat} {pPage : Page ItemData HIST_BLOCK_SIZE}
    (h : a.pages[id / HIST_BLOCK_SIZE]? = some pPage)
    : (a.removed id pPage).length = a.pages.length := by
  have hlt := (List.getElem?_eq_some_iff.mp h).1
  unfold removed
  rw [List.length_append, Pages.length_cascade, List.length_take, List.length_drop]
  omega

theorem Holds.noEvent_last (h : a.Holds l unused) (hne : unused ≠ []) (hx : (Pages.slots a.pages).getLast? = some x)
    : x.dbe.m_hEvent = 0 := by
  rw [h.slots, List.getLast?_append, List.getLast?_eq_some_getLast hne, Option.some_or, Option.some.injEq] at hx
  rw [← hx]
  exact h.noEvent _ (List.getLast_mem hne)

theorem Holds.remove (h : a.Holds l unused) {id : Nat} (hid : id < l.length)
    : ∃ rest, (a.remove id).Holds (l.eraseIdx id) rest := by
  have hlength := h.length
  have hlt : id / HIST_BLOCK_SIZE < a.pages.length := Nat.div_lt_of_lt_mul (by rw [Nat.mul_comm]; omega)
  have hpos : 0 < a.pages.length := Nat.zero_lt_of_lt hlt
  have hpages : a.pages ≠ [] := List.ne_nil_of_length_pos hpos
  have hpage := List.getElem?_eq_getElem hlt
  have hcount := h.count
  rw [getCount_of_pages hpages] at hcount
  have hfilled := h.filled
  unfold Filled at hfilled
  rw [if_neg hpages] at hfilled
  obtain ⟨z, hslots, hz⟩ := Pages.slots_remove blockSize_pos ItemData.zeroed hpage
  have hremoved := length_removed hpage
  have hne : a.removed id a.pages[id / HIST_BLOCK_SIZE] ≠ [] :=
    List.ne_nil_of_length_pos (hremoved ▸ hpos)
  change Pages.slots (a.removed id _) = _ at hslots
  rw [h.slots, List.eraseIdx_append_of_lt_length hid, List.append_assoc] at hslots
  rw [remove_eq hpage]
  by_cases hone : a.iLastPageCounter = 1
  . -- the last page goes; every place of the others has an item
    obtain ⟨last, hlast⟩ := Pages.slots_dropLast hne
    rw [if_pos hone]
    have hdrop : Pages.slots (a.removed id a.pages[id / HIST_BLOCK_SIZE]).dropLast = l.eraseIdx id := by
      rw [hslots] at hlast
      refine (List.append_inj_left hlast ?_).symm
      rw [Pages.length_slots, List.length_dropLast, hremoved, List.length_eraseIdx_of_lt hid]
      omega
    refine ⟨[], ?_, ?_, ?_, fun _ hx => absurd hx List.not_mem_nil⟩
    . rw [hdrop, List.append_nil]
    . rw [← hdrop, Pages.length_slots]
      by_cases hnil : (a.removed id a.pages[id / HIST_BLOCK_SIZE]).dropLast = []
      . unfold getCount
        rw [if_pos hnil, hnil, List.length_nil, Nat.zero_mul]
      . have hpos := List.length_pos_iff.mpr hnil
        rw [getCount_mk hnil, ← Nat.succ_mul, Nat.succ_eq_add_one, Nat.sub_add_cancel hpos]
    . unfold Filled
      split
      . exact .inr rfl
      . exact ⟨blockSize_pos, le_rfl⟩
  . have hcounter : a.iLastPageCounter - 1 ≤ HIST_BLOCK_SIZE ∧ 0 < a.iLastPageCounter - 1 := by omega
    have hindex : (a.pages.length - 1) * HIST_BLOCK_SIZE + (a.iLastPageCounter - 1) = (l.eraseIdx id).length := by
      rw [List.length_eraseIdx_of_lt hid]
      omega
    rw [if_neg hone, hremoved, hindex]
    refine ⟨(unused ++ [z]).set 0 {}, ?_, ?_, ?_, fun x hx => ?_⟩
    . rw [slots_set, hslots, List.set_append_right _ _ le_rfl, Nat.sub_self]
    . rw [getCount_set, getCount_mk hne, hremoved, hindex]
    . refine (filled_set _ _ _).mpr ?_
      unfold Filled
      rw [if_neg hne]
      exact ⟨hcounter.2, hcounter.1⟩
    . cases unused with
      | nil => rw [List.mem_singleton.mp hx]
      | cons u us =>
        rcases List.mem_cons.mp hx with rfl | hx
        . rfl
        . rcases List.mem_append.mp hx with hx | hx
          . exact h.noEvent x (List.mem_cons_of_mem _ hx)
          . rw [List.mem_singleton.mp hx]
            rcases hz with rfl | hz
            . rfl
            . exact h.noEvent_last (List.cons_ne_nil u us) hz

end HistoryArray

end NewStory

namespace NewStory

variable {a : HistoryArray} {l unused : List ItemData}

def Call.InRange (a : HistoryArray) : Call → Prop
  | .insert pos => pos ≤ a.getCount
  | .remove id => id < a.getCount
  | .write id _ => id < a.getCount
  | _ => True

-- The first `n` places behind the items, as far as there are pages for them, hold blank items.
def HistoryArray.BlankPlaces (a : HistoryArray) (n : Nat) : Prop :=
  ∀ i < n, a.get (a.getCount + i) = none ∨ a.get (a.getCount + i) = some {}

-- `remove` leaves zeroes at the end of a page when it moves the first item of the page to the page before it, and the
-- loop of `insert` never moves the place of the new item behind the last item.
def Call.Sound (a : HistoryArray) : Call → Prop
  | .addEvent env pOwner hContact hEvent count bNew =>
    a.BlankPlaces (newEvents env pOwner hContact hEvent count bNew).length
  | .addResults env pOwner pArray => a.BlankPlaces (newResults env pOwner pArray).length
  | .insert pos => pos < a.getCount ∨ a.getCount = 0 ∨ a.get (a.getCount - 1) = some {}
  | _ => True

instance (a : HistoryArray) (n : Nat) : Decidable (a.BlankPlaces n) :=
  inferInstanceAs (Decidable (∀ i < n, _))

instance (a : HistoryArray) : (c : Call) → Decidable (c.InRange a)
  | .addEvent .. => inferInstanceAs (Decidable True)
  | .addResults .. => inferInstanceAs (Decidable True)
  | .insert _ => inferInstanceAs (Decidable (_ ≤ _))
  | .remove _ => inferInstanceAs (Decidable (_ < _))
  | .clear => inferInstanceAs (Decidable True)
  | .write .. => inferInstanceAs (Decidable (_ < _))

instance (a : HistoryArray) : (c : Call) → Decidable (c.Sound a)
  | .addEvent .. => inferInstanceAs (Decidable (a.BlankPlaces _))
  | .addResults .. => inferInstanceAs (Decidable (a.BlankPlaces _))
  | .insert _ => inferInstanceAs (Decidable (_ ∨ _))
  | .remove _ => inferInstanceAs (Decidable True)
  | .clear => inferInstanceAs (Decidable True)
  | .write .. => inferInstanceAs (Decidable True)

def AllAlong (P : HistoryArray → Call → Prop) : HistoryArray → List Call → Prop
  | _, [] => True
  | a, c :: calls => P a c ∧ AllAlong P (a.step c) calls

instance AllAlong.decidable (P : HistoryArray → Call → Prop) [∀ a c, Decidable (P a c)]
    : (a : HistoryArray) → (calls : List Call) → Decidable (AllAlong P a calls)
  | _, [] => inferInstanceAs (Decidable True)
  | a, c :: calls =>
    have := AllAlong.decidable P (a.step c) calls
    inferInstanceAs (Decidable (P a c ∧ AllAlong P (a.step c) calls))

structure HistoryArray.Refines (a : HistoryArray) (l : List ItemData) : Prop where
  getCount : a.getCount = l.length
  get : ∀ i < l.length, a.get i = l[i]?
  find : ∀ hEvent ≠ 0, a.find hEvent = indexOf (·.dbe.m_hEvent == hEvent) l

def BehavesAsList (calls : List Call) : Prop :=
  ∀ n, (HistoryArray.run {} (calls.take n)).Refines (Items.run [] (calls.take n))

namespace HistoryArray

theorem holds_empty : ({} : HistoryArray).Holds [] [] := holds_clear {}

theorem Holds.refines (h : a.Holds l unused) : a.Refines l where
  getCount := h.count
  get := fun _ hi => h.get_of_lt hi
  find := fun hEvent hne => by
    unfold find
    rw [h.slots]
    refine indexOf_append (fun x hx => ?_) l
    rw [h.noEvent x hx]
    exact beq_eq_false_iff_ne.mpr hne.symm

theorem Holds.blank_of_blankPlaces (h : a.Holds l unused) {n : Nat} (hblank : a.BlankPlaces n)
    : ∀ x ∈ unused.take n, x = {} := by
  intro x hx
  obtain ⟨i, hi, hget⟩ := List.mem_take_iff_getElem.mp hx
  have hplace := hblank i (by omega)
  rw [h.count, h.get_of_le (Nat.le_add_right _ _), Nat.add_sub_cancel_left, List.getElem?_eq_getElem (by omega), hget]
    at hplace
  simpa using hplace

theorem insertIdx_sound {pos : Nat} (hpos : pos ≤ l.length)
    (h : pos < l.length ∨ l.length = 0 ∨ l[l.length - 1]? = some {})
    : l.insertIdx (min pos (l.length - 1)) {} = l.insertIdx pos {} := by
  by_cases hlt : pos < l.length
  . rw [Nat.min_eq_left (by omega)]
  . have heq : pos = l.length := by omega
    rcases h with h | h | h
    . omega
    . rw [heq, h]
      rfl
    . have hlast : l.drop (l.length - 1) = [{}] := by
        obtain ⟨hn, hx⟩ := List.getElem?_eq_some_iff.mp h
        rw [List.drop_eq_getElem_cons hn, hx, List.drop_of_length_le (by omega)]
      have hsplit : l.take (l.length - 1) ++ [({} : ItemData)] = l := by
        rw [← hlast, List.take_append_drop]
      rw [heq, List.insertIdx_length_self, Nat.min_eq_right (by omega),
        Compare.insertIdx_eq_append (by omega), hlast, List.append_cons, hsplit]

theorem Holds.step (h : a.Holds l unused) (c : Call) (hrange : c.InRange a) (hsound : c.Sound a)
    : ∃ rest, (a.step c).Holds (Items.step l c) rest := by
  cases c with
  | addEvent env pOwner hContact hEvent count bNew =>
    unfold HistoryArray.step addEvent
    dsimp only
    rw [h.lastItem]
    exact h.addItems _ (h.blank_of_blankPlaces hsound)
  | addResults env pOwner pArray =>
    unfold HistoryArray.step addResults
    dsimp only
    rw [h.lastItem]
    exact h.addItems _ (h.blank_of_blankPlaces hsound)
  | insert pos =>
    unfold Call.InRange at hrange
    unfold Call.Sound at hsound
    dsimp only at hrange hsound
    rw [h.count] at hrange hsound
    have hinsert := h.insert hrange
    rw [insertIdx_sound hrange] at hinsert
    . exact hinsert
    . rcases hsound with hlt | hzero | hblank
      . exact .inl hlt
      . exact .inr (.inl hzero)
      . by_cases hzero : l.length = 0
        . exact .inr (.inl hzero)
        . rw [h.get_of_lt (by omega)] at hblank
          exact .inr (.inr hblank)
  | remove id => exact h.remove (h.count ▸ hrange)
  | clear => exact ⟨[], holds_clear a⟩
  | write id p => exact ⟨unused, h.set (h.count ▸ hrange) p⟩

theorem Holds.run {calls : List Call} (h : a.Holds l unused) (hrange : AllAlong (fun a c => c.InRange a) a calls)
    (hsound : AllAlong (fun a c => c.Sound a) a calls) (n : Nat)
    : (a.run (calls.take n)).Refines (Items.run l (calls.take n)) := by
  induction calls generalizing a l unused n with
  | nil =>
    rw [List.take_nil]
    exact h.refines
  | cons c calls ih =>
    cases n with
    | zero => exact h.refines
    | succ n =>
      obtain ⟨rest, hstep⟩ := h.step c hrange.1 hsound.1
      rw [List.take_succ_cons]
      exact ih hstep hrange.2 hsound.2 n

theorem behavesAsList {calls : List Call} (hrange : AllAlong (fun a c => c.InRange a) {} calls)
    (hsound : AllAlong (fun a c => c.Sound a) {} calls) : BehavesAsList calls :=
  holds_empty.run hrange hsound

def oneEvent : NewStory.Env where
  bMsgGrouping := true
  db_event_get := fun _ dbei => some { dbei with eventType := 0, iTimestamp := 1700000000 }
  createDocument := fun _ => some 1
  nick := fun _ _ => .ofMem []
  IsGroupChat := fun _ => false
  Events := fun _ _ => []

theorem behavesAsList_messages
    : BehavesAsList [.addEvent oneEvent 1 5 7 1 true, .addEvent oneEvent 1 5 9 1 true, .insert 0, .insert 2, .remove 1] :=
  behavesAsList (by decide) (by decide)

-- A blank item that is to come behind the only item comes in front of it.
theorem not_behavesAsList_end
    : AllAlong (fun a c => c.InRange a) {} [.addEvent oneEvent 1 5 7 1 true, .insert 1]
        ∧ ¬ BehavesAsList [.addEvent oneEvent 1 5 7 1 true, .insert 1] := by
  refine ⟨by decide, fun h => ?_⟩
  have hget := (h 2).get 1 (by decide)
  revert hget
  decide

end HistoryArray

end NewStory
