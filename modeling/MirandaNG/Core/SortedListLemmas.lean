import MirandaNG.Core.ListItems
import MirandaNG.Core.SortedList

/-!
This module proves what the operations of a sorted list do to the list of its items.
-/

namespace SortedList

variable {α : Type} {list : SortedList α} {xs : List α}

structure Holds (list : SortedList α) (xs : List α) : Prop where
  realCount : list.realCount = xs.length
  items : ∃ junk, list.items = xs.map some ++ junk
  limit : xs.length ≤ list.limit
  slots : list.limit ≤ list.items.length

def Grows (list : SortedList α) : Prop := list.realCount = list.limit → 1 ≤ list.increment

theorem Holds.item (h : list.Holds xs) (i : Nat) (hi : i < xs.length) : list.item i = xs[i]? := by
  obtain ⟨junk, hitems⟩ := h.items
  unfold SortedList.item
  rw [if_neg (by omega), Int.toNat_natCast, hitems,
    List.getElem?_append_left (by rwa [List.length_map]), List.getElem?_map]
  rw [List.getElem?_eq_getElem hi]
  rfl

theorem Holds.List_GetIndex_eq (h : list.Holds xs) {f : α → α → Int} (hf : list.sortFunc = some f)
    (x : α)
    : list.List_GetIndex (some x) = ListItems.search (f · x) xs := by
  unfold List_GetIndex ListItems.search
  rw [hf, h.realCount, Int.toNat_natCast]
  apply BinarySearch.search_congr
  intro i hlow hhigh
  obtain ⟨i, rfl⟩ := Int.eq_ofNat_of_zero_le hlow
  rw [h.item i (by omega), if_neg (by omega), Int.toNat_natCast]

theorem Holds.grow_spec (h : list.Holds xs) (hgrows : list.Grows)
    : ∃ list' junk, list.grow = some list' ∧ list'.items = xs.map some ++ junk ∧ junk ≠ [] ∧
        list'.realCount = xs.length ∧ xs.length + 1 ≤ list'.limit ∧
        list'.limit ≤ list'.items.length ∧ list'.sortFunc = list.sortFunc ∧
        list'.increment = list.increment ∧ list.limit ≤ list'.limit := by
  obtain ⟨hcount, ⟨junk, hitems⟩, hlimit, hslots⟩ := h
  unfold grow
  by_cases hfull : list.realCount = list.limit
  . have hincrement := hgrows hfull
    unfold resize
    rw [if_pos hfull, if_neg (by omega), Option.map_some]
    have hlength : (list.realCount + list.increment).toNat = xs.length + list.increment.toNat := by
      omega
    refine ⟨_, (junk ++ List.replicate (xs.length + list.increment.toNat) none).take
      list.increment.toNat, rfl, ?_, ?_, hcount, ?_, ?_, rfl, rfl, ?_⟩
    . simp only [hlength, hitems, List.append_assoc]
      have htake := @List.take_length_add_append _ (xs.map some)
        (junk ++ List.replicate (xs.length + list.increment.toNat) none) list.increment.toNat
      rwa [List.length_map] at htake
    . rw [ne_eq, ← List.length_eq_zero_iff, List.length_take, List.length_append,
        List.length_replicate]
      omega
    . simp only []
      omega
    . simp only [hlength, List.length_take, List.length_append, List.length_replicate]
      omega
    . simp only []
      omega
  . rw [if_neg hfull]
    refine ⟨list, junk, rfl, hitems, ?_, hcount, by omega, hslots, rfl, rfl, le_rfl⟩
    rintro rfl
    rw [hitems, List.append_nil, List.length_map] at hslots
    omega

theorem take_succ_set {β : Type} {l : List β} {i : Nat} (hi : i < l.length) (tail : List β) (y : β)
    : (l.take (i + 1) ++ tail).set i y = l.take i ++ y :: tail := by
  have htake : (l.take i).length = i := List.length_take_of_le (Nat.le_of_lt hi)
  rw [List.take_succ_eq_append_getElem hi, List.append_assoc, List.set_append_right _ _ htake.le,
    htake, Nat.sub_self]
  rfl

theorem moveUp_put (hitems : ∃ junk ≠ [], list.items = xs.map some ++ junk)
    (hcount : list.realCount = xs.length) {i : Nat} (hi : i ≤ xs.length) (x : α)
    : ∃ list₁ list₂, list.moveUp i = some list₁ ∧
        { list₁ with realCount := list₁.realCount + 1 }.put i (some x) = some list₂ ∧
        list₂.realCount = (xs.length : Int) + 1 ∧
        (∃ junk, list₂.items = (xs.insertIdx i x).map some ++ junk) ∧
        list₂.items.length = list.items.length ∧ list₂.limit = list.limit ∧
        list₂.sortFunc = list.sortFunc ∧ list₂.increment = list.increment := by
  obtain ⟨junk, hjunk, hitems⟩ := hitems
  have hlength : list.items.length = xs.length + junk.length := by
    rw [hitems, List.length_append, List.length_map]
  have hpos := List.length_pos_iff.2 hjunk
  have htake : list.items.take i = (xs.take i).map some := by
    rw [hitems, List.take_append_of_le_length (by rwa [List.length_map]), List.map_take]
  have hinsert (junk' : List (Option α))
      : list.items.take i ++ some x :: ((xs.drop i).map some ++ junk') =
        (xs.insertIdx i x).map some ++ junk' := by
    rw [Compare.insertIdx_eq_append hi, htake, List.map_append, List.map_cons, List.append_assoc,
      List.cons_append]
  by_cases hlt : i < xs.length
  . have hmoved : (list.items.drop i).take (xs.length - i) = (xs.drop i).map some := by
      rw [hitems, List.drop_append_of_le_length (by rwa [List.length_map]), ← List.map_drop,
        List.take_append_of_le_length (by rw [List.length_map, List.length_drop]),
        List.take_of_length_le (by rw [List.length_map, List.length_drop])]
    have hset : (list.items.take (i + 1) ++ ((list.items.drop i).take (xs.length - i) ++
          list.items.drop (xs.length + 1))).set i (some x) =
        (xs.insertIdx i x).map some ++ list.items.drop (xs.length + 1) := by
      rw [take_succ_set (by omega), hmoved, hinsert]
    have hcast : ((xs.length : Int) - i).toNat = xs.length - i := by omega
    unfold moveUp put
    rw [hcount, if_pos (by omega), if_pos (by omega)]
    simp only [Int.toNat_natCast, hcast]
    refine ⟨_, _, rfl, if_pos ?_, rfl, ⟨_, hset⟩, ?_, rfl, rfl, rfl⟩
    . simp only [List.length_append, List.length_take, List.length_drop]
      omega
    . simp only [List.length_set, List.length_append, List.length_take, List.length_drop]
      omega
  . have heq : i = xs.length := by omega
    have hset : list.items.set i (some x) =
        (xs.insertIdx i x).map some ++ list.items.drop (i + 1) := by
      rw [List.set_eq_take_append_cons_drop, if_pos (by omega), ← hinsert,
        List.drop_of_length_le (by omega : xs.length ≤ i)]
      rfl
    unfold moveUp put
    rw [hcount, if_neg (by omega)]
    refine ⟨_, _, rfl, if_pos ?_, ?_, ⟨_, hset⟩, List.length_set, rfl, rfl, rfl⟩
    . simp only []
      omega
    . simp only [hcount]

theorem Holds.List_Insert_spec (h : list.Holds xs) (hgrows : list.Grows) {i : Nat}
    (hi : i ≤ xs.length) (x : α)
    : ∃ list', list.List_Insert (some x) i = some (1, list') ∧ list'.Holds (xs.insertIdx i x) ∧
        list'.sortFunc = list.sortFunc ∧ list'.increment = list.increment ∧
        list.limit ≤ list'.limit := by
  obtain ⟨list₁, junk, hgrow, hitems₁, hjunk, hcount₁, hlimit₁, hslots₁, hsort₁, hinc₁, hle⟩ :=
    h.grow_spec hgrows
  obtain ⟨list₂, list₃, hmove, hput, hcount, hitems, hlength, hlimit, hsort, hinc⟩ :=
    moveUp_put ⟨junk, hjunk, hitems₁⟩ hcount₁ hi x
  have hinsert : (xs.insertIdx i x).length = xs.length + 1 :=
    List.length_insertIdx_of_le_length hi x
  have hno : ¬(some x = none ∨ (i : Int) > list.realCount) := by
    rw [h.realCount]
    simp only [reduceCtorEq, false_or]
    omega
  refine ⟨list₃, ?_, ⟨?_, hitems, ?_, ?_⟩, hsort.trans hsort₁, hinc.trans hinc₁,
    hle.trans hlimit.ge⟩
  . unfold List_Insert
    rw [if_neg hno, hgrow]
    simp only [Option.bind_eq_bind, Option.bind_some, hmove, hput, Option.pure_def]
  . rw [hcount, hinsert, Nat.cast_add, Nat.cast_one]
  . rw [hinsert, hlimit, Nat.cast_add, Nat.cast_one]
    exact hlimit₁
  . rwa [hlimit, hlength]

theorem moveDown_put (h : list.Holds xs) (hxs : xs ≠ []) (i : Nat)
    : ∃ list₁ list₂, { list with realCount := list.realCount - 1 }.moveDown i = some list₁ ∧
        list₁.put list₁.realCount none = some list₂ ∧
        list₂.realCount = (xs.length : Int) - 1 ∧
        (∃ junk, list₂.items = (xs.eraseIdx (min i (xs.length - 1))).map some ++ junk) ∧
        list₂.items.length = list.items.length ∧ list₂.limit = list.limit ∧
        list₂.sortFunc = list.sortFunc ∧ list₂.increment = list.increment := by
  obtain ⟨hcount, ⟨junk, hitems⟩, hlimit, hslots⟩ := h
  have hpos := List.length_pos_iff.2 hxs
  have hlength : list.items.length = xs.length + junk.length := by
    rw [hitems, List.length_append, List.length_map]
  have hcast : ((xs.length : Int) - 1).toNat = xs.length - 1 := by omega
  have htake (k : Nat) (hk : k ≤ xs.length) : list.items.take k = (xs.take k).map some := by
    rw [hitems, List.take_append_of_le_length (by rwa [List.length_map]), List.map_take]
  unfold moveDown put
  simp only [hcount, hcast, Int.toNat_natCast]
  by_cases hlt : i < xs.length - 1
  . have hmoved : (list.items.drop (i + 1)).take (xs.length - 1 - i) = (xs.drop (i + 1)).map some := by
      rw [hitems, List.drop_append_of_le_length (by rw [List.length_map]; omega), ← List.map_drop,
        List.take_append_of_le_length (by rw [List.length_map, List.length_drop]; omega),
        List.take_of_length_le (by rw [List.length_map, List.length_drop]; omega)]
    have hcast' : ((xs.length : Int) - 1 - i).toNat = xs.length - 1 - i := by omega
    have hset : (list.items.take i ++ ((list.items.drop (i + 1)).take (xs.length - 1 - i) ++
          list.items.drop (xs.length - 1))).set ((xs.length : Int) - 1).toNat none =
        (xs.eraseIdx i).map some ++ (list.items.drop (xs.length - 1)).set 0 none := by
      have herase : (xs.eraseIdx i).length = xs.length - 1 :=
        List.length_eraseIdx_of_lt (by omega)
      rw [hcast, hmoved, htake i (by omega), ← List.append_assoc, ← List.map_append,
        ← List.eraseIdx_eq_take_drop_succ, List.set_append_right _ _
          (by rw [List.length_map, herase]), List.length_map, herase, Nat.sub_self]
    rw [if_pos (by omega), if_pos (by omega), hcast', min_eq_left (by omega)]
    refine ⟨_, _, rfl, if_pos ?_, rfl, ⟨_, hset⟩, ?_, rfl, rfl, rfl⟩
    . simp only [List.length_append, List.length_take, List.length_drop]
      omega
    . simp only [List.length_set, List.length_append, List.length_take, List.length_drop]
      omega
  . have hset : list.items.set ((xs.length : Int) - 1).toNat none =
        (xs.eraseIdx (xs.length - 1)).map some ++ none :: list.items.drop xs.length := by
      rw [hcast, List.set_eq_take_append_cons_drop, if_pos (by omega), htake _ (by omega),
        List.eraseIdx_eq_take_drop_succ, Nat.sub_add_cancel hpos, List.drop_length, List.append_nil]
    rw [if_neg (by omega), min_eq_right (by omega)]
    refine ⟨_, _, rfl, if_pos ?_, rfl, ⟨_, hset⟩, List.length_set, rfl, rfl, rfl⟩
    simp only []
    omega

theorem Holds.List_Remove_spec (h : list.Holds xs) (hxs : xs ≠ []) {i : Nat} (hi : i ≤ xs.length)
    : ∃ list', list.List_Remove i = some (1, list') ∧
        list'.Holds (xs.eraseIdx (min i (xs.length - 1))) ∧ list'.sortFunc = list.sortFunc ∧
        list'.increment = list.increment := by
  have hpos := List.length_pos_iff.2 hxs
  have hlimit' := h.limit
  obtain ⟨list₁, list₂, hmove, hput, hcount, hitems, hlength, hlimit, hsort, hinc⟩ :=
    moveDown_put h hxs i
  have herase : (xs.eraseIdx (min i (xs.length - 1))).length = xs.length - 1 :=
    List.length_eraseIdx_of_lt (by omega)
  have hno : ¬((i : Int) < 0 ∨ (i : Int) > list.realCount) := by
    rw [h.realCount]
    omega
  refine ⟨list₂, ?_, ⟨?_, hitems, ?_, ?_⟩, hsort, hinc⟩
  . unfold List_Remove
    rw [if_neg hno]
    simp only [hmove, hput, Option.bind_eq_bind, Option.bind_some, Option.pure_def]
  . rw [hcount, herase]
    omega
  . rw [hlimit, herase]
    omega
  . rw [hlimit, hlength]
    exact h.slots

def inserted (sortFunc : Option (α → α → Int)) (xs : List α) (x : α) : List α :=
  match sortFunc with
  | none => xs ++ [x]
  | some f => ListItems.insert f xs x

theorem Holds.List_InsertPtr_spec (h : list.Holds xs) (hgrows : list.Grows) (x : α)
    : ∃ list', list.List_InsertPtr (some x) = some (1, list') ∧
        list'.Holds (inserted list.sortFunc xs x) ∧ list'.sortFunc = list.sortFunc := by
  unfold List_InsertPtr inserted
  rw [if_neg (by simp)]
  cases hf : list.sortFunc with
  | none =>
    obtain ⟨list', hinsert, hholds, hsort, -⟩ := h.List_Insert_spec hgrows le_rfl x
    rw [List.insertIdx_length_self] at hholds
    rw [Option.isNone_none, if_pos rfl, h.realCount]
    exact ⟨list', hinsert, hholds, hsort.trans hf⟩
  | some f =>
    obtain ⟨list', hinsert, hholds, hsort, -⟩ :=
      h.List_Insert_spec hgrows (ListItems.insertPlace_le (f · x) xs) x
    rw [Option.isNone_some, if_neg (by decide), h.List_GetIndex_eq hf x]
    refine ⟨list', ?_, hholds, hsort.trans hf⟩
    rcases ListItems.search_spec (f · x) xs with ⟨i, hsearch, -, hplace, -⟩ |
      ⟨i, hsearch, -, hplace, -⟩
    . rw [hplace] at hinsert
      rw [hsearch]
      exact hinsert
    . rw [hplace] at hinsert
      rw [hsearch]
      exact hinsert

def removed (sortFunc : Option (α → α → Int)) (xs : List α) (x : α) : List α :=
  match sortFunc with
  | none => xs
  | some f => ListItems.remove f xs x

theorem Holds.List_RemovePtr_spec (h : list.Holds xs) (x : α)
    : ∃ r list', list.List_RemovePtr (some x) = some (r, list') ∧
        list'.Holds (removed list.sortFunc xs x) ∧ list'.sortFunc = list.sortFunc := by
  unfold List_RemovePtr removed
  cases hf : list.sortFunc with
  | none =>
    have hindex : list.List_GetIndex (some x) = some (-1, false) := by
      unfold List_GetIndex
      rw [hf]
    rw [hindex]
    exact ⟨-1, list, rfl, h, hf⟩
  | some f =>
    simp only [ListItems.remove]
    rw [h.List_GetIndex_eq hf x]
    rcases ListItems.search_spec (f · x) xs with ⟨i, hsearch, hindex, -, hfound⟩ |
      ⟨i, hsearch, hindex, -⟩
    . have hi := hfound.lt
      obtain ⟨list', hremove, hholds, hsort, -⟩ :=
        h.List_Remove_spec (List.length_pos_iff.1 (Nat.zero_lt_of_lt hi)) hi.le
      rw [min_eq_left (by omega)] at hholds
      rw [hsearch, hindex]
      refine ⟨i, list', ?_, hholds, hsort.trans hf⟩
      simp only [Option.bind_eq_bind, Option.bind_some, if_true, hremove, Option.pure_def]
    . rw [hsearch, hindex]
      exact ⟨-1, list, rfl, h, hf⟩

theorem Holds.List_Copy_spec (h : list.Holds xs) (hfull : list.limit = list.realCount)
    (d : SortedList α)
    : ∃ d', list.List_Copy d = some d' ∧ d'.Holds xs ∧ d'.sortFunc = d.sortFunc := by
  obtain ⟨hcount, ⟨junk, hitems⟩, hlimit, hslots⟩ := h
  have htake : list.items.take xs.length = xs.map some := by
    rw [hitems, List.take_append_of_le_length (List.length_map _).ge,
      List.take_of_length_le (List.length_map _).le]
  unfold List_Copy
  rw [if_pos (by omega)]
  refine ⟨_, rfl, ⟨hcount, ⟨[], ?_⟩, hlimit, ?_⟩, rfl⟩
  . simp only [hcount, Int.toNat_natCast, htake, List.append_nil]
  . simp only [hfull, hcount, Int.toNat_natCast, htake, List.length_map, le_refl]

def GrowsBy (list : SortedList α) (count : Int) : Prop :=
  list.limit < list.realCount + count → 1 ≤ list.increment

theorem Holds.insertObjects_spec (h : list.Holds xs) (objects : Nat → α) (n : Nat)
    : ∀ (i : Nat) (ys : List α) (d : SortedList α), d.Holds ys → i ≤ ys.length →
        i + n = xs.length → d.GrowsBy n →
        ∃ d' ys', insertObjects list objects n i d = some d' ∧ d'.Holds ys' ∧
          d'.sortFunc = d.sortFunc := by
  induction n with
  | zero =>
    intro i ys d hd _ _ _
    exact ⟨d, ys, rfl, hd, rfl⟩
  | succ n ih =>
    intro i ys d hd hi hn hgrows
    have hlimit := hd.limit
    have hcount := hd.realCount
    have hfull : d.Grows := by
      intro hfull
      apply hgrows
      omega
    obtain ⟨d₁, hinsert, hd₁, hsort, hinc, hle⟩ := hd.List_Insert_spec hfull hi (objects i)
    have hlength := List.length_insertIdx_of_le_length hi (objects i)
    have hcount₁ := hd₁.realCount
    have hgrows₁ : d₁.GrowsBy n := by
      intro hlt
      rw [hinc]
      apply hgrows
      omega
    obtain ⟨d₂, ys₂, hrest, hd₂, hsort₂⟩ := ih (i + 1) _ d₁ hd₁ (by omega) (by omega) hgrows₁
    refine ⟨d₂, ys₂, ?_, hd₂, hsort₂.trans hsort⟩
    rw [insertObjects, h.item i (by omega), List.getElem?_eq_getElem (by omega : i < xs.length)]
    simp only [Option.bind_eq_bind, Option.bind_some, hinsert, hrest]

theorem Holds.List_ObjCopy_spec (h : list.Holds xs) {d : SortedList α} {ys : List α}
    (hd : d.Holds ys) (hgrows : d.limit < d.realCount + list.realCount → 1 ≤ list.increment)
    (objects : Nat → α)
    : ∃ d' ys', list.List_ObjCopy d objects = some d' ∧ d'.Holds ys' ∧
        d'.sortFunc = list.sortFunc := by
  unfold List_ObjCopy
  have hcount := h.realCount
  rw [hcount, Int.toNat_natCast]
  apply h.insertObjects_spec objects xs.length 0 ys
  . exact ⟨hd.realCount, hd.items, hd.limit, hd.slots⟩
  . exact Nat.zero_le _
  . exact Nat.zero_add _
  . rw [hcount] at hgrows
    exact hgrows

end SortedList
