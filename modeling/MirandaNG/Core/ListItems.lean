import MirandaNG.Order.Compare

/-!
This module contains the searching operations of `LIST` on the items alone, for lists whose memory
is not looked at.
-/

namespace ListItems

variable {α : Type} {result : α → Int} {xs : List α} {f : α → α → Int}

def search (result : α → Int) (xs : List α) : Option (Int × Bool) :=
  BinarySearch.search (fun i => if i < 0 then none else (xs[i.toNat]?).map result) (xs.length + 1) 0
    (xs.length - 1)

def getIndex (result : α → Int) (xs : List α) : Option Nat :=
  match search result xs with
  | some (i, true) => some i.toNat
  | _ => none

def find (result : α → Int) (xs : List α) : Option α := (getIndex result xs).bind (xs[·]?)

def insertPlace (result : α → Int) (xs : List α) : Nat :=
  match search result xs with
  | some (i, _) => i.toNat
  | none => 0

def insert (f : α → α → Int) (xs : List α) (p : α) : List α :=
  xs.insertIdx (insertPlace (f · p) xs) p

def remove (f : α → α → Int) (xs : List α) (p : α) : List α :=
  match getIndex (f · p) xs with
  | some i => xs.eraseIdx i
  | none => xs

theorem search_congr {result' : α → Int} (h : ∀ x ∈ xs, result x = result' x)
    : search result xs = search result' xs := by
  unfold search
  congr 1
  funext i
  split
  . rfl
  . exact Option.map_congr fun x hx => h x (List.mem_of_getElem? hx)

theorem insert_congr {f' : α → α → Int} {p : α} (h : ∀ x ∈ xs, f x p = f' x p)
    : insert f xs p = insert f' xs p := by
  unfold insert insertPlace
  rw [search_congr h]

theorem search_spec (result : α → Int) (xs : List α)
    : (∃ i : Nat, search result xs = some ((i : Int), true) ∧ getIndex result xs = some i ∧
        insertPlace result xs = i ∧ BinarySearch.Found (xs.map result) i) ∨
      (∃ i : Nat, search result xs = some ((i : Int), false) ∧ getIndex result xs = none ∧
        insertPlace result xs = i ∧ i ≤ xs.length ∧
        (BinarySearch.Ordered (xs.map result) → BinarySearch.Separates (xs.map result) i)) := by
  have hprobe : ∀ i : Nat, i < (xs.map result).length →
      (if (i : Int) < 0 then none else (xs[(i : Int).toNat]?).map result) =
        (xs.map result)[i]? := by
    intro i _
    rw [if_neg (by omega), Int.toNat_natCast, List.getElem?_map]
  have hsearch := @BinarySearch.search_spec
    (fun i => if i < 0 then none else (xs[i.toNat]?).map result) _ hprobe
  rw [List.length_map] at hsearch
  unfold getIndex insertPlace
  rcases hsearch with ⟨i, hsearch, hfound⟩ | ⟨i, hsearch, hi, hseparates⟩
  . have heq : search result xs = some ((i : Int), true) := hsearch
    rw [heq]
    exact .inl ⟨i, rfl, rfl, rfl, hfound⟩
  . have heq : search result xs = some ((i : Int), false) := hsearch
    rw [heq]
    exact .inr ⟨i, rfl, rfl, rfl, hi, hseparates⟩

theorem getElem?_of_getIndex {i : Nat} (h : getIndex result xs = some i)
    : ∃ x, xs[i]? = some x ∧ result x = 0 := by
  rcases search_spec result xs with ⟨j, -, hindex, -, hfound⟩ | ⟨j, -, hindex, -⟩
  . rw [hindex] at h
    injection h with h
    rw [← h]
    unfold BinarySearch.Found at hfound
    rwa [List.getElem?_map, Option.map_eq_some_iff] at hfound
  . rw [hindex] at h
    cases h

theorem insertPlace_le (result : α → Int) (xs : List α) : insertPlace result xs ≤ xs.length := by
  rcases search_spec result xs with ⟨i, -, -, hplace, hfound⟩ | ⟨i, -, -, hplace, hi, -⟩
  . rw [hplace]
    exact hfound.lt.le
  . rwa [hplace]

theorem insert_perm (f : α → α → Int) (xs : List α) (p : α) : (insert f xs p).Perm (p :: xs) :=
  List.perm_insertIdx p xs (insertPlace_le (f · p) xs)

theorem getIndex_eq_none_iff (hordered : BinarySearch.Ordered (xs.map result))
    : getIndex result xs = none ↔ ∀ x ∈ xs, result x ≠ 0 := by
  rcases search_spec result xs with ⟨i, -, hindex, -, hfound⟩ | ⟨i, -, hindex, -, -, hseparates⟩
  . rw [hindex]
    unfold BinarySearch.Found at hfound
    rw [List.getElem?_map, Option.map_eq_some_iff] at hfound
    obtain ⟨x, hx, hzero⟩ := hfound
    exact iff_of_false nofun fun hall => hall x (List.mem_of_getElem? hx) hzero
  . refine iff_of_true hindex fun x hx hzero => ?_
    obtain ⟨j, hj⟩ := List.mem_iff_getElem?.1 hx
    have hresult : (xs.map result)[j]? = some 0 := by rw [List.getElem?_map, hj, ← hzero]; rfl
    rcases Nat.lt_or_ge j i with hlt | hge
    . have := (hseparates hordered).below j hlt 0 hresult
      omega
    . have := (hseparates hordered).above j hge 0 hresult
      omega

theorem sorted_insert (hpreorder : Compare.TotalPreorder f) (hsorted : Compare.Sorted f xs) (p : α)
    : Compare.Sorted f (insert f xs p) := by
  unfold insert
  rcases search_spec (f · p) xs with
    ⟨i, -, -, hplace, hfound⟩ | ⟨i, -, -, hplace, hi, hseparates⟩
  . rw [hplace]
    exact (hsorted.insertIdx_found hpreorder hfound).2
  . rw [hplace]
    exact hsorted.insertIdx_separates hpreorder (hseparates (hpreorder.ordered hsorted p))

theorem insertPlace_eq {i : Nat} (hi : i ≤ xs.length) (hbelow : ∀ j < i, ∀ x ∈ xs[j]?, result x < 0)
    (habove : ∀ j ≥ i, ∀ x ∈ xs[j]?, 0 < result x)
    : insertPlace result xs = i := by
  have hordered : BinarySearch.Ordered (xs.map result) := by
    unfold BinarySearch.Ordered
    rw [List.pairwise_map, List.pairwise_iff_getElem]
    intro j k hj hk hjk
    have hxj := hbelow j
    have hxk := habove k
    rw [List.getElem?_eq_getElem hj] at hxj
    rw [List.getElem?_eq_getElem hk] at hxk
    have hj' := habove j
    rw [List.getElem?_eq_getElem hj] at hj'
    have hk' := hbelow k
    rw [List.getElem?_eq_getElem hk] at hk'
    constructor
    . intro hneg
      rcases Nat.lt_or_ge j i with hlt | hge
      . exact hxj hlt _ rfl
      . have := hxk (by omega) _ rfl
        omega
    . intro hpos
      rcases Nat.lt_or_ge k i with hlt | hge
      . have := hxj (by omega) _ rfl
        omega
      . exact hxk hge _ rfl
  rcases search_spec result xs with ⟨k, -, -, hplace, hfound⟩ | ⟨k, -, -, hplace, hk, hseparates⟩
  . unfold BinarySearch.Found at hfound
    rw [List.getElem?_map, Option.map_eq_some_iff] at hfound
    obtain ⟨x, hx, hzero⟩ := hfound
    rcases Nat.lt_or_ge k i with hlt | hge
    . have := hbelow k hlt x hx
      omega
    . have := habove k hge x hx
      omega
  . rw [hplace]
    have hsep := hseparates hordered
    by_contra hne
    rcases Nat.lt_or_ge k i with hlt | hge
    . have hx := List.getElem?_eq_getElem (l := xs) (i := k) (by omega)
      have hneg := hbelow k hlt _ hx
      have hpos := hsep.above k (Nat.le_refl k) (result xs[k]) (by rw [List.getElem?_map, hx]; rfl)
      omega
    . have hx := List.getElem?_eq_getElem (l := xs) (i := i) (by omega)
      have hpos := habove i (Nat.le_refl i) _ hx
      have hneg := hsep.below i (by omega) (result xs[i]) (by rw [List.getElem?_map, hx]; rfl)
      omega

theorem mem_of_find {p : α} (h : find result xs = some p) : p ∈ xs ∧ result p = 0 := by
  obtain ⟨i, hi, hp⟩ := Option.bind_eq_some_iff.1 h
  obtain ⟨x, hx, hzero⟩ := getElem?_of_getIndex hi
  rw [hx] at hp
  injection hp with hp
  rw [← hp]
  exact ⟨List.mem_of_getElem? hx, hzero⟩

theorem find_eq_none_iff (hordered : BinarySearch.Ordered (xs.map result))
    : find result xs = none ↔ ∀ x ∈ xs, result x ≠ 0 := by
  rw [← getIndex_eq_none_iff hordered]
  unfold find
  cases hindex : getIndex result xs with
  | none => exact iff_of_true rfl rfl
  | some i =>
    obtain ⟨x, hx, -⟩ := getElem?_of_getIndex hindex
    rw [Option.bind_some, hx]
    exact iff_of_false nofun nofun

theorem remove_perm {p : α} (hordered : BinarySearch.Ordered (xs.map (f · p))) (hp : p ∈ xs)
    (hself : f p p = 0) (honly : ∀ x ∈ xs, f x p = 0 → x = p)
    : (p :: remove f xs p).Perm xs := by
  unfold remove
  cases hindex : getIndex (f · p) xs with
  | none => exact absurd hself ((getIndex_eq_none_iff hordered).1 hindex p hp)
  | some i =>
    obtain ⟨x, hx, hzero⟩ := getElem?_of_getIndex hindex
    have hxp := honly x (List.mem_of_getElem? hx) hzero
    obtain ⟨hi, hget⟩ := List.getElem?_eq_some_iff.1 hx
    have hperm := List.getElem_cons_eraseIdx_perm hi
    rwa [hget, hxp] at hperm

theorem remove_sublist (f : α → α → Int) (xs : List α) (p : α) : (remove f xs p).Sublist xs := by
  unfold remove
  split
  . exact List.eraseIdx_sublist xs _
  . exact List.Sublist.refl xs

end ListItems
