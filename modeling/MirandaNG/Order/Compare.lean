import MirandaNG.Order.BinarySearch

/-!
This module contains comparison functions that return a negative number, zero or a positive number,
and the lists that are sorted by them.
-/

namespace Compare

variable {α : Type*} {f : α → α → Int} {xs : List α} {p : α}

structure TotalPreorder (f : α → α → Int) : Prop where
  flip : ∀ x y, f x y < 0 ↔ 0 < f y x
  trans : ∀ x y z, f x y ≤ 0 → f y z ≤ 0 → f x z ≤ 0

def Sorted (f : α → α → Int) (xs : List α) : Prop := xs.Pairwise fun x y => f x y ≤ 0

namespace TotalPreorder

theorem le_iff (h : TotalPreorder f) (x y : α) : f x y ≤ 0 ↔ 0 ≤ f y x := by
  have := h.flip y x
  omega

theorem self (h : TotalPreorder f) (x : α) : f x x = 0 := by
  have := h.flip x x
  omega

theorem ordered (h : TotalPreorder f) (hxs : Sorted f xs) (p : α)
    : BinarySearch.Ordered (xs.map (f · p)) := by
  unfold BinarySearch.Ordered
  rw [List.pairwise_map]
  apply hxs.imp
  intro x y hxy
  constructor
  . intro hneg
    by_contra hx
    have hyx := h.trans p x y ((h.le_iff p x).2 (by omega)) hxy
    have := h.flip y p
    omega
  . intro hpos
    by_contra hy
    have hxp := h.trans x y p hxy (by omega)
    omega

end TotalPreorder

def ofOrder [LinearOrder α] (x y : α) : Int := if x < y then -1 else if x = y then 0 else 1

theorem ofOrder_eq_zero [LinearOrder α] {x y : α} : ofOrder x y = 0 ↔ x = y := by
  unfold ofOrder
  split
  . next hlt => exact iff_of_false (by decide) hlt.ne
  . split
    . next heq => exact iff_of_true rfl heq
    . next hne => exact iff_of_false (by decide) hne

theorem ofOrder_le_zero [LinearOrder α] {x y : α} : ofOrder x y ≤ 0 ↔ x ≤ y := by
  unfold ofOrder
  split
  . next hlt => exact iff_of_true (by decide) hlt.le
  . next hge =>
    split
    . next heq => exact iff_of_true (by decide) heq.le
    . next hne => exact iff_of_false (by decide) fun hle => hge (lt_of_le_of_ne hle hne)

theorem ofOrder_neg [LinearOrder α] {x y : α} : ofOrder x y < 0 ↔ x < y := by
  unfold ofOrder
  split
  . next hlt => exact iff_of_true (by decide) hlt
  . next hge =>
    split
    . exact iff_of_false (by decide) hge
    . exact iff_of_false (by decide) hge

theorem TotalPreorder.ofOrder [LinearOrder α] : TotalPreorder (@Compare.ofOrder α _) where
  flip := by
    intro x y
    rw [ofOrder_neg, ← not_le, ← not_le, ofOrder_le_zero]
  trans := by
    intro x y z
    rw [ofOrder_le_zero, ofOrder_le_zero, ofOrder_le_zero]
    exact le_trans

theorem TotalPreorder.comap {β : Type*} {f : β → β → Int} (h : TotalPreorder f) (key : α → β)
    : TotalPreorder fun x y => f (key x) (key y) where
  flip x y := h.flip (key x) (key y)
  trans x y z := h.trans (key x) (key y) (key z)

theorem TotalPreorder.lex (h : TotalPreorder f) (rank : α → Int)
    : TotalPreorder fun x y => if rank x ≠ rank y then rank x - rank y else f x y where
  flip := by
    intro x y
    have := h.flip x y
    split
    . split
      . omega
      . omega
    . split
      . omega
      . omega
  trans := by
    intro x y z
    have := h.trans x y z
    split
    . split
      . split
        . omega
        . omega
      . split
        . omega
        . omega
    . split
      . split
        . omega
        . omega
      . split
        . omega
        . assumption

theorem insertIdx_eq_append {i : Nat} (hi : i ≤ xs.length) (x : α)
    : xs.insertIdx i x = xs.take i ++ x :: xs.drop i := by
  induction xs generalizing i with
  | nil =>
    rw [Nat.le_zero.1 hi]
    rfl
  | cons y xs ih =>
    cases i with
    | zero => rfl
    | succ i => rw [List.insertIdx_succ_cons, ih (Nat.le_of_succ_le_succ hi)]; rfl

theorem Sorted.insertIdx (hxs : Sorted f xs) {i : Nat} (hi : i ≤ xs.length)
    (hbelow : ∀ x ∈ xs.take i, f x p ≤ 0) (habove : ∀ x ∈ xs.drop i, f p x ≤ 0)
    : Sorted f (xs.insertIdx i p) := by
  have hsplit : Sorted f (xs.take i ++ xs.drop i) := by rwa [List.take_append_drop]
  obtain ⟨htake, hdrop, hcross⟩ := List.pairwise_append.1 hsplit
  unfold Sorted
  rw [insertIdx_eq_append hi, List.pairwise_append, List.pairwise_cons]
  refine ⟨htake, ⟨habove, hdrop⟩, ?_⟩
  intro x hx y hy
  rcases List.mem_cons.1 hy with rfl | hy
  . exact hbelow x hx
  . exact hcross x hx y hy

theorem mem_take_getElem? {i : Nat} {x : α} (h : x ∈ xs.take i) : ∃ j < i, xs[j]? = some x := by
  obtain ⟨j, hj⟩ := List.mem_iff_getElem?.1 h
  rw [List.getElem?_take] at hj
  split at hj
  . next hlt => exact ⟨j, hlt, hj⟩
  . cases hj

theorem mem_drop_getElem? {i : Nat} {x : α} (h : x ∈ xs.drop i) : ∃ j ≥ i, xs[j]? = some x := by
  obtain ⟨j, hj⟩ := List.mem_iff_getElem?.1 h
  rw [List.getElem?_drop] at hj
  exact ⟨i + j, Nat.le_add_right i j, hj⟩

theorem Sorted.getElem?_le (h : TotalPreorder f) (hxs : Sorted f xs) {i j : Nat} (hij : i ≤ j) {x y : α}
    (hx : xs[i]? = some x) (hy : xs[j]? = some y)
    : f x y ≤ 0 := by
  rw [List.getElem?_eq_some_iff] at hx hy
  obtain ⟨hi, rfl⟩ := hx
  obtain ⟨hj, rfl⟩ := hy
  rcases Nat.eq_or_lt_of_le hij with rfl | hlt
  . rw [h.self]
  . exact List.pairwise_iff_getElem.1 hxs i j hi hj hlt

theorem Sorted.insertIdx_found (h : TotalPreorder f) (hxs : Sorted f xs) {i : Nat}
    (hfound : BinarySearch.Found (xs.map (f · p)) i)
    : i ≤ xs.length ∧ Sorted f (xs.insertIdx i p) := by
  unfold BinarySearch.Found at hfound
  rw [List.getElem?_map, Option.map_eq_some_iff] at hfound
  obtain ⟨y, hy, hyp⟩ := hfound
  have hi : i < xs.length := (List.getElem?_eq_some_iff.1 hy).1
  refine ⟨hi.le, hxs.insertIdx hi.le ?_ ?_⟩
  . intro x hx
    obtain ⟨j, hj, hx⟩ := mem_take_getElem? hx
    exact h.trans x y p (hxs.getElem?_le h hj.le hx hy) hyp.le
  . intro x hx
    obtain ⟨j, hj, hx⟩ := mem_drop_getElem? hx
    exact h.trans p y x ((h.le_iff p y).2 hyp.ge) (hxs.getElem?_le h hj hy hx)

theorem Sorted.insertIdx_separates (h : TotalPreorder f) (hxs : Sorted f xs) {i : Nat}
    (hseparates : BinarySearch.Separates (xs.map (f · p)) i)
    : Sorted f (xs.insertIdx i p) := by
  have hi := hseparates.le
  rw [List.length_map] at hi
  refine hxs.insertIdx hi ?_ ?_
  . intro x hx
    obtain ⟨j, hj, hx⟩ := mem_take_getElem? hx
    exact (hseparates.below j hj (f x p) (by rw [List.getElem?_map, hx]; rfl)).le
  . intro x hx
    obtain ⟨j, hj, hx⟩ := mem_drop_getElem? hx
    have hpos := hseparates.above j hj (f x p) (by rw [List.getElem?_map, hx]; rfl)
    exact (h.le_iff p x).2 hpos.le

theorem Sorted.eraseIdx (hxs : Sorted f xs) (i : Nat) : Sorted f (xs.eraseIdx i) :=
  List.Pairwise.sublist (List.eraseIdx_sublist xs i) hxs

end Compare
