import Mathlib.Tactic

/-!
This module contains binary search over places that compare as below, equal to or above what is
looked for.
-/

namespace BinarySearch

def search (probe : Int → Option Int) : Nat → Int → Int → Option (Int × Bool)
  | 0, low, _ => some (low, false)
  | n + 1, low, high =>
    if low ≤ high then
      match probe ((low + high) / 2) with
      | none => none
      | some result =>
        if result = 0 then
          some ((low + high) / 2, true)
        else if result < 0 then
          search probe n ((low + high) / 2 + 1) high
        else
          search probe n low ((low + high) / 2 - 1)
    else
      some (low, false)

def Ordered (results : List Int) : Prop :=
  results.Pairwise fun a b => (b < 0 → a < 0) ∧ (0 < a → 0 < b)

variable {probe : Int → Option Int} {results : List Int}

def Found (results : List Int) (i : Nat) : Prop := results[i]? = some 0

theorem Found.lt {α : Type*} {result : α → Int} {xs : List α} {i : Nat}
    (h : Found (xs.map result) i)
    : i < xs.length := by
  obtain ⟨hlt, -⟩ := List.getElem?_eq_some_iff.1 h
  rwa [List.length_map] at hlt

structure Separates (results : List Int) (i : Nat) : Prop where
  le : i ≤ results.length
  below : ∀ j < i, ∀ r ∈ results[j]?, r < 0
  above : ∀ j ≥ i, ∀ r ∈ results[j]?, 0 < r

theorem Ordered.below (h : Ordered results) {i j : Nat} (hij : i ≤ j) {a b : Int}
    (ha : results[i]? = some a) (hb : results[j]? = some b) (hneg : b < 0)
    : a < 0 := by
  rw [List.getElem?_eq_some_iff] at ha hb
  obtain ⟨hi, rfl⟩ := ha
  obtain ⟨hj, rfl⟩ := hb
  rcases Nat.eq_or_lt_of_le hij with rfl | hlt
  . exact hneg
  . exact (List.pairwise_iff_getElem.1 h i j hi hj hlt).1 hneg

theorem Ordered.above (h : Ordered results) {i j : Nat} (hij : i ≤ j) {a b : Int}
    (ha : results[i]? = some a) (hb : results[j]? = some b) (hpos : 0 < a)
    : 0 < b := by
  rw [List.getElem?_eq_some_iff] at ha hb
  obtain ⟨hi, rfl⟩ := ha
  obtain ⟨hj, rfl⟩ := hb
  rcases Nat.eq_or_lt_of_le hij with rfl | hlt
  . exact hpos
  . exact (List.pairwise_iff_getElem.1 h i j hi hj hlt).2 hpos

theorem search_window (hprobe : ∀ i : Nat, i < results.length → probe i = results[i]?) (n : Nat)
    : ∀ low high : Int, 0 ≤ low → low ≤ high + 1 → high < results.length → high - low + 1 < n →
        (∃ i : Nat, search probe n low high = some ((i : Int), true) ∧ Found results i) ∨
        (∃ i : Nat, search probe n low high = some ((i : Int), false) ∧ i ≤ results.length ∧
          (Ordered results → (∀ j : Nat, j < low → ∀ r ∈ results[j]?, r < 0) →
            (∀ j : Nat, high < j → ∀ r ∈ results[j]?, 0 < r) → Separates results i)) := by
  induction n with
  | zero =>
    intro low high _ _ _ hn
    omega
  | succ n ih =>
    intro low high hlow hwindow hhigh hn
    unfold search
    by_cases hle : low ≤ high
    . obtain ⟨i, hi⟩ : ∃ i : Nat, (low + high) / 2 = i := ⟨((low + high) / 2).toNat, by omega⟩
      have hlt : i < results.length := by omega
      obtain ⟨r, hr⟩ : ∃ r, results[i]? = some r := ⟨_, List.getElem?_eq_getElem hlt⟩
      rw [if_pos hle, hi, hprobe i hlt, hr]
      simp only []
      by_cases hzero : r = 0
      . rw [if_pos hzero]
        rw [hzero] at hr
        exact .inl ⟨i, rfl, hr⟩
      rw [if_neg hzero]
      by_cases hneg : r < 0
      . rw [if_pos hneg]
        rcases ih (i + 1) high (by omega) (by omega) hhigh (by omega) with hfound | hmissing
        . exact .inl hfound
        . obtain ⟨k, hsearch, hk, hseparates⟩ := hmissing
          refine .inr ⟨k, hsearch, hk, fun hordered _ habove => hseparates hordered ?_ habove⟩
          intro j hj b hb
          exact hordered.below (by omega) hb hr hneg
      . rw [if_neg hneg]
        rcases ih low (i - 1) hlow (by omega) (by omega) (by omega) with hfound | hmissing
        . exact .inl hfound
        . obtain ⟨k, hsearch, hk, hseparates⟩ := hmissing
          refine .inr ⟨k, hsearch, hk, fun hordered hbelow _ => hseparates hordered hbelow ?_⟩
          intro j hj b hb
          exact hordered.above (by omega) hr hb (by omega)
    . rw [if_neg hle]
      obtain ⟨i, rfl⟩ : ∃ i : Nat, low = i := ⟨low.toNat, by omega⟩
      refine .inr ⟨i, rfl, by omega, fun _ hbelow habove => ⟨by omega, ?_, ?_⟩⟩
      . intro j hj
        exact hbelow j (by omega)
      . intro j hj
        exact habove j (by omega)

theorem search_congr {probe probe' : Int → Option Int} (n : Nat)
    : ∀ low high : Int, (∀ i, low ≤ i → i ≤ high → probe i = probe' i) →
        search probe n low high = search probe' n low high := by
  induction n with
  | zero =>
    intro low high _
    rfl
  | succ n ih =>
    intro low high heq
    unfold search
    by_cases hle : low ≤ high
    . rw [if_pos hle, if_pos hle, heq _ (by omega) (by omega),
        ih ((low + high) / 2 + 1) high (fun i hlow hhigh => heq i (by omega) hhigh),
        ih low ((low + high) / 2 - 1) (fun i hlow hhigh => heq i hlow (by omega))]
    . rw [if_neg hle, if_neg hle]

theorem search_spec (hprobe : ∀ i : Nat, i < results.length → probe i = results[i]?)
    : (∃ i : Nat, search probe (results.length + 1) 0 (results.length - 1) = some ((i : Int), true) ∧
        Found results i) ∨
      (∃ i : Nat, search probe (results.length + 1) 0 (results.length - 1) = some ((i : Int), false) ∧
        i ≤ results.length ∧ (Ordered results → Separates results i)) := by
  rcases search_window hprobe (results.length + 1) 0 (results.length - 1) (by omega) (by omega)
    (by omega) (by omega) with hfound | ⟨i, hsearch, hi, hseparates⟩
  . exact .inl hfound
  . refine .inr ⟨i, hsearch, hi, fun hordered => hseparates hordered ?_ ?_⟩
    . intro j hj
      omega
    . intro j hj r hr
      rw [Option.mem_def, List.getElem?_eq_some_iff] at hr
      obtain ⟨hlt, -⟩ := hr
      omega

end BinarySearch
