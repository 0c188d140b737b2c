import Mathlib.Tactic

/-!
This module contains tables of rows and what the statements of a relational database do to them, on
tables whose primary key is given by a function.
-/

namespace Rel

variable {α κ : Type} {p q : α → Bool} {t rows : List α}

def count (p : α → Bool) (t : List α) : Nat := t.countP p

def deleteWhere (p : α → Bool) (t : List α) : List α := t.filter fun r => !p r

-- INSERT INTO t: the statement fails, and changes nothing, when a key is there already.
def insertAll [DecidableEq κ] (key : α → κ) (t : List α) : List α → Option (List α)
  | [] => some t
  | r :: rows => if t.any (fun r' => key r' = key r) then none else insertAll key (t ++ [r]) rows

def insertFree [DecidableEq κ] (key : α → κ) (row : Int → α) : Nat → Int → List α → List α
  | 0, _, t => t
  | fuel + 1, ts, t =>
    match insertAll key t [row ts] with
    | some t => t
    | none => insertFree key row fuel (ts + 1) t

theorem count_eq_zero : count p t = 0 ↔ ∀ r ∈ t, p r = false := by
  unfold count
  rw [List.countP_eq_zero]
  exact forall₂_congr fun _ _ => Bool.eq_false_iff.symm

theorem count_pos : 0 < count p t ↔ ∃ r ∈ t, p r = true := List.countP_pos_iff

theorem count_append (p : α → Bool) (t rows : List α) : count p (t ++ rows) = count p t + count p rows :=
  List.countP_append

theorem count_map {β : Type} (p : α → Bool) (f : β → α) (rows : List β)
    : count p (rows.map f) = count (fun r => p (f r)) rows :=
  List.countP_map

theorem count_filter (p q : α → Bool) (t : List α)
    : count p (t.filter q) = count (fun r => p r && q r) t :=
  List.countP_filter

theorem count_congr (h : ∀ r ∈ t, p r = q r) : count p t = count q t :=
  List.countP_congr fun r hr => by rw [h r hr]

theorem count_deleteWhere (p q : α → Bool) (t : List α)
    : count p (deleteWhere q t) + count (fun r => p r && q r) t = count p t := by
  induction t with
  | nil => rfl
  | cons r t ih =>
    unfold count deleteWhere at *
    cases hp : p r with
    | false =>
      cases hq : q r with
      | false => simp [hp, hq, ih]
      | true => simp [hp, hq, ih]
    | true =>
      cases hq : q r with
      | false =>
        simp [hp, hq]
        omega
      | true =>
        simp [hp, hq]
        omega

theorem deleteWhere_eq_self (h : ∀ r ∈ t, p r = false) : deleteWhere p t = t := by
  unfold deleteWhere
  rw [List.filter_eq_self]
  intro r hr
  rw [h r hr]
  rfl

theorem mem_deleteWhere {r : α} : r ∈ deleteWhere p t ↔ r ∈ t ∧ p r = false := by
  unfold deleteWhere
  rw [List.mem_filter, Bool.not_eq_true']

theorem length_deleteWhere_le (p : α → Bool) (t : List α) : (deleteWhere p t).length ≤ t.length :=
  List.length_filter_le _ t

section Insert

variable [DecidableEq κ] {key : α → κ}

theorem insertAll_eq {t' : List α} (h : insertAll key t rows = some t') : t' = t ++ rows := by
  induction rows generalizing t with
  | nil =>
    injection h with h
    rw [List.append_nil, h]
  | cons r rows ih =>
    unfold insertAll at h
    split at h
    . cases h
    . rw [ih h, List.append_assoc]
      rfl

theorem insertAll_singleton_eq_none {r : α} (h : insertAll key t [r] = none)
    : key r ∈ t.map key := by
  unfold insertAll at h
  split at h
  . rename_i hany
    obtain ⟨r', hr', heq⟩ := List.any_eq_true.1 hany
    rw [decide_eq_true_iff] at heq
    rw [← heq]
    exact List.mem_map_of_mem hr'
  . cases h

theorem insertFree_cases (key : α → κ) (row : Int → α) (fuel : Nat) (ts : Int) (t : List α)
    : (∃ ts', insertFree key row fuel ts t = t ++ [row ts']) ∨
      ∀ i < fuel, key (row (ts + (i : Nat))) ∈ t.map key := by
  induction fuel generalizing ts with
  | zero => exact Or.inr (by intro i hi; cases hi)
  | succ fuel ih =>
    unfold insertFree
    split
    . rename_i heq
      exact Or.inl ⟨ts, insertAll_eq heq⟩
    . rename_i hnone
      rcases ih (ts + 1) with hfree | htaken
      . exact Or.inl hfree
      . right
        intro i hi
        cases i with
        | zero =>
          rw [Nat.cast_zero, add_zero]
          exact insertAll_singleton_eq_none hnone
        | succ i =>
          have := htaken i (by omega)
          rw [Nat.cast_succ, add_comm (i : Int), ← add_assoc]
          exact this

theorem insertFree_eq {row : Int → α} (hrow : Function.Injective fun ts => key (row ts)) {fuel : Nat}
    (hfuel : t.length < fuel) (ts : Int)
    : ∃ ts', insertFree key row fuel ts t = t ++ [row ts'] := by
  rcases insertFree_cases key row fuel ts t with hfree | htaken
  . exact hfree
  . have hnodup : ((List.range fuel).map fun i : Nat => key (row (ts + i))).Nodup := by
      apply List.nodup_range.map
      intro i j hij
      have := hrow hij
      omega
    have hsub : ((List.range fuel).map fun i : Nat => key (row (ts + i))) ⊆ t.map key := by
      intro k hk
      obtain ⟨i, hi, rfl⟩ := List.mem_map.1 hk
      exact htaken i (List.mem_range.1 hi)
    have := (hnodup.subperm hsub).length_le
    rw [List.length_map, List.length_map, List.length_range] at this
    omega

end Insert

def first (key : α → Int) : List α → Option α
  | [] => none
  | r :: t =>
    match first key t with
    | none => some r
    | some r' => if key r' < key r then some r' else some r

section First

variable {key : α → Int} {l : List α} {r : α}

theorem first_eq_none : first key t = none ↔ t = [] := by
  cases t with
  | nil => exact ⟨fun _ => rfl, fun _ => rfl⟩
  | cons r t =>
    refine iff_of_false ?_ (List.cons_ne_nil r t)
    rw [first]
    split
    . exact Option.some_ne_none r
    . split <;> exact Option.some_ne_none _

theorem first_mem (h : first key t = some r) : r ∈ t := by
  induction t generalizing r with
  | nil => cases h
  | cons x t ih =>
    rw [first] at h
    split at h
    . cases h
      exact List.mem_cons_self
    next y hy =>
      split at h
      . cases h
        exact List.mem_cons_of_mem x (ih hy)
      . cases h
        exact List.mem_cons_self

theorem first_of_least (hmem : r ∈ t) (hleast : ∀ x ∈ t, x = r ∨ key r < key x) : first key t = some r := by
  induction t with
  | nil => cases hmem
  | cons x t ih =>
    have htail : ∀ y ∈ t, y = r ∨ key r < key y := fun y hy => hleast y (List.mem_cons_of_mem x hy)
    rw [first]
    by_cases hr : r ∈ t
    . rw [ih hr htail]
      dsimp only
      rcases hleast x List.mem_cons_self with rfl | hlt
      . rw [if_neg (lt_irrefl _)]
      . rw [if_pos hlt]
    . obtain rfl : r = x := (List.mem_cons.mp hmem).resolve_right hr
      cases hfirst : first key t with
      | none => rfl
      | some y =>
        dsimp only
        rw [if_neg]
        rcases htail y (first_mem hfirst) with rfl | hlt
        . exact lt_irrefl _
        . omega

theorem first_least {number : α → Nat} (h : first key t = some r)
    (hsorted : t.Pairwise fun a b => number a < number b)
    : ∀ x ∈ t, x = r ∨ key r < key x ∨ (key r = key x ∧ number r < number x) := by
  induction t generalizing r with
  | nil => cases h
  | cons y t ih =>
    obtain ⟨hy, ht⟩ := List.pairwise_cons.mp hsorted
    intro x hx
    rw [first] at h
    split at h
    next hnone =>
      cases h
      rw [first_eq_none.mp hnone] at hx
      exact .inl (List.mem_singleton.mp hx)
    next z hz =>
      have hleast := ih hz ht
      split at h
      next hlt =>
        cases h
        rcases List.mem_cons.mp hx with rfl | hx
        . exact .inr (.inl hlt)
        . exact hleast x hx
      next hle =>
        cases h
        rcases List.mem_cons.mp hx with rfl | hx
        . exact .inl rfl
        . have hnumber := hy x hx
          rcases hleast x hx with rfl | hlt | ⟨heq, _⟩
          . omega
          . omega
          . omega

theorem first_of_perm (hperm : t.Perm l) (hsorted : l.Pairwise fun a b => key a < key b)
    : first key t = l.head? := by
  cases l with
  | nil => rw [List.perm_nil.mp hperm]; rfl
  | cons r l =>
    refine first_of_least (hperm.mem_iff.mpr List.mem_cons_self) fun x hx => ?_
    rcases List.mem_cons.mp (hperm.mem_iff.mp hx) with rfl | hx
    . exact .inl rfl
    . exact .inr (List.rel_of_pairwise_cons hsorted hx)

theorem first_lt (hperm : t.Perm l) (hsorted : l.Pairwise fun a b => key a < key b) (h : first key t = some r)
    : ∀ x ∈ t, x = r ∨ key r < key x := by
  rw [first_of_perm hperm hsorted] at h
  intro x hx
  have hx := hperm.mem_iff.mp hx
  cases l with
  | nil => cases h
  | cons r' l =>
    cases h
    rcases List.mem_cons.mp hx with rfl | hx
    . exact .inl rfl
    . exact .inr (List.rel_of_pairwise_cons hsorted hx)

end First

end Rel
