import Mathlib.Tactic
import Mathlib.Data.List.Basic

/-!
This module contains streams of records, where every record is ended by one end mark or several, and how
they are split when they come piece by piece.
-/

namespace Records

variable {α : Type} {isEnd : α → Bool} {acc xs ys body ends : List α}

/--
The finished records but for the empty ones, and what there is of the next one. `acc` is what there was of
it before.
-/
def split (isEnd : α → Bool) (acc : List α) : List α → List (List α) × List α
  | [] => ([], acc)
  | c :: cs =>
    if isEnd c then
      let r := split isEnd [] cs
      (if acc.isEmpty then r.1 else acc :: r.1, r.2)
    else
      split isEnd (acc ++ [c]) cs

theorem split_cons_end {c : α} (h : isEnd c = true) (acc xs : List α)
    : split isEnd acc (c :: xs) =
        (if acc.isEmpty then (split isEnd [] xs).1 else acc :: (split isEnd [] xs).1, (split isEnd [] xs).2) :=
  if_pos h

theorem split_cons_of_not_end {c : α} (h : isEnd c = false) (acc xs : List α)
    : split isEnd acc (c :: xs) = split isEnd (acc ++ [c]) xs :=
  if_neg (Bool.eq_false_iff.1 h)

theorem split_append (acc xs ys : List α)
    : split isEnd acc (xs ++ ys) =
        ((split isEnd acc xs).1 ++ (split isEnd (split isEnd acc xs).2 ys).1,
          (split isEnd (split isEnd acc xs).2 ys).2) := by
  induction xs generalizing acc with
  | nil => rfl
  | cons c xs ih =>
    rw [List.cons_append]
    cases hc : isEnd c with
    | true =>
      rw [split_cons_end hc, split_cons_end hc, ih]
      cases acc with
      | nil => rfl
      | cons a acc => rfl
    | false => rw [split_cons_of_not_end hc, split_cons_of_not_end hc, ih]

theorem split_of_not_end (h : ∀ c ∈ xs, isEnd c = false) (acc : List α) : split isEnd acc xs = ([], acc ++ xs) := by
  induction xs generalizing acc with
  | nil => rw [List.append_nil, split]
  | cons c xs ih =>
    rw [List.forall_mem_cons] at h
    rw [split_cons_of_not_end h.1, ih h.2, List.append_assoc, List.singleton_append]

theorem split_nil_ends (h : ∀ c ∈ ends, isEnd c = true) : split isEnd [] ends = ([], []) := by
  induction ends with
  | nil => rfl
  | cons c ends ih =>
    rw [List.forall_mem_cons] at h
    rw [split_cons_end h.1, ih h.2]
    rfl

theorem split_ends (hne : ends ≠ []) (h : ∀ c ∈ ends, isEnd c = true) (acc : List α)
    : split isEnd acc ends = (if acc.isEmpty then [] else [acc], []) := by
  obtain ⟨c, rest, rfl⟩ := List.exists_cons_of_ne_nil hne
  rw [List.forall_mem_cons] at h
  rw [split_cons_end h.1, split_nil_ends h.2]

theorem split_record (hbody : ∀ c ∈ body, isEnd c = false) (hne : ends ≠ []) (hends : ∀ c ∈ ends, isEnd c = true)
    : split isEnd [] (body ++ ends) = (if body.isEmpty then [] else [body], []) := by
  rw [split_append, split_of_not_end hbody]
  exact split_ends hne hends _

theorem split_snd_not_end (hacc : ∀ c ∈ acc, isEnd c = false) : ∀ c ∈ (split isEnd acc xs).2, isEnd c = false := by
  induction xs generalizing acc with
  | nil => exact hacc
  | cons c xs ih =>
    cases hc : isEnd c with
    | true =>
      rw [split_cons_end hc]
      exact ih nofun
    | false =>
      rw [split_cons_of_not_end hc]
      exact ih (List.forall_mem_append.2 ⟨hacc, List.forall_mem_singleton.2 hc⟩)

theorem split_kept (xs ys : List α) : split isEnd [] ((split isEnd [] xs).2 ++ ys) = split isEnd (split isEnd [] xs).2 ys := by
  rw [split_append, split_of_not_end (split_snd_not_end nofun)]
  rfl

theorem split_snd_subset (acc xs : List α) : (split isEnd acc xs).2 ⊆ acc ++ xs := by
  induction xs generalizing acc with
  | nil => exact List.subset_append_left _ _
  | cons c xs ih =>
    intro a ha
    cases hc : isEnd c with
    | true =>
      rw [split_cons_end hc] at ha
      exact List.mem_append_right _ (List.mem_cons_of_mem _ (ih [] ha))
    | false =>
      rw [split_cons_of_not_end hc] at ha
      have hmem := ih _ ha
      rwa [List.append_assoc] at hmem

theorem split_flatten (records : List (List α × List α))
    (h : ∀ r ∈ records, (∀ c ∈ r.1, isEnd c = false) ∧ r.2 ≠ [] ∧ ∀ c ∈ r.2, isEnd c = true)
    : split isEnd [] (records.flatMap fun r => r.1 ++ r.2) = ((records.map Prod.fst).filter (¬ ·.isEmpty), []) := by
  induction records with
  | nil => rfl
  | cons r records ih =>
    rw [List.forall_mem_cons] at h
    rw [List.flatMap_cons, split_append, split_record h.1.1 h.1.2.1 h.1.2.2, ih h.2, List.map_cons, List.filter_cons]
    cases r.1 with
    | nil => rfl
    | cons c body => rfl

theorem length_split_snd_le {n : Nat} {records : List (List α × List α)}
    (h : ∀ r ∈ records, (∀ c ∈ r.1, isEnd c = false) ∧ r.2 ≠ [] ∧ ∀ c ∈ r.2, isEnd c = true)
    (hn : ∀ r ∈ records, r.1.length ≤ n) (hpre : xs <+: records.flatMap fun r => r.1 ++ r.2)
    : (split isEnd [] xs).2.length ≤ n := by
  induction records generalizing xs with
  | nil =>
    rw [List.prefix_nil.1 hpre]
    exact Nat.zero_le n
  | cons r records ih =>
    rw [List.forall_mem_cons] at h hn
    obtain ⟨t, ht⟩ := hpre
    rw [List.flatMap_cons] at ht
    rcases List.append_eq_append_iff.1 ht with ⟨rest, hr, -⟩ | ⟨ys, rfl, hys⟩
    . rcases List.append_eq_append_iff.1 hr.symm with ⟨cs, hcs, -⟩ | ⟨ends, rfl, hends⟩
      . have hxs : ∀ c ∈ xs, isEnd c = false := by
          intro c hc
          exact h.1.1 c (hcs ▸ List.mem_append_left _ hc)
        have hle : xs.length ≤ r.1.length := List.IsPrefix.length_le ⟨cs, hcs.symm⟩
        rw [split_of_not_end hxs]
        exact hle.trans hn.1
      . rw [split_append, split_of_not_end h.1.1]
        cases ends with
        | nil => exact hn.1
        | cons c ends =>
          have hends : ∀ c' ∈ c :: ends, isEnd c' = true := by
            intro c' hc'
            exact h.1.2.2 c' (hends ▸ List.mem_append_left _ hc')
          rw [split_ends (List.cons_ne_nil _ _) hends]
          exact Nat.zero_le n
    . rw [split_append, split_record h.1.1 h.1.2.1 h.1.2.2]
      exact ih h.2 hn.2 ⟨t, hys.symm⟩

end Records
