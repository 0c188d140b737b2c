import MirandaNG.Kv.TableLemmas

/-!
This module contains the steps of a cursor over an ordered table, and what they find of an interval
of keys: a cursor that enters the interval at its border, or goes on from one of its keys, meets the
keys of the interval in order, and the first key it meets outside tells that there are no more.
-/

namespace Kv

theorem head?_filter_filter {α : Type} {r : α → α → Prop} {P p : α → Bool} {l : List α}
    (hl : l.Pairwise r) (hconv : ∀ a b, P a → r a b → p b → p a)
    : (l.filter P).head?.filter p = ((l.filter p).filter P).head? := by
  induction l with
  | nil => rfl
  | cons a l ih =>
    rw [List.pairwise_cons] at hl
    cases hP : P a with
    | false =>
      rw [List.filter_cons_of_neg (by simp [hP]), ih hl.2, List.filter_cons]
      split
      . rw [List.filter_cons_of_neg (by simp [hP])]
      . rfl
    | true =>
      rw [List.filter_cons_of_pos hP, List.head?_cons]
      cases hp : p a with
      | true =>
        rw [List.filter_cons_of_pos hp, List.filter_cons_of_pos hP, List.head?_cons,
          Option.filter_some_pos hp]
      | false =>
        have hnone : l.filter p = [] := by
          rw [List.filter_eq_nil_iff]
          intro b hb hpb
          simp [hconv a b hP (hl.1 b hb) hpb] at hp
        rw [List.filter_cons_of_neg (by simp [hp]), hnone, Option.filter_some_neg (by simp [hp])]
        rfl

theorem getLast?_filter_filter {α : Type} {r : α → α → Prop} {P p : α → Bool} {l : List α}
    (hl : l.Pairwise r) (hconv : ∀ a b, P a → r b a → p b → p a)
    : (l.filter P).getLast?.filter p = ((l.filter p).filter P).getLast? := by
  simp only [← List.head?_reverse, ← List.filter_reverse]
  apply head?_filter_filter (List.pairwise_reverse.2 hl) hconv

namespace Table

variable {κ : Type} {ν : Type} [LinearOrder κ]

def first? (t : Table κ ν) (k : κ) : Option κ :=
  (t.seek k).head?.map Prod.fst

def next? (t : Table κ ν) (k : κ) : Option κ :=
  (t.keys.filter (k < ·)).head?

def prev? (t : Table κ ν) (k : κ) : Option κ :=
  (t.keys.filter (· < k)).getLast?

theorem keys_sorted (t : Table κ ν) : t.keys.Pairwise (· < ·) :=
  List.pairwise_map.2 t.sorted

theorem mem_keys {t : Table κ ν} {k : κ} : k ∈ t.keys ↔ k ∈ t := by
  rw [mem_iff_entries]
  unfold keys
  simp

theorem seek_eq_filter (t : Table κ ν) (k : κ) : t.seek k = t.entries.filter (k ≤ ·.1) := by
  apply (t.sorted.sublist (List.dropWhile_sublist _)).eq_of_mem_iff (t.sorted.filter _)
  intro a
  rw [List.mem_filter, decide_eq_true_eq]
  exact mem_seek

theorem first?_eq (t : Table κ ν) (k : κ) : t.first? k = (t.keys.filter (k ≤ ·)).head? := by
  unfold first? keys
  rw [seek_eq_filter, List.filter_map, List.head?_map]
  rfl

theorem last?_eq (t : Table κ ν) : t.last?.map Prod.fst = t.keys.getLast? := by
  unfold last? keys
  rw [List.getLast?_map]

theorem first?_mem {t : Table κ ν} {k k' : κ} (h : t.first? k = some k') : k' ∈ t := by
  rw [first?_eq] at h
  exact mem_keys.1 (List.mem_filter.1 (List.mem_of_mem_head? h)).1

theorem next?_mem {t : Table κ ν} {k k' : κ} (h : t.next? k = some k') : k' ∈ t :=
  mem_keys.1 (List.mem_filter.1 (List.mem_of_mem_head? h)).1

theorem prev?_mem {t : Table κ ν} {k k' : κ} (h : t.prev? k = some k') : k' ∈ t :=
  mem_keys.1 (List.mem_filter.1 (List.mem_of_getLast? h)).1

theorem prev?_of_first? {t : Table κ ν} {k k' : κ} (h : t.first? k = some k') : t.prev? k' = t.prev? k := by
  rw [first?_eq] at h
  have hle : k ≤ k' := by
    have := List.mem_of_mem_head? h
    simpa using (List.mem_filter.1 this).2
  unfold prev?
  congr 1
  apply List.filter_congr
  intro a ha
  rw [decide_eq_decide]
  constructor
  . intro hlt
    by_contra hge
    have hmem : a ∈ t.keys.filter (k ≤ ·) := List.mem_filter.2 ⟨ha, by simpa using hge⟩
    rcases List.head?_eq_some_iff.1 h with ⟨l, hl⟩
    have hs := t.keys_sorted.filter (k ≤ ·)
    rw [hl] at hmem hs
    rcases List.mem_cons.1 hmem with rfl | hmem
    . exact lt_irrefl _ hlt
    . exact lt_asymm hlt ((List.pairwise_cons.1 hs).1 a hmem)
  . intro hlt
    exact lt_of_lt_of_le hlt hle

theorem last?_of_first? {t : Table κ ν} {k : κ} (h : t.first? k = none) : t.last?.map Prod.fst = t.prev? k := by
  rw [first?_eq, List.head?_eq_none_iff, List.filter_eq_nil_iff] at h
  rw [last?_eq]
  unfold prev?
  rw [List.filter_eq_self.2]
  intro a ha
  simpa using h a ha

section Interval

variable {t : Table κ ν} {k : κ} {p : κ → Bool} {l₁ l₂ : List κ}
variable (hconv : ∀ a b c, a ≤ b → b ≤ c → p a → p c → p b)

include hconv

theorem first?_filter (hp : p k) (hge : ∀ a, p a → k ≤ a)
    : (t.first? k).filter p = (t.keys.filter p).head? := by
  rw [first?_eq, head?_filter_filter t.keys_sorted]
  . rw [List.filter_eq_self.2]
    intro a ha
    simpa using hge a (List.mem_filter.1 ha).2
  . intro a b ha hab hb
    exact hconv k a b (by simpa using ha) hab.le hp hb

theorem prev?_filter_of_lt (hp : p k) (hlt : ∀ a ∈ t, p a → a < k)
    : (t.prev? k).filter p = (t.keys.filter p).getLast? := by
  unfold prev?
  rw [getLast?_filter_filter t.keys_sorted]
  . rw [List.filter_eq_self.2]
    intro a ha
    rcases List.mem_filter.1 ha with ⟨hmem, hpa⟩
    simpa using hlt a (mem_keys.1 hmem) hpa
  . intro a b ha hab hb
    exact hconv b a k hab.le (by simpa using le_of_lt (of_decide_eq_true ha)) hb hp

theorem next?_filter (h : t.keys.filter p = l₁ ++ k :: l₂) : (t.next? k).filter p = l₂.head? := by
  have hp : p k := (List.mem_filter.1 (h ▸ List.mem_append_right l₁ List.mem_cons_self)).2
  have hs := t.keys_sorted.filter p
  rw [h, List.pairwise_append, List.pairwise_cons] at hs
  unfold next?
  rw [head?_filter_filter t.keys_sorted, h, List.filter_append, List.filter_cons_of_neg (by simp)]
  . have hbefore : l₁.filter (k < ·) = [] := by
      rw [List.filter_eq_nil_iff]
      intro a ha
      simpa using (hs.2.2 a ha k List.mem_cons_self).le
    have hbehind : l₂.filter (k < ·) = l₂ := by
      rw [List.filter_eq_self]
      simpa using hs.2.1.1
    rw [hbefore, hbehind, List.nil_append]
  . intro a b ha hab hb
    exact hconv k a b (le_of_lt (of_decide_eq_true ha)) hab.le hp hb

theorem prev?_filter (h : t.keys.filter p = l₁ ++ k :: l₂) : (t.prev? k).filter p = l₁.getLast? := by
  have hp : p k := (List.mem_filter.1 (h ▸ List.mem_append_right l₁ List.mem_cons_self)).2
  have hs := t.keys_sorted.filter p
  rw [h, List.pairwise_append, List.pairwise_cons] at hs
  unfold prev?
  rw [getLast?_filter_filter t.keys_sorted, h, List.filter_append, List.filter_cons_of_neg (by simp)]
  . have hbefore : l₁.filter (· < k) = l₁ := by
      rw [List.filter_eq_self]
      intro a ha
      simpa using hs.2.2 a ha k List.mem_cons_self
    have hbehind : l₂.filter (· < k) = [] := by
      rw [List.filter_eq_nil_iff]
      intro a ha
      simpa using (hs.2.1.1 a ha).le
    rw [hbefore, hbehind, List.append_nil]
  . intro a b ha hab hb
    exact hconv b a k hab.le (le_of_lt (of_decide_eq_true ha)) hb hp

end Interval

end Table
end Kv
