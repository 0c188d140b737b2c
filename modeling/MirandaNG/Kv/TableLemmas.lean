import MirandaNG.Kv.Table
import Mathlib.Data.List.TakeWhile

/-!
This module contains the theory of ordered tables: what the keyed operations do to a lookup, to the
number of records with a property of their key, to the sum of a value over the records, and what a cursor
visits; and that of a secondary index that is kept by hand.
-/

namespace Kv
namespace Table

variable {κ : Type} {ν : Type} [LinearOrder κ]

theorem ext_entries {t u : Table κ ν} (h : t.entries = u.entries) : t = u := by
  cases t
  cases u
  simpa using h

theorem mem_def {t : Table κ ν} {k : κ} : k ∈ t ↔ (t.get? k).isSome := Iff.rfl

theorem mem_iff_exists {t : Table κ ν} {k : κ} : k ∈ t ↔ ∃ v, t.get? k = some v := by
  rw [mem_def, Option.isSome_iff_exists]

theorem notMem_iff {t : Table κ ν} {k : κ} : k ∉ t ↔ t.get? k = none := by
  rw [mem_def]
  simp

theorem find_eq_some_iff {k : κ} {v : ν} {l : List (κ × ν)}
    (h : l.Pairwise (fun a b => a.1 < b.1))
    : find k l = some v ↔ (k, v) ∈ l := by
  induction l with
  | nil => simp [find]
  | cons a l ih =>
    rcases a with ⟨k', v'⟩
    rw [List.pairwise_cons] at h
    simp only [find]
    split
    . next heq =>
      subst heq
      have hnot : (k, v) ∉ l := fun hmem => lt_irrefl k (h.1 _ hmem)
      simp [hnot, eq_comm]
    . next hne =>
      rw [ih h.2]
      simp [hne]

theorem get?_eq_some_iff {t : Table κ ν} {k : κ} {v : ν}
    : t.get? k = some v ↔ (k, v) ∈ t.entries := by
  apply find_eq_some_iff
  exact t.sorted

theorem mem_iff_entries {t : Table κ ν} {k : κ} : k ∈ t ↔ ∃ v, (k, v) ∈ t.entries := by
  rw [mem_iff_exists]
  simp only [get?_eq_some_iff]

theorem mem_of_entries {t : Table κ ν} {a : κ × ν} (h : a ∈ t.entries) : a.1 ∈ t := by
  rw [mem_iff_entries]
  exact ⟨a.2, h⟩

theorem find_insert (k k' : κ) (v : ν) (l : List (κ × ν))
    : find k' (insert k v l) = if k' = k then some v else find k' l := by
  induction l with
  | nil => simp [insert, find]
  | cons a l ih =>
    rcases a with ⟨k₁, v₁⟩
    simp only [insert]
    split
    . simp [find]
    . split
      . next heq =>
        subst heq
        by_cases h : k' = k
        . simp [find, h]
        . simp [find, h]
      . next hne =>
        by_cases h : k' = k₁
        . have : k' ≠ k := fun e => hne (e ▸ h)
          simp only [find, h, ↓reduceIte]
          simp [Ne.symm hne]
        . simp only [find, h, ↓reduceIte]
          rw [ih]

@[simp]
theorem get?_empty (k : κ) : (empty : Table κ ν).get? k = none := rfl

theorem get?_put (t : Table κ ν) (k k' : κ) (v : ν)
    : (t.put k v).get? k' = if k' = k then some v else t.get? k' := by
  apply find_insert

@[simp]
theorem get?_put_self (t : Table κ ν) (k : κ) (v : ν) : (t.put k v).get? k = some v := by
  simp [get?_put]

theorem get?_put_ne (t : Table κ ν) {k k' : κ} (v : ν) (h : k' ≠ k)
    : (t.put k v).get? k' = t.get? k' := by
  simp [get?_put, h]

theorem mem_put {t : Table κ ν} {k k' : κ} {v : ν} : k' ∈ t.put k v ↔ k' = k ∨ k' ∈ t := by
  rw [mem_def, mem_def, get?_put]
  split <;> simp [*]

theorem find_filter_ne (k k' : κ) (l : List (κ × ν))
    : find k' (l.filter (fun a => a.1 ≠ k)) = if k' = k then none else find k' l := by
  induction l with
  | nil => simp [find]
  | cons a l ih =>
    rcases a with ⟨k₁, v₁⟩
    by_cases h : k₁ = k
    . subst h
      rw [List.filter_cons_of_neg (by simp), ih]
      by_cases h' : k' = k₁
      . simp [h']
      . simp [find, h']
    . rw [List.filter_cons_of_pos (by simpa using h)]
      by_cases h' : k' = k₁
      . subst h'
        simp [find, h]
      . simp only [find, h', ↓reduceIte]
        rw [ih]

theorem get?_del (t : Table κ ν) (k k' : κ)
    : (t.del k).get? k' = if k' = k then none else t.get? k' := by
  apply find_filter_ne

theorem get?_del_ne (t : Table κ ν) {k k' : κ} (h : k' ≠ k)
    : (t.del k).get? k' = t.get? k' := by
  simp [get?_del, h]

theorem mem_del {t : Table κ ν} {k k' : κ} : k' ∈ t.del k ↔ k' ≠ k ∧ k' ∈ t := by
  rw [mem_def, mem_def, get?_del]
  split <;> simp [*]

theorem get?_modify (t : Table κ ν) (k k' : κ) (f : ν → ν)
    : (t.modify k f).get? k' = if k' = k then (t.get? k).map f else t.get? k' := by
  unfold modify
  split
  . next v hv => simp [get?_put, hv]
  . next hv =>
    split
    . next heq => simp [heq, hv]
    . rfl

theorem mem_modify {t : Table κ ν} {k k' : κ} {f : ν → ν} : k' ∈ t.modify k f ↔ k' ∈ t := by
  rw [mem_def, mem_def, get?_modify]
  split <;> simp [*]

theorem find_mapValues {μ : Type} (k : κ) (f : κ → ν → μ) (l : List (κ × ν))
    : find k (l.map (fun a => (a.1, f a.1 a.2))) = (find k l).map (f k) := by
  induction l with
  | nil => simp [find]
  | cons a l ih =>
    rcases a with ⟨k', v'⟩
    simp only [List.map_cons, find]
    split
    . next heq => simp [heq]
    . exact ih

theorem get?_mapValues {μ : Type} (t : Table κ ν) (k : κ) (f : κ → ν → μ)
    : (t.mapValues f).get? k = (t.get? k).map (f k) := by
  apply find_mapValues

theorem mem_mapValues {μ : Type} {t : Table κ ν} {k : κ} {f : κ → ν → μ}
    : k ∈ t.mapValues f ↔ k ∈ t := by
  rw [mem_def, mem_def, get?_mapValues]
  simp

theorem ext_get? {t u : Table κ ν} (h : ∀ k, t.get? k = u.get? k) : t = u := by
  apply ext_entries
  apply t.sorted.eq_of_mem_iff u.sorted
  intro a
  rw [← get?_eq_some_iff, ← get?_eq_some_iff, h]

theorem modify_eq_self {t : Table κ ν} {k : κ} {f : ν → ν}
    (h : ∀ v, t.get? k = some v → f v = v)
    : t.modify k f = t := by
  apply ext_get?
  intro k'
  rw [get?_modify]
  split
  . next heq =>
    subst heq
    cases hv : t.get? k' with
    | none => rfl
    | some v => rw [Option.map_some, h v hv]
  . rfl

theorem modify_modify (t : Table κ ν) (k : κ) (f g : ν → ν)
    : (t.modify k f).modify k g = t.modify k (g ∘ f) := by
  apply ext_get?
  intro k'
  simp only [get?_modify]
  split <;> simp

theorem get?_foldl_put (v : ν) (keys : List κ) (t : Table κ ν) (k : κ)
    : (keys.foldl (fun t k => t.put k v) t).get? k = if k ∈ keys then some v else t.get? k := by
  induction keys generalizing t with
  | nil => simp
  | cons k' keys ih =>
    rw [List.foldl_cons, ih, get?_put]
    by_cases h : k = k'
    . simp [h]
    . simp [h]

theorem get?_foldl_del (keys : List κ) (t : Table κ ν) (k : κ)
    : (keys.foldl del t).get? k = if k ∈ keys then none else t.get? k := by
  induction keys generalizing t with
  | nil => simp
  | cons k' keys ih =>
    rw [List.foldl_cons, ih, get?_del]
    by_cases h : k = k'
    . simp [h]
    . simp [h]

theorem mem_foldl_put {v : ν} {keys : List κ} {t : Table κ ν} {k : κ}
    : k ∈ keys.foldl (fun t k => t.put k v) t ↔ k ∈ keys ∨ k ∈ t := by
  rw [mem_def, mem_def, get?_foldl_put]
  split <;> simp [*]

theorem mem_foldl_del {keys : List κ} {t : Table κ ν} {k : κ}
    : k ∈ keys.foldl del t ↔ k ∉ keys ∧ k ∈ t := by
  rw [mem_def, mem_def, get?_foldl_del]
  split <;> simp [*]

theorem foldl_del_foldl_put (v : ν) {keys : List κ} {t : Table κ ν} (h : ∀ k ∈ keys, k ∉ t)
    : keys.foldl del (keys.foldl (fun t k => t.put k v) t) = t := by
  apply ext_get?
  intro k
  rw [get?_foldl_del, get?_foldl_put]
  split
  . next hmem => exact (notMem_iff.1 (h k hmem)).symm
  . rfl

theorem insert_perm (k : κ) (v : ν) {l : List (κ × ν)} (h : l.Pairwise (fun a b => a.1 < b.1))
    : (insert k v l).Perm ((k, v) :: l.filter (fun a => a.1 ≠ k)) := by
  induction l with
  | nil => simp [insert]
  | cons a l ih =>
    rcases a with ⟨k', v'⟩
    rw [List.pairwise_cons] at h
    have htail : ∀ {x : κ}, x ≤ k' → l.filter (fun a => a.1 ≠ x) = l := by
      intro x hx
      rw [List.filter_eq_self]
      intro a ha
      simpa using (lt_of_le_of_lt hx (h.1 a ha)).ne'
    simp only [insert]
    split
    . next hlt =>
      rw [List.filter_cons_of_pos (by simpa using hlt.ne'), htail hlt.le]
    . split
      . next heq =>
        subst heq
        rw [List.filter_cons_of_neg (by simp), htail le_rfl]
      . next hne =>
        rw [List.filter_cons_of_pos (by simpa using Ne.symm hne)]
        exact ((ih h.2).cons _).trans (.swap ..)

theorem put_perm (t : Table κ ν) (k : κ) (v : ν)
    : (t.put k v).entries.Perm ((k, v) :: (t.del k).entries) := by
  apply insert_perm
  exact t.sorted

theorem del_of_notMem {t : Table κ ν} {k : κ} (h : k ∉ t) : t.del k = t := by
  apply ext_entries
  refine List.filter_eq_self.2 ?_
  intro a ha
  have : a.1 ≠ k := fun e => h (e ▸ mem_of_entries ha)
  simpa using this

theorem insert_of_find {k : κ} {v : ν} {l : List (κ × ν)} (h : l.Pairwise (fun a b => a.1 < b.1))
    (hfind : find k l = some v)
    : insert k v l = l := by
  induction l with
  | nil => simp [find] at hfind
  | cons a l ih =>
    rcases a with ⟨k', v'⟩
    have hmem := (find_eq_some_iff h).1 hfind
    rw [List.pairwise_cons] at h
    simp only [find] at hfind
    simp only [insert]
    split at hfind
    . next heq =>
      subst heq
      injection hfind with hfind
      simp [hfind]
    . next hne =>
      have hlt : k' < k := by
        rcases List.mem_cons.1 hmem with heq | hmem
        . exact absurd (congrArg Prod.fst heq) hne
        . exact h.1 _ hmem
      rw [ih h.2 hfind]
      simp [hlt.not_gt, hne]

theorem put_self {t : Table κ ν} {k : κ} {v : ν} (h : t.get? k = some v) : t.put k v = t := by
  apply ext_entries
  exact insert_of_find t.sorted h

theorem get?_perm {t : Table κ ν} {k : κ} {v : ν} (h : t.get? k = some v)
    : t.entries.Perm ((k, v) :: (t.del k).entries) := by
  have := put_perm t k v
  rwa [put_self h] at this

variable (p : κ → Bool)

theorem count_put (t : Table κ ν) (k : κ) (v : ν)
    : (t.put k v).count p = (t.del k).count p + if p k then 1 else 0 := by
  unfold count
  rw [(put_perm t k v).countP_eq]
  simp [List.countP_cons]

theorem count_del_of_mem {t : Table κ ν} {k : κ} (h : k ∈ t)
    : t.count p = (t.del k).count p + if p k then 1 else 0 := by
  rcases mem_iff_exists.1 h with ⟨v, hv⟩
  unfold count
  rw [(get?_perm hv).countP_eq]
  simp [List.countP_cons]

theorem count_put_of_notMem {t : Table κ ν} {k : κ} (v : ν) (h : k ∉ t)
    : (t.put k v).count p = t.count p + if p k then 1 else 0 := by
  rw [count_put, del_of_notMem h]

theorem count_eq_zero_iff {t : Table κ ν} : t.count p = 0 ↔ ∀ k ∈ t, p k = false := by
  unfold count
  rw [List.countP_eq_zero]
  constructor
  . intro h k hk
    rcases mem_iff_entries.1 hk with ⟨v, hv⟩
    simpa using h (k, v) hv
  . intro h a ha
    simpa using h a.1 (mem_of_entries ha)

theorem mem_seek {t : Table κ ν} {k : κ} {a : κ × ν}
    : a ∈ t.seek k ↔ a ∈ t.entries ∧ k ≤ a.1 := by
  rcases t with ⟨l, h⟩
  unfold seek
  dsimp
  induction l with
  | nil => simp
  | cons b l ih =>
    have hs := List.pairwise_cons.1 h
    rw [List.dropWhile_cons]
    by_cases hb : b.1 < k
    . simp only [hb, decide_true, ↓reduceIte]
      rw [ih hs.2]
      have : a = b → ¬ k ≤ a.1 := fun e => e ▸ not_le.2 hb
      simp only [List.mem_cons]
      tauto
    . simp only [hb, decide_false, Bool.false_eq_true, ↓reduceIte]
      have : a ∈ b :: l → k ≤ a.1 := by
        intro ha
        rcases List.mem_cons.1 ha with rfl | ha
        . exact not_lt.1 hb
        . exact le_trans (not_lt.1 hb) (hs.1 a ha).le
      tauto

theorem seek_takeWhile {t : Table κ ν} {k : κ} (hge : ∀ a, p a = true → k ≤ a)
    (hconv : ∀ a b, k ≤ a → a ≤ b → p b = true → p a = true)
    : (t.seek k).takeWhile (fun a => p a.1) = t.entries.filter (fun a => p a.1) := by
  rcases t with ⟨l, h⟩
  unfold seek
  dsimp
  induction l with
  | nil => simp
  | cons b l ih =>
    have hs := List.pairwise_cons.1 h
    rw [List.dropWhile_cons]
    by_cases hb : b.1 < k
    . have hp : p b.1 = false := by
        rw [Bool.eq_false_iff]
        intro hp
        exact absurd (hge _ hp) (not_le.2 hb)
      simp only [hb, decide_true, ↓reduceIte]
      rw [ih hs.2, List.filter_cons_of_neg (by simp [hp])]
    . simp only [hb, decide_false, Bool.false_eq_true, ↓reduceIte]
      have hb := not_lt.1 hb
      by_cases hp : p b.1 = true
      . rw [List.takeWhile_cons_of_pos (by simpa using hp)]
        rw [List.filter_cons_of_pos (by simpa using hp)]
        congr 1
        rw [← ih hs.2, List.dropWhile_eq_self_iff.2]
        intro hpos
        have := hs.1 l[0] (List.getElem_mem hpos)
        simpa using (le_trans hb this.le)
      . rw [List.takeWhile_cons_of_neg (by simpa using hp), eq_comm, List.filter_eq_nil_iff]
        intro a ha
        rcases List.mem_cons.1 ha with rfl | ha
        . simpa using hp
        . intro hpa
          exact hp (hconv _ _ hb (hs.1 a ha).le hpa)

theorem last?_eq_none_iff {t : Table κ ν} : t.last? = none ↔ t.entries = [] := by
  simp [last?]

theorem le_last? {t : Table κ ν} {a : κ × ν} (h : t.last? = some a) {k : κ} (hk : k ∈ t)
    : k ≤ a.1 := by
  rcases mem_iff_entries.1 hk with ⟨v, hv⟩
  rcases List.getLast?_eq_some_iff.1 h with ⟨l, hl⟩
  have hs := t.sorted
  rw [hl] at hs hv
  rcases List.mem_append.1 hv with hv | hv
  . exact ((List.pairwise_append.1 hs).2.2 _ hv a (by simp)).le
  . have : (k, v) = a := by simpa using hv
    rw [← this]

theorem last?_mem {t : Table κ ν} {a : κ × ν} (h : t.last? = some a) : a.1 ∈ t :=
  mem_of_entries (List.mem_of_getLast? h)

end Table
end Kv

namespace Kv.Table

variable {κ ν M : Type} [LinearOrder κ] [AddCommGroup M] {f : ν → M} {t : Table κ ν} {k : κ} {v : ν}

def sum (f : ν → M) (t : Table κ ν) : M := (t.entries.map (fun a => f a.2)).sum

theorem sum_empty : sum f (empty : Table κ ν) = 0 := rfl

theorem sum_put (k : κ) (v : ν) : sum f (t.put k v) = f v + sum f (t.del k) := by
  unfold sum
  rw [((put_perm t k v).map _).sum_eq, List.map_cons, List.sum_cons]

theorem sum_of_get? (h : t.get? k = some v) : sum f t = f v + sum f (t.del k) := by
  unfold sum
  rw [((get?_perm h).map _).sum_eq, List.map_cons, List.sum_cons]

theorem sum_put_of_notMem (v : ν) (h : k ∉ t) : sum f (t.put k v) = sum f t + f v := by
  rw [sum_put, del_of_notMem h, add_comm]

theorem sum_del (h : t.get? k = some v) : sum f (t.del k) = sum f t - f v := by
  rw [sum_of_get? h, add_sub_cancel_left]

theorem sum_congr {t u : Table κ ν} (h : ∀ k, t.get? k = u.get? k) : sum f t = sum f u := by
  have hnodup (t : Table κ ν) : t.entries.Nodup :=
    t.sorted.imp fun hlt heq => absurd (congrArg Prod.fst heq) (ne_of_lt hlt)
  have hperm : t.entries.Perm u.entries := by
    rw [List.perm_ext_iff_of_nodup (hnodup t) (hnodup u)]
    rintro ⟨k, v⟩
    rw [← get?_eq_some_iff, ← get?_eq_some_iff, h k]
  exact (hperm.map _).sum_eq

end Kv.Table

namespace Kv

variable {κ ε ρ : Type} [LinearOrder κ] [LinearOrder ε]
variable {R : κ → ρ → Prop} {idx : Table κ ε} {t : Table ε ρ}

/--
Every entry of `idx` refers to a record of `t`, and `R` holds of the two.
-/
def Indexes (R : κ → ρ → Prop) (idx : Table κ ε) (t : Table ε ρ) : Prop :=
  ∀ k e, idx.get? k = some e → ∃ r, t.get? e = some r ∧ R k r

namespace Indexes

theorem empty (R : κ → ρ → Prop) (t : Table ε ρ) : Indexes R .empty t := by
  intro k e h
  cases h

theorem del_index (h : Indexes R idx t) (k : κ) : Indexes R (idx.del k) t := by
  intro k' e he
  rw [Table.get?_del] at he
  split at he
  . cases he
  . exact h k' e he

theorem put_index (h : Indexes R idx t) {k : κ} {e : ε} {r : ρ} (hr : t.get? e = some r)
    (hk : R k r)
    : Indexes R (idx.put k e) t := by
  intro k' e' he
  rw [Table.get?_put] at he
  split at he
  . next heq =>
    cases he
    exact ⟨r, hr, heq ▸ hk⟩
  . exact h k' e' he

theorem put (h : Indexes R idx t) {e : ε} {r : ρ} (hr : ∀ k, idx.get? k = some e → R k r)
    : Indexes R idx (t.put e r) := by
  intro k e' he
  rw [Table.get?_put]
  split
  . next heq => exact ⟨r, rfl, hr k (heq ▸ he)⟩
  . exact h k e' he

theorem del (h : Indexes R idx t) {e : ε} (hfree : ∀ k, idx.get? k ≠ some e)
    : Indexes R idx (t.del e) := by
  intro k e' he
  rw [Table.get?_del]
  split
  . next heq => exact absurd (heq ▸ he) (hfree k)
  . exact h k e' he

theorem free (h : Indexes R idx t) {e : ε} (hnone : e ∉ t) : ∀ k, idx.get? k ≠ some e := by
  intro k he
  rcases h k e he with ⟨r, hr, _⟩
  exact hnone (Table.mem_iff_exists.2 ⟨r, hr⟩)

end Indexes
end Kv
