import Mathlib.Tactic
import Mathlib.Order.Basic

/-!
This module contains ordered tables: finite maps that keep their records in key order, which is how
an embedded B-tree store presents a table to its client. `Table.get?`, `Table.put` and `Table.del`
are the keyed operations, `Table.seek` is a cursor positioned at a key (the record it stands on and
every record a "next" reaches after it) and `Table.last?` a cursor sent to the end.
-/

namespace Kv

variable {κ : Type} {ν : Type} [LinearOrder κ]

structure Table (κ : Type) (ν : Type) [LinearOrder κ] where
  entries : List (κ × ν)
  sorted : entries.Pairwise (fun a b => a.1 < b.1)

namespace Table

def empty : Table κ ν := ⟨[], .nil⟩

instance : Inhabited (Table κ ν) := ⟨empty⟩

def keys (t : Table κ ν) : List κ :=
  t.entries.map Prod.fst

def find (k : κ) : List (κ × ν) → Option ν
  | [] => none
  | (k', v) :: l => if k = k' then some v else find k l

def get? (t : Table κ ν) (k : κ) : Option ν :=
  find k t.entries

instance : Membership κ (Table κ ν) where
  mem t k := (t.get? k).isSome

instance (t : Table κ ν) (k : κ) : Decidable (k ∈ t) :=
  inferInstanceAs (Decidable ((t.get? k).isSome = true))

/--
Insert a record into a list of records kept in key order; a record with the same key is replaced.
-/
def insert (k : κ) (v : ν) : List (κ × ν) → List (κ × ν)
  | [] => [(k, v)]
  | (k', v') :: l =>
    if k < k' then
      (k, v) :: (k', v') :: l
    else if k = k' then
      (k, v) :: l
    else
      (k', v') :: insert k v l

theorem insert_fst_mem {k : κ} {v : ν} {l : List (κ × ν)} {a : κ × ν} (h : a ∈ insert k v l)
    : a = (k, v) ∨ a ∈ l := by
  induction l with
  | nil => simpa [insert] using h
  | cons b l ih =>
    simp only [insert] at h
    split at h
    . simpa using h
    . split at h
      . simp only [List.mem_cons] at h ⊢
        tauto
      . simp only [List.mem_cons] at h ⊢
        rcases h with h | h
        . exact .inr (.inl h)
        . rcases ih h with h | h
          . exact .inl h
          . exact .inr (.inr h)

theorem insert_sorted (k : κ) (v : ν) {l : List (κ × ν)} (h : l.Pairwise (fun a b => a.1 < b.1))
    : (insert k v l).Pairwise (fun a b => a.1 < b.1) := by
  induction l with
  | nil => simp [insert]
  | cons b l ih =>
    rw [List.pairwise_cons] at h
    simp only [insert]
    split
    . next hlt =>
      refine List.pairwise_cons.2 ⟨?_, List.pairwise_cons.2 h⟩
      intro a ha
      rcases List.mem_cons.1 ha with rfl | ha
      . exact hlt
      . exact lt_trans hlt (h.1 a ha)
    . next hlt =>
      split
      . next heq =>
        subst heq
        exact List.pairwise_cons.2 ⟨h.1, h.2⟩
      . next hne =>
        refine List.pairwise_cons.2 ⟨?_, ih h.2⟩
        intro a ha
        rcases insert_fst_mem ha with rfl | ha
        . exact lt_of_le_of_ne (not_lt.1 hlt) (Ne.symm hne)
        . exact h.1 a ha

/--
Store `v` under `k`, replacing what was there.
-/
def put (t : Table κ ν) (k : κ) (v : ν) : Table κ ν :=
  ⟨insert k v t.entries, insert_sorted k v t.sorted⟩

def del (t : Table κ ν) (k : κ) : Table κ ν :=
  ⟨t.entries.filter (fun a => a.1 ≠ k), t.sorted.filter _⟩

def modify (t : Table κ ν) (k : κ) (f : ν → ν) : Table κ ν :=
  match t.get? k with
  | some v => t.put k (f v)
  | none => t

def mapValues {μ : Type} (t : Table κ ν) (f : κ → ν → μ) : Table κ μ :=
  ⟨t.entries.map (fun a => (a.1, f a.1 a.2)), List.pairwise_map.2 t.sorted⟩

/--
A cursor at the first record whose key is not below `k`: that record and all after it.
-/
def seek (t : Table κ ν) (k : κ) : List (κ × ν) :=
  t.entries.dropWhile (fun a => a.1 < k)

def last? (t : Table κ ν) : Option (κ × ν) :=
  t.entries.getLast?

def count (t : Table κ ν) (p : κ → Bool) : Nat :=
  t.entries.countP (fun a => p a.1)

end Table
end Kv
