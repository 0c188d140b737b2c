import Mathlib.Order.Bounds.Basic
import Mathlib.Tactic

/-!
This module contains the theory of a cached least element: a value kept next to a set that is meant
to be the set's least element, with a default for the empty set.
-/

variable {α : Type*} [LinearOrder α] {d m k : α} {A B K : Set α}

/--
`m` caches the least element of `A`; `d` stands for the empty set.
-/
def CachedLeast (d : α) (A : Set α) (m : α) : Prop :=
  IsLeast A m ∨ A = ∅ ∧ m = d

namespace CachedLeast

theorem empty (d : α) : CachedLeast d ∅ d :=
  .inr ⟨rfl, rfl⟩

theorem le (h : CachedLeast d A m) (hk : k ∈ A) : m ≤ k := by
  rcases h with h | ⟨h, _⟩
  . exact h.2 hk
  . simp [h] at hk

theorem mem (h : CachedLeast d A m) (hA : A.Nonempty) : m ∈ A := by
  rcases h with h | ⟨h, _⟩
  . exact h.1
  . simp [h] at hA

theorem subset (h : CachedLeast d A m) (hBA : B ⊆ A) (hstay : ∀ a ∈ A, a ∉ B → ∃ b ∈ B, b ≤ a)
    : CachedLeast d B m := by
  rcases h with h | ⟨h, hd⟩
  . left
    refine ⟨?_, fun b hb => h.2 (hBA hb)⟩
    by_contra hm
    rcases hstay m h.1 hm with ⟨b, hb, hle⟩
    exact hm (le_antisymm hle (h.2 (hBA hb)) ▸ hb)
  . right
    exact ⟨Set.subset_eq_empty hBA h, hd⟩

theorem superset (h : CachedLeast d A m) (hAB : A ⊆ B) (hnew : ∀ b ∈ B, ∃ a ∈ A, a ≤ b)
    : CachedLeast d B m := by
  rcases h with h | ⟨h, hd⟩
  . left
    refine ⟨hAB h.1, ?_⟩
    intro b hb
    rcases hnew b hb with ⟨a, ha, hle⟩
    exact le_trans (h.2 ha) hle
  . right
    refine ⟨?_, hd⟩
    rw [Set.eq_empty_iff_forall_notMem]
    intro b hb
    rcases hnew b hb with ⟨a, ha, _⟩
    simp [h] at ha

theorem union_insert (d : α) (hk : ∀ a ∈ A, k ≤ a)
    (hK : ∀ b ∈ K, k ≤ b ∨ ∃ a ∈ A, a ≤ b)
    : CachedLeast d (A ∪ insert k K) k := by
  left
  refine ⟨by simp, ?_⟩
  rintro b (hb | rfl | hb)
  . exact hk b hb
  . exact le_rfl
  . rcases hK b hb with hle | ⟨a, ha, hle⟩
    . exact hle
    . exact le_trans (hk a ha) hle

theorem union_insert_of_le (h : CachedLeast d A m) (hA : A.Nonempty) (hm : m ≤ k)
    (hK : ∀ b ∈ K, k ≤ b ∨ ∃ a ∈ A, a ≤ b)
    : CachedLeast d (A ∪ insert k K) m := by
  left
  refine ⟨.inl (h.mem hA), ?_⟩
  rintro b (hb | rfl | hb)
  . exact h.le hb
  . exact hm
  . rcases hK b hb with hle | ⟨a, ha, hle⟩
    . exact le_trans hm hle
    . exact le_trans (h.le ha) hle

end CachedLeast
