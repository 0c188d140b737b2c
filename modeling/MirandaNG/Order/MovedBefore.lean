import Mathlib.Data.List.InsertIdx
import Mathlib.Data.List.Nodup
import MirandaNG.Order.Compare

/-!
This module contains lists in which one element has gone to another place.
-/

namespace Order

variable {α : Type} {l l' : List α} {a : α} {target : Option α} {g b : Nat}

def IsPlace (others : List α) (b : Nat) : Option α → Prop
  | none => b = others.length
  | some q => others[b]? = some q

variable [DecidableEq α]

structure MovedBefore (l : List α) (a : α) (target : Option α) (l' : List α) : Prop where
  mem : a ∈ l'
  others : l'.erase a = l.erase a
  place : match target with
    | none => ∃ l₁, l' = l₁ ++ [a]
    | some q => ∃ l₁ l₂, l' = l₁ ++ a :: q :: l₂

theorem erase_insertIdx (ha : a ∉ l) (hb : b ≤ l.length) : (l.insertIdx b a).erase a = l := by
  rw [Compare.insertIdx_eq_append hb, List.erase_append_right _ fun hmem => ha (List.mem_of_mem_take hmem),
    List.erase_cons_head, List.take_append_drop]

namespace MovedBefore

theorem of_index (hnodup : l.Nodup) (hget : l[g]? = some a) (hplace : IsPlace (l.eraseIdx g) b target)
    : MovedBefore l a target ((l.eraseIdx g).insertIdx b a) := by
  obtain ⟨hg, rfl⟩ := List.getElem?_eq_some_iff.1 hget
  have herase := hnodup.erase_getElem g hg
  have hnot : l[g] ∉ l.eraseIdx g := herase ▸ hnodup.not_mem_erase
  have hle : b ≤ (l.eraseIdx g).length := by
    cases target with
    | none => exact Nat.le_of_eq hplace
    | some q => exact Nat.le_of_lt (List.getElem?_eq_some_iff.1 hplace).1
  refine ⟨?_, ?_, ?_⟩
  . rw [Compare.insertIdx_eq_append hle]
    simp
  . rw [erase_insertIdx hnot hle, herase]
  . rw [Compare.insertIdx_eq_append hle]
    cases target with
    | none =>
      dsimp only
      rw [List.drop_of_length_le (Nat.le_of_eq hplace.symm)]
      exact ⟨_, rfl⟩
    | some q =>
      obtain ⟨hlt, hq⟩ := List.getElem?_eq_some_iff.1 hplace
      rw [List.drop_eq_getElem_cons hlt, hq]
      exact ⟨_, _, rfl⟩

end MovedBefore

end Order
