import Mathlib.Data.List.Nodup
import Mathlib.Tactic

/-!
This module contains links that are stored on both sides: every element points up to its owner, and
every owner has the list of its elements below it.
-/

namespace Rel

variable {α β : Type} {z b b' : β} {a : α} {out : Option α} {up : α → β} {down : β → List α}

-- `z` stands for no owner. `out` is an element that has left the lists and still points to its owner.
structure Links (z : β) (out : Option α) (up : α → β) (down : β → List α) : Prop where
  mem_iff : ∀ a, out ≠ some a → ∀ b, b ≠ z → (a ∈ down b ↔ up a = b)
  out_free : ∀ a, out = some a → ∀ b, a ∉ down b
  nodup : ∀ b, (down b).Nodup
  none_down : down z = []

namespace Links

theorem ne_of_mem (h : Links z out up down) (ha : a ∈ down b) : b ≠ z := by
  intro hb
  rw [hb, h.none_down] at ha
  exact List.not_mem_nil ha

theorem up_of_mem (h : Links z out up down) (ha : a ∈ down b) : up a = b := by
  apply (h.mem_iff a _ b (h.ne_of_mem ha)).mp ha
  intro hout
  exact h.out_free a hout b ha

theorem owner_unique (h : Links z out up down) (hb : a ∈ down b) (hb' : a ∈ down b') : b = b' :=
  (h.up_of_mem hb).symm.trans (h.up_of_mem hb')

theorem not_mem_of_up (h : Links z out up down) (ha : up a = z) (b : β) : a ∉ down b := by
  intro hmem
  apply h.ne_of_mem hmem
  rw [← h.up_of_mem hmem]
  exact ha

theorem release [DecidableEq α] (h : Links z (some a) up down)
    : Links z none (Function.update up a z) down where
  mem_iff := by
    intro c _ b hb
    by_cases hc : c = a
    . subst hc
      rw [Function.update_self]
      constructor
      . intro hmem
        exact absurd hmem (h.out_free c rfl b)
      . intro hz
        exact absurd hz.symm hb
    . rw [Function.update_of_ne hc]
      apply h.mem_iff c _ b hb
      intro hac
      exact hc (Option.some.inj hac).symm
  out_free := by
    intro c hc
    cases hc
  nodup := h.nodup
  none_down := h.none_down

variable [DecidableEq β]

theorem attach [DecidableEq α] (h : Links z none up down) (ha : up a = z) (hb : b ≠ z)
    : Links z none (Function.update up a b) (Function.update down b (down b ++ [a])) where
  mem_iff := by
    intro c hc b' hb'
    have hold := h.mem_iff c hc b' hb'
    by_cases hca : c = a
    . subst hca
      rw [Function.update_self]
      by_cases hbb : b' = b
      . subst hbb
        simp
      . rw [Function.update_of_ne hbb, hold, ha]
        constructor
        . intro hz
          exact absurd hz.symm hb'
        . intro hbb'
          exact absurd hbb'.symm hbb
    . rw [Function.update_of_ne hca]
      by_cases hbb : b' = b
      . subst hbb
        rw [Function.update_self, List.mem_append, List.mem_singleton, hold]
        simp [hca]
      . rw [Function.update_of_ne hbb]
        exact hold
  out_free := by
    intro c hc
    cases hc
  nodup := by
    intro b'
    by_cases hbb : b' = b
    . subst hbb
      rw [Function.update_self, ← List.concat_eq_append]
      apply List.Nodup.concat _ (h.nodup b')
      exact h.not_mem_of_up ha b'
    . rw [Function.update_of_ne hbb]
      exact h.nodup b'
  none_down := by
    rw [Function.update_of_ne hb.symm]
    exact h.none_down

theorem detach [DecidableEq α] (h : Links z none up down) (hmem : a ∈ down b)
    : Links z (some a) up (Function.update down b ((down b).erase a)) where
  mem_iff := by
    intro c hc b' hb'
    have hca : c ≠ a := by
      intro hca
      exact hc (congrArg some hca.symm)
    rw [← h.mem_iff c (by simp) b' hb']
    by_cases hbb : b' = b
    . subst hbb
      rw [Function.update_self]
      exact List.mem_erase_of_ne hca
    . rw [Function.update_of_ne hbb]
  out_free := by
    intro c hc b'
    cases hc
    by_cases hbb : b' = b
    . subst hbb
      rw [Function.update_self]
      exact (h.nodup b').not_mem_erase
    . rw [Function.update_of_ne hbb]
      intro hmem'
      exact hbb (h.owner_unique hmem' hmem)
  nodup := by
    intro b'
    by_cases hbb : b' = b
    . subst hbb
      rw [Function.update_self]
      exact (h.nodup b').erase a
    . rw [Function.update_of_ne hbb]
      exact h.nodup b'
  none_down := by
    rw [Function.update_of_ne (h.ne_of_mem hmem).symm]
    exact h.none_down

end Links
end Rel
