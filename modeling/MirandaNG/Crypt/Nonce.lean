import Mathlib.Tactic

/-!
This module contains the bookkeeping of counter nonces: a log of the (key, nonce) pairs that have
been used, where the nonce is made of a counter that starts again with every new key.
-/

namespace Nonce

variable {κ ι : Type} {iv : Nat → ι} {uses : List (κ × ι)} {keys : List κ} {key key' : κ} {n m : Nat}

/--
No pair has been used twice; the pairs of the current key are made of counters below `n`.
-/
structure Used (iv : Nat → ι) (uses : List (κ × ι)) (keys : List κ) (key : κ) (n : Nat)
    : Prop where
  nodup : uses.Nodup
  mem : ∀ u ∈ uses, u.1 ∈ keys
  current : key ∈ keys
  below : ∀ u ∈ uses, u.1 = key → ∃ i < n, u.2 = iv i

namespace Used

theorem init : Used iv [] [key] key 0 := ⟨.nil, by simp, by simp, by simp⟩

theorem mono (h : Used iv uses keys key n) (hle : n ≤ m) : Used iv uses keys key m where
  nodup := h.nodup
  mem := h.mem
  current := h.current
  below u hu hkey := by
    obtain ⟨i, hi, hiv⟩ := h.below u hu hkey
    exact ⟨i, by omega, hiv⟩

theorem use (h : Used iv uses keys key n) (hiv : ∀ i < n, iv n ≠ iv i)
    : Used iv ((key, iv n) :: uses) keys key (n + 1) where
  nodup := by
    refine List.nodup_cons.2 ⟨?_, h.nodup⟩
    intro hmem
    obtain ⟨i, hi, heq⟩ := h.below _ hmem rfl
    exact hiv i hi heq
  mem u hu := by
    rcases List.mem_cons.1 hu with rfl | hu
    . exact h.current
    . exact h.mem u hu
  current := h.current
  below u hu hkey := by
    rcases List.mem_cons.1 hu with rfl | hu
    . exact ⟨n, by omega, rfl⟩
    . exact (h.mono (Nat.le_succ n)).below u hu hkey

theorem rekey (h : Used iv uses keys key n) (hfresh : key' ∉ keys)
    : Used iv uses (key' :: keys) key' 0 where
  nodup := h.nodup
  mem u hu := List.mem_cons_of_mem _ (h.mem u hu)
  current := List.mem_cons_self
  below u hu hkey := absurd (hkey ▸ h.mem u hu) hfresh

end Used
end Nonce
