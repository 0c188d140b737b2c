import Mathlib.Tactic

/-!
This module contains the `int` of C: 32 bits in two's complement. It also contains the comparison of numbers on a circle
by their difference: of two numbers the one that is ahead by less than half of the circle is the greater one.
-/

namespace CInt

def int32 (x : Int) : Int := x.bmod (2 ^ 32)

theorem int32_of_small {n : Nat} (h : n < 2 ^ 31) : int32 n = n := by
  unfold int32
  rw [Int.bmod_eq_of_le]
  . omega
  . omega

theorem int32_add (x y : Int) : int32 (int32 x + y) = int32 (x + y) := by
  unfold int32
  exact Int.bmod_add_bmod

theorem int32_sub (x y : Int) : int32 (int32 x - y) = int32 (x - y) := by
  unfold int32
  exact Int.bmod_sub_bmod

end CInt

/-! ## Numbers on a circle -/

namespace Serial

variable {m : Nat} {a b base : Int}

def diff (m : Nat) (a b : Int) : Int := (a - b).bmod (2 * m)

def offset (m : Nat) (base a : Int) : Int := (a - base) % (2 * m : Nat)

theorem offset_self (m : Nat) (base : Int) : offset m base base = 0 := by
  unfold offset
  rw [sub_self, Int.zero_emod]

theorem offset_nonneg (hm : 0 < m) (base a : Int) : 0 ≤ offset m base a :=
  Int.emod_nonneg _ (by omega)

theorem diff_eq_bmod_offset (m : Nat) (base a b : Int)
    : diff m a b = (offset m base a - offset m base b).bmod (2 * m) := by
  unfold diff offset
  rw [Int.emod_sub_bmod, Int.sub_emod_bmod]
  congr 1
  omega

theorem diff_eq (hm : 0 < m) (ha : offset m base a < m) (hb : offset m base b < m)
    : diff m a b = offset m base a - offset m base b := by
  have hnonneg := offset_nonneg hm base a
  have hnonneg' := offset_nonneg hm base b
  rw [diff_eq_bmod_offset m base]
  apply Int.bmod_eq_of_le_mul_two
  . omega
  . omega

theorem offset_lt_of_diff_pos (hm : 0 < m) (h : 0 < diff m a base) : offset m base a < m := by
  by_contra hge
  have hlt : offset m base a < (2 * m : Nat) := Int.emod_lt_of_pos _ (by omega)
  rw [diff_eq_bmod_offset m base, offset_self, sub_zero, Int.bmod_eq_emod,
    Int.emod_eq_of_lt (offset_nonneg hm base a) hlt, if_pos (by omega)] at h
  omega

theorem diff_self (m : Nat) (a : Int) : diff m a a = 0 := by
  unfold diff
  rw [sub_self, Int.zero_bmod]

end Serial
