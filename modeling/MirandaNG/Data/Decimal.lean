import Mathlib.Data.UInt
import Mathlib.Tactic

/-!
This module contains decimal numbers: the digits that are printed, the value of digits, and that the one
is the inverse of the other.
-/

namespace Decimal

def isDigit (c : UInt8) : Bool := 48 ≤ c && c ≤ 57

def print (n : Nat) : List UInt8 := (Nat.toDigits 10 n).map fun c => UInt8.ofNat c.toNat

def value (s : List UInt8) : Nat := s.foldl (fun n c => n * 10 + (c.toNat - 48)) 0

def isSpace (c : UInt8) : Bool := c = 32 || (9 ≤ c && c ≤ 13)

def atoi (s : List UInt8) : Int :=
  let digits (s : List UInt8) : Int := value (s.takeWhile isDigit)
  match s.dropWhile isSpace with
  | 45 :: s => max (-digits s) (-2 ^ 31)
  | 43 :: s => min (digits s) (2 ^ 31 - 1)
  | s => min (digits s) (2 ^ 31 - 1)

theorem digitChar_toNat {d : Nat} (h : d < 10) : d.digitChar.toNat = 48 + d := by
  interval_cases d <;> rfl

theorem print_of_lt {n : Nat} (h : n < 10) : print n = [UInt8.ofNat (48 + n)] := by
  unfold print
  rw [Nat.toDigits_of_lt_base h, List.map_singleton, digitChar_toNat h]

theorem print_of_le {n : Nat} (h : 10 ≤ n) : print n = print (n / 10) ++ [UInt8.ofNat (48 + n % 10)] := by
  unfold print
  rw [Nat.toDigits_of_base_le (by decide) h, List.map_append, List.map_singleton,
    digitChar_toNat (Nat.mod_lt _ (by decide))]

theorem toNat_digit {d : Nat} (h : d < 10) : (UInt8.ofNat (48 + d)).toNat = 48 + d :=
  UInt8.toNat_ofNat_of_lt' (by change 48 + d < 256; omega)

theorem isDigit_digit {d : Nat} (h : d < 10) : isDigit (UInt8.ofNat (48 + d)) = true := by
  interval_cases d <;> rfl

theorem print_isDigit (n : Nat) : ∀ c ∈ print n, isDigit c = true := by
  induction n using Nat.strongRecOn with
  | ind n ih =>
    intro c hc
    by_cases h : n < 10
    . rw [print_of_lt h, List.mem_singleton] at hc
      rw [hc]
      exact isDigit_digit h
    . rw [print_of_le (by omega), List.mem_append, List.mem_singleton] at hc
      cases hc with
      | inl hc => exact ih (n / 10) (by omega) c hc
      | inr hc =>
        rw [hc]
        exact isDigit_digit (Nat.mod_lt _ (by decide))

theorem print_ne_nil (n : Nat) : print n ≠ [] := by
  by_cases h : n < 10
  . rw [print_of_lt h]
    simp
  . rw [print_of_le (by omega)]
    simp

theorem value_concat (s : List UInt8) (c : UInt8) : value (s ++ [c]) = value s * 10 + (c.toNat - 48) := by
  unfold value
  rw [List.foldl_append]
  rfl

theorem value_print (n : Nat) : value (print n) = n := by
  induction n using Nat.strongRecOn with
  | ind n ih =>
    by_cases h : n < 10
    . rw [print_of_lt h]
      unfold value
      rw [List.foldl_cons, toNat_digit h]
      simp
    . rw [print_of_le (by omega), value_concat, ih (n / 10) (by omega),
        toNat_digit (Nat.mod_lt _ (by decide))]
      omega

end Decimal
