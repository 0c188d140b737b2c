import Mathlib.Data.UInt
import Mathlib.Tactic.Ring

/-!
This module contains facts about bytes and about numbers that are written as bytes, the high one
first.
-/

theorem forall_uint8 {p : UInt8 → Prop} (h : ∀ n < 256, p (UInt8.ofNat n)) (c : UInt8) : p c := by
  have hc := h c.toNat (UInt8.toNat_lt c)
  rwa [UInt8.ofNat_toNat] at hc

theorem forall_halves {p : UInt8 → Prop} (h : ∀ a < 16, ∀ b < 16, p (UInt8.ofNat (16 * a + b))) (c : UInt8) : p c := by
  have hlt := UInt8.toNat_lt c
  have hc := h (c.toNat / 16) (by omega) (c.toNat % 16) (Nat.mod_lt _ (by decide))
  rwa [Nat.div_add_mod, UInt8.ofNat_toNat] at hc

theorem foldl_bigEndian {bytes : Nat → List UInt8} {n : Nat} (hzero : bytes 0 = [])
    (hsucc : ∀ k, bytes (k + 1) = UInt8.ofNat (n / 256 ^ k % 256) :: bytes k) (k acc : Nat)
    : (bytes k).foldl (fun acc c => acc * 256 + c.toNat) acc = acc * 256 ^ k + n % 256 ^ k := by
  induction k generalizing acc with
  | zero => simp [hzero, Nat.mod_one]
  | succ k ih =>
    have hmod : n % 256 ^ (k + 1) = n % 256 ^ k + 256 ^ k * (n / 256 ^ k % 256) := by
      rw [pow_succ]
      exact Nat.mod_mul
    rw [hsucc, List.foldl_cons, ih, hmod, UInt8.toNat_ofNat_of_lt' (Nat.mod_lt _ (by decide)),
      pow_succ]
    ring
