import Mathlib.Data.UInt
import Mathlib.Tactic

/-!
This module contains the algebra of flag words: testing a word against a mask after flags were set
in it, and what becomes of words that are added up where they should be united: the flags that are there
twice carry over into others.
-/

namespace Flags

variable {a b m : UInt32}

theorem or_and (a b m : UInt32) : (a ||| b) &&& m = (a &&& m) ||| (b &&& m) := by
  rw [← UInt32.toBitVec_inj]
  exact BitVec.and_or_distrib_right

theorem or_and_of_disjoint (h : b &&& m = 0) : (a ||| b) &&& m = a &&& m := by
  rw [or_and, h, UInt32.or_zero]

theorem or_and_ne_zero (h : b &&& m ≠ 0) : (a ||| b) &&& m ≠ 0 := by
  rw [or_and]
  intro hzero
  exact h (UInt32.or_eq_zero_iff.1 hzero).2

theorem or_flag_eq_self_iff {i : Nat} {flag : UInt32} (hflag : flag.toBitVec = BitVec.twoPow 32 i)
    (hne : flag ≠ 0)
    : a ||| flag = a ↔ a &&& flag ≠ 0 := by
  constructor
  . intro heq hzero
    have hsplit := or_and a flag flag
    rw [heq, hzero, UInt32.and_self, UInt32.zero_or] at hsplit
    exact hne hsplit.symm
  . intro hset
    rw [← UInt32.toBitVec_inj, UInt32.toBitVec_or, hflag]
    have hbit : a.toBitVec.getLsbD i = true := by
      by_contra hbit
      apply hset
      rw [← UInt32.toBitVec_inj, UInt32.toBitVec_and, hflag, BitVec.and_twoPow, if_neg hbit]
      rfl
    apply BitVec.eq_of_getLsbD_eq
    intro j hj
    rw [BitVec.getLsbD_or, BitVec.getLsbD_twoPow]
    by_cases heq : i = j
    . subst heq
      simp [hbit]
    . simp [heq]

end Flags

namespace FlagSum

def union (words : List UInt64) : UInt64 := words.foldl (· ||| ·) 0

def repeated : UInt64 → List UInt64 → UInt64
  | _, [] => 0
  | seen, word :: words => (seen &&& word) + repeated (seen ||| word) words

def Disjoint (words : List UInt64) : Prop := words.Pairwise fun a b => a &&& b = 0

theorem add_eq_or_add_and (a b : UInt64) : a + b = (a ||| b) + (a &&& b) := by
  rw [← UInt64.toBitVec_inj]
  simp only [UInt64.toBitVec_add, UInt64.toBitVec_or, UInt64.toBitVec_and]
  generalize a.toBitVec = x
  generalize b.toBitVec = y
  have hx : x = (x &&& ~~~y) + (x &&& y) := by
    rw [BitVec.add_eq_or_of_and_eq_zero]
    . ext i hi
      simp only [BitVec.getElem_or, BitVec.getElem_and, BitVec.getElem_not]
      cases x[i] <;> cases y[i] <;> rfl
    . ext i hi
      simp only [BitVec.getElem_and, BitVec.getElem_not, BitVec.getElem_zero]
      cases x[i] <;> cases y[i] <;> rfl
  have hor : x ||| y = (x &&& ~~~y) + y := by
    rw [BitVec.add_eq_or_of_and_eq_zero]
    . ext i hi
      simp only [BitVec.getElem_or, BitVec.getElem_and, BitVec.getElem_not]
      cases x[i] <;> cases y[i] <;> rfl
    . ext i hi
      simp only [BitVec.getElem_and, BitVec.getElem_not, BitVec.getElem_zero]
      cases x[i] <;> cases y[i] <;> rfl
  calc x + y = (x &&& ~~~y) + (x &&& y) + y := by rw [← hx]
    _ = (x ||| y) + (x &&& y) := by rw [hor]; ring

theorem foldl_add (words : List UInt64) (a b : UInt64)
    : words.foldl (· + ·) (a + b) = words.foldl (· + ·) a + b := by
  induction words generalizing a with
  | nil => rfl
  | cons word words ih =>
    rw [List.foldl_cons, List.foldl_cons, ← ih, add_right_comm]

theorem foldl_add_eq (words : List UInt64) (seen : UInt64)
    : words.foldl (· + ·) seen = words.foldl (· ||| ·) seen + repeated seen words := by
  induction words generalizing seen with
  | nil => exact (add_zero seen).symm
  | cons word words ih =>
    rw [List.foldl_cons, add_eq_or_add_and, foldl_add, ih, List.foldl_cons, repeated, add_assoc,
      add_comm (repeated _ _)]

theorem sum_eq_union_iff (words : List UInt64)
    : words.foldl (· + ·) 0 = union words ↔ repeated 0 words = 0 := by
  rw [foldl_add_eq]
  exact add_eq_left

end FlagSum
