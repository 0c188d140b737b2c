import Mathlib.Data.List.Infix
import Mathlib.Data.UInt
import Mathlib.Tactic

/-!
This module contains the operations of `CMStringW` that search and change a text. Positions and counts are
`int`s and may be negative.
-/

namespace CMString

variable {pre s sub : List UInt16} {ch : UInt16} {i : Nat} {n : Int}

def Find (s : List UInt16) (ch : UInt16) (iStart : Int) : Int :=
  if iStart < 0 ∨ iStart ≥ s.length then
    -1
  else
    match (s.drop iStart.toNat).idxOf? ch with
    | none => -1
    | some i => iStart + i

def strstr (pszSub : List UInt16) : List UInt16 → Option Nat
  | [] => if pszSub = [] then some 0 else none
  | c :: s => if pszSub.isPrefixOf (c :: s) then some 0 else (strstr pszSub s).map (· + 1)

def FindString (s pszSub : List UInt16) (iStart : Int) : Int :=
  if iStart < 0 ∨ iStart > s.length then
    -1
  else
    match strstr pszSub (s.drop iStart.toNat) with
    | none => -1
    | some i => iStart + i

-- What is written before the first character hits the header, which only makes the text look shared.
def SetAt (s : List UInt16) (iChar : Int) (ch : UInt16) : List UInt16 :=
  if iChar < 0 then s else s.set iChar.toNat ch

def Delete (s : List UInt16) (iIndex nCount : Int) : List UInt16 :=
  let iIndex := max iIndex 0
  let nCount := max nCount 0
  let nCount := if nCount + iIndex > s.length then s.length - iIndex else nCount
  if nCount > 0 then s.take iIndex.toNat ++ s.drop (iIndex.toNat + nCount.toNat) else s

def Insert (s : List UInt16) (iIndex : Int) (psz : List UInt16) : List UInt16 :=
  let iIndex := min (max iIndex 0) s.length
  s.take iIndex.toNat ++ psz ++ s.drop iIndex.toNat

def Mid (s : List UInt16) (iFirst nCount : Int) : List UInt16 :=
  (s.drop (max iFirst 0).toNat).take (max nCount 0).toNat

def removeFirst (pszSub s : List UInt16) : List UInt16 :=
  match strstr pszSub s with
  | none => s
  | some i => s.take i ++ s.drop (i + pszSub.length)

theorem Find_append (pre s : List UInt16) (ch : UInt16)
    : Find (pre ++ s) ch pre.length =
        match s.idxOf? ch with
        | none => -1
        | some i => pre.length + i := by
  unfold Find
  split
  . next h =>
    have hnil : s = [] := by
      rw [List.length_append] at h
      apply List.length_eq_zero_iff.1
      omega
    rw [hnil]
    rfl
  . rw [Int.toNat_natCast, List.drop_left]

theorem FindString_append (pre s sub : List UInt16)
    : FindString (pre ++ s) sub pre.length =
        match strstr sub s with
        | none => -1
        | some i => pre.length + i := by
  unfold FindString
  rw [if_neg, Int.toNat_natCast, List.drop_left]
  rw [List.length_append]
  omega

theorem Delete_of_nonpos (s : List UInt16) (i : Int) (hn : n ≤ 0) : Delete s i n = s := by
  unfold Delete
  dsimp only
  rw [if_neg]
  split <;> omega

theorem Delete_append (pre s : List UInt16) (n : Nat) : Delete (pre ++ s) pre.length n = pre ++ s.drop n := by
  have hlength : ((pre ++ s).length : Int) = pre.length + s.length := by
    rw [List.length_append]
    exact Int.natCast_add _ _
  unfold Delete
  dsimp only
  rw [hlength, show max (pre.length : Int) 0 = pre.length by omega, show max (n : Int) 0 = n by omega,
    Int.toNat_natCast, List.take_left, ← List.drop_drop, List.drop_left]
  split
  . -- more than there is
    rw [show ((pre.length : Int) + s.length - pre.length) = s.length by omega, Int.toNat_natCast, List.drop_length,
      List.drop_of_length_le (by omega)]
    split
    . rfl
    . rw [List.length_eq_zero_iff.1 (show s.length = 0 by omega)]
  . rw [Int.toNat_natCast]
    split
    . rfl
    . rw [show n = 0 by omega, List.drop_zero]

theorem Insert_append (pre s psz : List UInt16) : Insert (pre ++ s) pre.length psz = pre ++ (psz ++ s) := by
  have hlength : ((pre ++ s).length : Int) = pre.length + s.length := by
    rw [List.length_append]
    exact Int.natCast_add _ _
  unfold Insert
  dsimp only
  rw [hlength, show min (max (pre.length : Int) 0) (pre.length + s.length) = pre.length by omega, Int.toNat_natCast,
    List.take_left, List.drop_left, List.append_assoc]

theorem strstr_eq_some (h : strstr sub s = some i) : sub <+: s.drop i := by
  induction s generalizing i with
  | nil =>
    unfold strstr at h
    split at h
    . next hnil =>
      rw [hnil]
      exact List.nil_prefix
    . cases h
  | cons c s ih =>
    unfold strstr at h
    split at h
    . next hprefix =>
      cases h
      exact List.isPrefixOf_iff_prefix.1 hprefix
    . obtain ⟨j, hj, rfl⟩ := Option.map_eq_some_iff.1 h
      exact ih hj

theorem strstr_le (h : strstr sub s = some i) : i ≤ s.length := by
  induction s generalizing i with
  | nil =>
    unfold strstr at h
    split at h
    . cases h
      exact Nat.le_refl _
    . cases h
  | cons c s ih =>
    unfold strstr at h
    split at h
    . cases h
      exact Nat.zero_le _
    . obtain ⟨j, hj, rfl⟩ := Option.map_eq_some_iff.1 h
      exact Nat.succ_le_succ (ih hj)

def DeleteFirst (s pszSub : List UInt16) (idx : Int) : List UInt16 :=
  let idx2 := FindString s pszSub idx
  if idx2 ≠ -1 then Delete s idx2 pszSub.length else s

theorem DeleteFirst_append (pre s sub : List UInt16)
    : DeleteFirst (pre ++ s) sub pre.length = pre ++ removeFirst sub s := by
  unfold DeleteFirst removeFirst
  rw [FindString_append]
  cases hfind : strstr sub s with
  | none => rfl
  | some i =>
    dsimp only
    rw [if_pos (show (pre.length : Int) + i ≠ -1 by omega)]
    have hle : i ≤ s.length := strstr_le hfind
    have hdelete := Delete_append (pre ++ s.take i) (s.drop i) sub.length
    rw [List.append_assoc, List.take_append_drop, List.length_append, List.length_take_of_le hle, List.drop_drop,
      List.append_assoc, Int.natCast_add] at hdelete
    exact hdelete

theorem mem_of_strstr (h : strstr sub s = some i) (hch : ch ∈ sub) : ch ∈ s :=
  List.mem_of_mem_drop ((strstr_eq_some h).subset hch)

end CMString
