import Mathlib.Data.List.Lex
import Mathlib.Data.List.TakeWhile
import Mathlib.Data.UInt
import MirandaNG.Order.Compare

/-!
This module contains wide C strings: strings of 16 bit characters without a NUL.
-/

structure WStr where
  chars : List UInt16
  nul_notMem : 0 ∉ chars
deriving DecidableEq

namespace WStr

variable {s t : WStr}

theorem ext_chars (h : s.chars = t.chars) : s = t := by
  cases s
  cases t
  simpa using h

def ofMem (mem : List UInt16) : WStr :=
  ⟨mem.takeWhile (· ≠ 0), fun h => by simpa using List.mem_takeWhile_imp h⟩

def lit (s : String) : WStr := ofMem (s.toList.map fun c => c.toNat.toUInt16)

def decimal (n : Nat) : WStr := ofMem ((Nat.toDigits 10 n).map fun c => c.toNat.toUInt16)

def wcslen (s : WStr) : Nat := s.chars.length

def append (s t : WStr) : WStr :=
  ⟨s.chars ++ t.chars, fun h => (List.mem_append.1 h).elim s.nul_notMem t.nul_notMem⟩

instance : Append WStr := ⟨append⟩

def truncate (n : Nat) (s : WStr) : WStr :=
  ⟨s.chars.take n, fun h => s.nul_notMem (List.mem_of_mem_take h)⟩

def skip (n : Nat) (s : WStr) : WStr :=
  ⟨s.chars.drop n, fun h => s.nul_notMem (List.mem_of_mem_drop h)⟩

instance : LinearOrder WStr :=
  LinearOrder.lift' (fun s => s.chars.map UInt16.toNat) <| by
    intro s t h
    apply ext_chars
    exact List.map_injective_iff.2 (fun a b => UInt16.toNat_inj.1) h

def wcscmp (s t : WStr) : Int := Compare.ofOrder s t

def backslash : UInt16 := 0x5C

def parent (s : WStr) : Option WStr :=
  match s.chars.reverse.dropWhile (· ≠ backslash) with
  | [] => none
  | _ :: rest => some (ofMem rest.reverse)

def parents (s : WStr) : List WStr :=
  ((List.range s.wcslen).filter fun i => s.chars[i]? = some backslash).map s.truncate

theorem wcslen_truncate_le (n : Nat) (s : WStr) : (s.truncate n).wcslen ≤ n := by
  apply List.length_take_le

theorem truncate_eq_self {n : Nat} (h : s.wcslen ≤ n) : s.truncate n = s := by
  apply ext_chars
  exact List.take_of_length_le h

end WStr
