import Mathlib.Tactic
import Mathlib.Order.Basic
import Mathlib.Data.List.Lex
import Mathlib.Data.List.TakeWhile
import Mathlib.Data.UInt

/-!
This module contains C strings: byte strings without a NUL, the way they are read out of memory (up
to the first NUL) and the order `strcmp` puts on them.
-/

structure CStr where
  bytes : List UInt8
  nul_notMem : 0 ∉ bytes
deriving DecidableEq

namespace CStr

theorem ext_bytes {s t : CStr} (h : s.bytes = t.bytes) : s = t := by
  cases s
  cases t
  simpa using h

def empty : CStr := ⟨[], by simp⟩

instance : Inhabited CStr := ⟨empty⟩

def strlen (s : CStr) : Nat := s.bytes.length

/--
The string a `char *` to this memory denotes. Memory is given up to some byte; the byte after it
reads as NUL.
-/
def ofMem (mem : List UInt8) : CStr :=
  ⟨mem.takeWhile (· ≠ 0), fun h => by simpa using List.mem_takeWhile_imp h⟩

def toMem (s : CStr) : List UInt8 := s.bytes ++ [0]

/--
`strncpy_s(dst, s, _TRUNCATE)` into a buffer of `n + 1` bytes.
-/
def truncate (n : Nat) (s : CStr) : CStr :=
  ⟨s.bytes.take n, fun h => s.nul_notMem (List.mem_of_mem_take h)⟩

/--
Bytes compare as unsigned numbers, and the terminator is below every byte.
-/
instance : LinearOrder CStr :=
  LinearOrder.lift' (fun s => s.bytes.map UInt8.toNat) <| by
    intro s t h
    apply ext_bytes
    exact List.map_injective_iff.2 (fun a b => UInt8.toNat_inj.1) h

def strcmp (s t : CStr) : Int := if s < t then -1 else if s = t then 0 else 1

theorem takeWhile_bytes (s : CStr) : s.bytes.takeWhile (· ≠ 0) = s.bytes := by
  rw [List.takeWhile_eq_self_iff]
  intro b hb
  have : b ≠ 0 := fun e => s.nul_notMem (e ▸ hb)
  simpa using this

@[simp]
theorem ofMem_bytes (s : CStr) : ofMem s.bytes = s := by
  apply ext_bytes
  apply takeWhile_bytes

@[simp]
theorem ofMem_append_nul (s : CStr) (mem : List UInt8) : ofMem (s.bytes ++ 0 :: mem) = s := by
  apply ext_bytes
  dsimp only [ofMem]
  rw [List.takeWhile_append_of_pos]
  . simp
  . intro b hb
    have : b ≠ 0 := fun e => s.nul_notMem (e ▸ hb)
    simpa using this

@[simp]
theorem ofMem_toMem_append (s : CStr) (mem : List UInt8) : ofMem (s.toMem ++ mem) = s := by
  simp [toMem]

theorem truncate_eq_self {n : Nat} {s : CStr} (h : s.strlen ≤ n) : s.truncate n = s := by
  apply ext_bytes
  exact List.take_of_length_le h

theorem strlen_truncate_le (n : Nat) (s : CStr) : (s.truncate n).strlen ≤ n := by
  simp [truncate, strlen]

end CStr
