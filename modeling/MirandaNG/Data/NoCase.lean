import MirandaNG.Data.CStr
import MirandaNG.Order.Compare

/-!
This module contains the comparisons of C strings that do not look at the case of the letters A to Z.
-/

namespace CStr

def toLower (c : UInt8) : UInt8 := if 65 ≤ c ∧ c ≤ 90 then c + 32 else c

theorem toLower_ne_zero {c : UInt8} (h : c ≠ 0) : toLower c ≠ 0 := by
  unfold toLower
  split
  . next hupper =>
    have hlow := UInt8.le_iff_toNat_le.1 hupper.1
    have hhigh := UInt8.le_iff_toNat_le.1 hupper.2
    intro hzero
    have := congrArg UInt8.toNat hzero
    rw [UInt8.toNat_add] at this
    simp only [UInt8.reduceToNat] at hlow hhigh this
    omega
  . exact h

def lower (s : CStr) : CStr where
  bytes := s.bytes.map toLower
  nul_notMem := by
    intro h
    obtain ⟨c, hc, hzero⟩ := List.mem_map.1 h
    apply toLower_ne_zero _ hzero
    rintro rfl
    exact s.nul_notMem hc

def stricmp (s t : CStr) : Int := Compare.ofOrder s.lower t.lower

theorem stricmp_preorder : Compare.TotalPreorder stricmp := Compare.TotalPreorder.ofOrder.comap lower

end CStr

def mir_strcmpi : Option CStr → Option CStr → Int
  | none, none => 0
  | none, some _ => -1
  | some _, none => 1
  | some s, some t => s.stricmp t
