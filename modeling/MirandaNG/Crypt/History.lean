import MirandaNG.Crypt.RoundTrip
import MirandaNG.Transition.Run

/-!
This module proves that the provider decodes what it has encoded whatever it was called with before: a call
leaves the key as it is, and the chain starts anew in the next one.
-/

namespace Crypt
namespace CStdCrypt

open Transition

variable {crypt crypt' crypt'' : CStdCrypt}

structure SameKey (crypt crypt' : CStdCrypt) : Prop where
  valid : crypt'.m_valid = crypt.m_valid
  aes : crypt'.m_aes.ResetChain = crypt.m_aes.ResetChain

theorem SameKey.refl (crypt : CStdCrypt) : SameKey crypt crypt := ⟨rfl, rfl⟩

theorem SameKey.trans (h : SameKey crypt crypt') (h' : SameKey crypt' crypt'') : SameKey crypt crypt'' where
  valid := h'.valid.trans h.valid
  aes := h'.aes.trans h.aes

theorem SameKey.bKeyInit (h : SameKey crypt crypt') : crypt'.m_aes.m_bKeyInit = crypt.m_aes.m_bKeyInit := by
  apply congrArg (fun aes => aes.m_bKeyInit) h.aes

theorem SameKey.inverts (h : SameKey crypt crypt') (hinv : crypt.m_aes.Inverts) : crypt'.m_aes.Inverts := by
  have hencrypt : crypt'.m_aes.EncryptBlock = crypt.m_aes.EncryptBlock := congrArg (fun aes => aes.EncryptBlock) h.aes
  have hdecrypt : crypt'.m_aes.DecryptBlock = crypt.m_aes.DecryptBlock := congrArg (fun aes => aes.DecryptBlock) h.aes
  intro b
  rw [hencrypt, hdecrypt]
  apply hinv

theorem sameKey_encodeBuffer (crypt : CStdCrypt) (scratch : Nat → UInt8) (src : Option (List UInt8))
    : SameKey crypt (crypt.encodeBuffer scratch src).1 := by
  unfold encodeBuffer
  split
  . apply SameKey.refl
  . split
    . apply SameKey.refl
    . constructor
      . rfl
      . apply CRijndael.ResetChain_Encrypt

theorem sameKey_encodeString (crypt : CStdCrypt) (scratch : Nat → UInt8) (src : Option CStr)
    : SameKey crypt (crypt.encodeString scratch src).1 := by
  unfold encodeString
  split
  . apply SameKey.refl
  . split
    . apply SameKey.refl
    . apply sameKey_encodeBuffer

theorem sameKey_decodeBuffer (crypt : CStdCrypt) (heap : Int → UInt8) (pBuf : Option (List UInt8))
    : SameKey crypt (crypt.decodeBuffer heap pBuf).1 := by
  unfold decodeBuffer
  split
  . apply SameKey.refl
  . next pBuf =>
    simp only []
    split
    . apply SameKey.refl
    . have haes := CRijndael.ResetChain_Decrypt crypt.m_aes.ResetChain pBuf
      split
      . next heq =>
        rw [heq] at haes
        exact ⟨rfl, haes⟩
      . next heq =>
        rw [heq] at haes
        split
        . exact ⟨rfl, haes⟩
        . exact ⟨rfl, haes⟩

theorem sameKey_decodeString (crypt : CStdCrypt) (heap : Int → UInt8) (pBuf : Option (List UInt8))
    : SameKey crypt (crypt.decodeString heap pBuf).1 := by
  have hbuffer := sameKey_decodeBuffer crypt heap pBuf
  unfold decodeString
  split
  . next heq =>
    rw [heq] at hbuffer
    exact hbuffer
  . next heq =>
    rw [heq] at hbuffer
    split
    . exact hbuffer
    . exact hbuffer

inductive Call where
  | encodeString (scratch : Nat → UInt8) (src : Option CStr)
  | encodeBuffer (scratch : Nat → UInt8) (src : Option (List UInt8))
  | decodeString (heap : Int → UInt8) (pBuf : Option (List UInt8))
  | decodeBuffer (heap : Int → UInt8) (pBuf : Option (List UInt8))

def call (crypt : CStdCrypt) : Call → CStdCrypt
  | .encodeString scratch src => (crypt.encodeString scratch src).1
  | .encodeBuffer scratch src => (crypt.encodeBuffer scratch src).1
  | .decodeString heap pBuf => (crypt.decodeString heap pBuf).1
  | .decodeBuffer heap pBuf => (crypt.decodeBuffer heap pBuf).1

theorem sameKey_call (crypt : CStdCrypt) (c : Call) : SameKey crypt (crypt.call c) := by
  cases c with
  | encodeString scratch src => apply sameKey_encodeString
  | encodeBuffer scratch src => apply sameKey_encodeBuffer
  | decodeString heap pBuf => apply sameKey_decodeString
  | decodeBuffer heap pBuf => apply sameKey_decodeBuffer

theorem sameKey_of_run {ok : CStdCrypt → Call → Prop} (h : Run call ok crypt crypt') : SameKey crypt crypt' := by
  apply h.inv (I := fun crypt' => SameKey crypt crypt')
  . intro crypt' c hsame _
    apply hsame.trans (sameKey_call crypt' c)
  . apply SameKey.refl

structure Keyed (crypt : CStdCrypt) : Prop where
  valid : crypt.m_valid = true
  bKeyInit : crypt.m_aes.m_bKeyInit = true

theorem SameKey.keyed (h : SameKey crypt crypt') (hkey : crypt.Keyed) : crypt'.Keyed where
  valid := h.valid.trans hkey.valid
  bKeyInit := h.bKeyInit.trans hkey.bKeyInit

theorem Keyed.refuses_iff (h : crypt.Keyed) (src : List UInt8)
    : crypt.Refuses (some src) ↔ 0xFFFE ≤ src.length := by
  unfold Refuses
  simp [h.valid, h.bKeyInit]

def RoundTripsBuffer (crypt : CStdCrypt) (scratch : Nat → UInt8) (heap : Int → UInt8) (src : List UInt8) : Prop :=
  ∃ result, (crypt.encodeBuffer scratch (some src)).2 = some result
    ∧ ((crypt.encodeBuffer scratch (some src)).1.decodeBuffer heap (some result)).2 = some src

def RoundTripsString (crypt : CStdCrypt) (scratch : Nat → UInt8) (heap : Int → UInt8) (src : CStr) : Prop :=
  ∃ result, (crypt.encodeString scratch (some src)).2 = some result
    ∧ ((crypt.encodeString scratch (some src)).1.decodeString heap (some result)).2 = some src.toMem

theorem roundTripsBuffer (hkey : crypt.Keyed) (hinv : crypt.m_aes.Inverts) (scratch : Nat → UInt8)
    (heap : Int → UInt8) {src : List UInt8} (h : src.length < 0xFFFE)
    : crypt.RoundTripsBuffer scratch heap src := by
  have hsame := sameKey_encodeBuffer crypt scratch (some src)
  have hdecode := @engine_congr crypt _ hsame.valid hsame.aes
  cases hresult : (crypt.encodeBuffer scratch (some src)).2 with
  | none =>
    rw [encodeBuffer_eq_none_iff, hkey.refuses_iff] at hresult
    omega
  | some result =>
    refine ⟨result, hresult, ?_⟩
    have heq : ((crypt.encodeBuffer scratch (some src)).1.decodeBuffer heap (some result)).2
        = (crypt.decodeBuffer heap (some result)).2 :=
      congrArg (fun engine => engine.decodeBuffer heap (some result)) hdecode
    rw [heq]
    apply decodeBuffer_encodeBuffer hinv heap hresult

theorem roundTripsString_iff (hkey : crypt.Keyed) (hinv : crypt.m_aes.Inverts) (scratch : Nat → UInt8)
    (heap : Int → UInt8) (src : CStr)
    : crypt.RoundTripsString scratch heap src ↔ src.strlen < 0xFFFD := by
  have hlength : src.toMem.length = src.strlen + 1 := List.length_append
  have hnone := @encodeString_eq_none_iff crypt scratch src
  rw [hkey.refuses_iff] at hnone
  have hsame := sameKey_encodeString crypt scratch (some src)
  have hdecode := @engine_congr crypt _ hsame.valid hsame.aes
  constructor
  . intro ⟨result, hresult, _⟩
    rw [hresult] at hnone
    have hshort : ¬0xFFFE ≤ src.toMem.length := fun hlong => Option.some_ne_none _ (hnone.mpr hlong)
    omega
  . intro hshort
    cases hresult : (crypt.encodeString scratch (some src)).2 with
    | none =>
      have hlong := hnone.mp hresult
      omega
    | some result =>
      refine ⟨result, hresult, ?_⟩
      have heq : ((crypt.encodeString scratch (some src)).1.decodeString heap (some result)).2
          = (crypt.decodeString heap (some result)).2 :=
        congrArg (fun engine => engine.decodeString heap (some result)) hdecode
      rw [heq]
      apply decodeString_encodeString hinv hresult

theorem roundTrips_of_run (hkey : crypt.Keyed) (hinv : crypt.m_aes.Inverts)
    (hrun : Run call (fun _ _ => True) crypt crypt') (scratch : Nat → UInt8) (heap : Int → UInt8)
    : (∀ src, src.length < 0xFFFE → crypt'.RoundTripsBuffer scratch heap src)
        ∧ ∀ src : CStr, crypt'.RoundTripsString scratch heap src ↔ src.strlen < 0xFFFD := by
  have hsame := sameKey_of_run hrun
  have hkey' := hsame.keyed hkey
  have hinv' := hsame.inverts hinv
  constructor
  . intro src h
    apply roundTripsBuffer hkey' hinv' scratch heap h
  . intro src
    apply roundTripsString_iff hkey' hinv'

def keyed : CStdCrypt := ⟨true, ⟨true, id, id, .replicate _ 0, .replicate _ 0⟩⟩

theorem roundTrips_of_run_decode
    : (keyed.call (.decodeBuffer (fun _ => 1) (some (List.replicate 16 7)))).RoundTripsString (fun _ => 2)
        (fun _ => 3) (CStr.ofMem [0x61, 0x62]) := by
  have hboth := @roundTrips_of_run keyed _ ⟨rfl, rfl⟩ (fun _ => rfl)
    (.call .init (.decodeBuffer (fun _ => 1) (some (List.replicate 16 7))) trivial) (fun _ => 2) (fun _ => 3)
  rw [hboth.2]
  decide

theorem roundTrips_of_run_long
    : ¬∀ crypt : CStdCrypt, crypt.Keyed → crypt.m_aes.Inverts → ∀ scratch heap (src : CStr),
        crypt.RoundTripsString scratch heap src := by
  intro hall
  have hzero : 0 ∉ List.replicate 0xFFFD (0x61 : UInt8) := by
    intro hmem
    exact absurd (List.eq_of_mem_replicate hmem) (by decide)
  have htrip := hall keyed ⟨rfl, rfl⟩ (fun _ => rfl) (fun _ => 0) (fun _ => 0) ⟨List.replicate 0xFFFD 0x61, hzero⟩
  rw [roundTripsString_iff ⟨rfl, rfl⟩ (fun _ => rfl)] at htrip
  unfold CStr.strlen at htrip
  rw [List.length_replicate] at htrip
  omega

end CStdCrypt
end Crypt
