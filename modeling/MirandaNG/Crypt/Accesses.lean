import MirandaNG.Crypt.StdCrypt

/-!
This module contains the calls of the provider of the core together with the memory they touch, and
proves for which buffers they stay inside the memory they are given or allocate.
-/

namespace Crypt

inductive Buffer where
  | src
  | tmpBuf
  | pBuf
  | result
deriving DecidableEq

structure Access where
  buffer : Buffer
  start : Int
  count : Nat

def Access.Inside (size : Buffer → Nat) (a : Access) : Prop :=
  0 ≤ a.start ∧ a.start + a.count ≤ size a.buffer

instance {size : Buffer → Nat} {a : Access} : Decidable (a.Inside size) :=
  inferInstanceAs (Decidable (_ ∧ _))

structure Traced (α : Type) where
  value : α
  accesses : List Access

def Traced.Inside {α : Type} (size : Buffer → Nat) (run : Traced α) : Prop :=
  ∀ a ∈ run.accesses, a.Inside size

def blockAccesses (pin presult : Buffer) (n : Nat) : List Access :=
  (List.range (n / BLOCK_SIZE)).flatMap fun (i : Nat) =>
    [⟨pin, i * BLOCK_SIZE, BLOCK_SIZE⟩, ⟨presult, i * BLOCK_SIZE, BLOCK_SIZE⟩]

namespace CStdCrypt

def encodeSizes (cbLen : Nat) : Buffer → Nat
  | .src => cbLen
  | .tmpBuf => cbLen + 2
  | .result => padded (cbLen + 2)
  | .pBuf => 0

def decodeSizes (bufLen : Nat) : Buffer → Nat
  | .pBuf => bufLen
  | .result => bufLen + 1
  | _ => 0

def encodeBufferRun (crypt : CStdCrypt) (scratch : Nat → UInt8) (src : Option (List UInt8))
    : Traced (CStdCrypt × Option (List UInt8)) :=
  match src with
  | none => ⟨(crypt, none), []⟩
  | some src =>
    if !crypt.m_valid ∨ src.length ≥ 0xFFFE then
      ⟨(crypt, none), []⟩
    else
      let cbLen := src.length + 2
      let prefixed := UInt8.ofNat src.length :: UInt8.ofNat (src.length / 256) :: src
      let fill := (List.range (padded cbLen - cbLen)).map (fun i => scratch (cbLen + i))
      let accesses := [⟨.tmpBuf, 0, 2⟩, ⟨.src, 0, src.length⟩, ⟨.tmpBuf, 2, src.length⟩]
      match crypt.m_aes.ResetChain.Encrypt (prefixed ++ fill) with
      | (aes, none) => ⟨({ crypt with m_aes := aes }, none), accesses⟩
      | (aes, some result) =>
        ⟨({ crypt with m_aes := aes }, some result),
          accesses ++ blockAccesses .tmpBuf .result (padded cbLen)⟩

def decodeBufferRun (crypt : CStdCrypt) (heap : Int → UInt8) (pBuf : Option (List UInt8))
    : Traced (CStdCrypt × Option (List UInt8)) :=
  match pBuf with
  | none => ⟨(crypt, none), []⟩
  | some pBuf =>
    let bufLen := pBuf.length
    if !crypt.m_valid ∨ bufLen % BLOCK_SIZE ≠ 0 then
      ⟨(crypt, none), []⟩
    else
      match crypt.m_aes.ResetChain.Decrypt pBuf with
      | (aes, none) => ⟨({ crypt with m_aes := aes }, none), []⟩
      | (aes, some result) =>
        let crypt := { crypt with m_aes := aes }
        let cbLen := (result.getD 0 0).toNat + 256 * (result.getD 1 0).toNat
        let accesses := blockAccesses .pBuf .result bufLen ++ [⟨.result, bufLen, 1⟩, ⟨.result, 0, 2⟩]
        if cbLen > bufLen then
          ⟨(crypt, none), accesses⟩
        else
          ⟨(crypt, some (((result ++ [0, heap (bufLen + 1)]).drop 2).take cbLen)),
            accesses ++ [⟨.result, 2, cbLen⟩, ⟨.result, 0, cbLen⟩]⟩

def decodeStringRun (crypt : CStdCrypt) (heap : Int → UInt8) (pBuf : Option (List UInt8))
    : Traced (CStdCrypt × Option (List UInt8)) :=
  match crypt.decodeBufferRun heap pBuf with
  | ⟨(crypt, none), accesses⟩ => ⟨(crypt, none), accesses⟩
  | ⟨(crypt, some result), accesses⟩ =>
    let accesses := accesses ++ [⟨.result, (result.length : Int) - 1, 1⟩]
    if result.getLast?.getD (heap (-1)) ≠ 0 then
      ⟨(crypt, none), accesses⟩
    else
      ⟨(crypt, some result), accesses⟩

variable {crypt : CStdCrypt} {scratch : Nat → UInt8} {heap : Int → UInt8}
  {src pBuf : Option (List UInt8)}

theorem encodeBufferRun_value
    : (crypt.encodeBufferRun scratch src).value = crypt.encodeBuffer scratch src := by
  unfold encodeBufferRun encodeBuffer
  cases src with
  | none => rfl
  | some src =>
    dsimp only
    split
    . rfl
    . generalize crypt.m_aes.ResetChain.Encrypt _ = encrypted
      obtain ⟨aes, result⟩ := encrypted
      cases result with
      | none => rfl
      | some result => rfl

def EncodeBufferSafe (crypt : CStdCrypt) (src : List UInt8) : Prop :=
  ∀ scratch, (crypt.encodeBufferRun scratch (some src)).Inside (encodeSizes src.length)

def DecodeBufferSafe (crypt : CStdCrypt) (pBuf : List UInt8) : Prop :=
  ∀ heap, ∀ result ∈ (crypt.decodeBufferRun heap (some pBuf)).value.2,
    (crypt.decodeBufferRun heap (some pBuf)).Inside (decodeSizes pBuf.length) ∧
      result.length + 2 ≤ pBuf.length

def DecodeStringSafe (crypt : CStdCrypt) (pBuf : List UInt8) : Prop :=
  ∀ heap, (crypt.decodeStringRun heap (some pBuf)).value.2.isSome →
    (crypt.decodeStringRun heap (some pBuf)).Inside (decodeSizes pBuf.length)

def declared (crypt : CStdCrypt) (pBuf : List UInt8) : Option Nat :=
  if !crypt.m_valid ∨ pBuf.length % BLOCK_SIZE ≠ 0 then
    none
  else
    (crypt.m_aes.ResetChain.Decrypt pBuf).2.map fun result =>
      (result.getD 0 0).toNat + 256 * (result.getD 1 0).toNat

section Inside

variable {size : Buffer → Nat}

theorem inside_blockAccesses {pin presult : Buffer} {n : Nat} (hn : n % BLOCK_SIZE = 0) (hpos : n ≠ 0)
    : (∀ a ∈ blockAccesses pin presult n, a.Inside size) ↔ n ≤ size pin ∧ n ≤ size presult := by
  unfold blockAccesses Access.Inside
  simp only [BLOCK_SIZE] at hn ⊢
  constructor
  . intro h
    have hlast (a : Access) (ha : a ∈ ([⟨pin, (n / 16 - 1 : Nat) * 16, 16⟩,
        ⟨presult, (n / 16 - 1 : Nat) * 16, 16⟩] : List Access)) := by
      apply h a
      rw [List.mem_flatMap]
      exact ⟨n / 16 - 1, List.mem_range.2 (by omega), ha⟩
    have hpin := hlast _ (List.mem_cons_self ..)
    have hresult := hlast _ (List.mem_cons_of_mem _ (List.mem_singleton_self _))
    dsimp only at hpin hresult
    omega
  . intro h a ha
    rw [List.mem_flatMap] at ha
    obtain ⟨i, hi, ha⟩ := ha
    have := List.mem_range.1 hi
    simp only [List.mem_cons, List.not_mem_nil, or_false] at ha
    obtain rfl | rfl := ha
    . dsimp only
      omega
    . dsimp only
      omega

end Inside

theorem encodeBufferRun_inside_iff (crypt : CStdCrypt) (scratch : Nat → UInt8) (src : List UInt8)
    : (crypt.encodeBufferRun scratch (some src)).Inside (encodeSizes src.length)
        ↔
      crypt.Refuses (some src) ∨ (src.length + 2) % BLOCK_SIZE = 0 := by
  have hle := le_padded (src.length + 2)
  have hmod := padded_mod (src.length + 2)
  have hpadded : padded (src.length + 2) ≤ src.length + 2 ↔ (src.length + 2) % BLOCK_SIZE = 0 := by
    unfold padded BLOCK_SIZE
    dsimp only
    split <;> omega
  have hprefix : ∀ a ∈ ([⟨.tmpBuf, 0, 2⟩, ⟨.src, 0, src.length⟩, ⟨.tmpBuf, 2, src.length⟩] : List Access),
      a.Inside (encodeSizes src.length) := by
    simp only [List.forall_mem_cons, Access.Inside, encodeSizes]
    refine ⟨by omega, by omega, by omega, List.forall_mem_nil _⟩
  rw [← @encodeBuffer_eq_none_iff crypt scratch, ← encodeBufferRun_value]
  unfold encodeBufferRun
  dsimp only
  split
  . exact iff_of_true (List.forall_mem_nil _) (.inl rfl)
  . generalize crypt.m_aes.ResetChain.Encrypt _ = encrypted
    obtain ⟨aes, result⟩ := encrypted
    cases result with
    | none => exact iff_of_true hprefix (.inl rfl)
    | some result =>
      have hblocks := @inside_blockAccesses (encodeSizes src.length) .tmpBuf .result _ hmod
        (by omega)
      unfold Traced.Inside
      dsimp only
      rw [List.forall_mem_append, hblocks, ← hpadded]
      simp only [reduceCtorEq, false_or, encodeSizes, le_refl, and_true]
      exact and_iff_right hprefix

theorem encodeBufferSafe_iff (crypt : CStdCrypt) (src : List UInt8)
    : crypt.EncodeBufferSafe src
        ↔
      crypt.Refuses (some src) ∨ (src.length + 2) % BLOCK_SIZE = 0 := by
  unfold EncodeBufferSafe
  simp only [encodeBufferRun_inside_iff, forall_const]

end CStdCrypt

namespace CRijndael

theorem length_decryptBlocks (aes : CRijndael) (blocks : List Block)
    : (aes.decryptBlocks blocks).2.length = blocks.length := by
  induction blocks generalizing aes with
  | nil => rfl
  | cons pin rest ih => simp [decryptBlocks, ih]

theorem length_Decrypt {aes : CRijndael} {pin result : List UInt8}
    (h : (aes.Decrypt pin).2 = some result)
    : result.length = pin.length ∧ pin.length ≠ 0 := by
  unfold Decrypt at h
  split at h
  . cases h
  . split at h
    . cases h
    . next hlen =>
      rw [not_or, not_not] at hlen
      cases h
      rw [length_ofBlocks, length_decryptBlocks, length_toBlocks]
      exact ⟨Nat.div_mul_cancel (Nat.dvd_of_mod_eq_zero hlen.2), hlen.1⟩

end CRijndael

namespace CStdCrypt

variable {crypt : CStdCrypt} {heap : Int → UInt8} {bytes : List UInt8} {n : Nat}

theorem decodeBufferRun_none (h : crypt.declared bytes = none)
    : (crypt.decodeBufferRun heap (some bytes)).value.2 = none := by
  unfold declared at h
  unfold decodeBufferRun
  dsimp only
  split
  . rfl
  . next hvalid =>
    rw [if_neg hvalid, Option.map_eq_none_iff] at h
    generalize crypt.m_aes.ResetChain.Decrypt bytes = decrypted at h
    obtain ⟨aes, result⟩ := decrypted
    cases h
    rfl

theorem decodeBufferRun_some (h : crypt.declared bytes = some n)
    : bytes.length % BLOCK_SIZE = 0 ∧ bytes.length ≠ 0 ∧
        if n > bytes.length then
          (crypt.decodeBufferRun heap (some bytes)).value.2 = none
        else
          ∃ decoded : List UInt8, decoded.length = n ∧
            (n = bytes.length → decoded.getLast? = some (heap (bytes.length + 1))) ∧
            (crypt.decodeBufferRun heap (some bytes)).value.2 = some decoded ∧
            (crypt.decodeBufferRun heap (some bytes)).accesses
              = blockAccesses .pBuf .result bytes.length ++
                  [⟨.result, bytes.length, 1⟩, ⟨.result, 0, 2⟩, ⟨.result, 2, n⟩, ⟨.result, 0, n⟩] := by
  unfold declared at h
  unfold decodeBufferRun
  dsimp only
  split at h
  . cases h
  . next hvalid =>
    rw [Option.map_eq_some_iff] at h
    obtain ⟨result, hdecrypt, hn⟩ := h
    obtain ⟨hlength, hpos⟩ := CRijndael.length_Decrypt hdecrypt
    rw [if_neg hvalid]
    refine ⟨not_not.1 (not_or.1 hvalid).2, hpos, ?_⟩
    generalize crypt.m_aes.ResetChain.Decrypt bytes = decrypted at hdecrypt ⊢
    obtain ⟨aes, decoded⟩ := decrypted
    cases hdecrypt
    dsimp only
    rw [hn]
    split
    . rfl
    . next hn =>
      refine ⟨_, ?_, fun heq => ?_, rfl, by simp⟩
      . rw [List.length_take, List.length_drop, List.length_append, hlength]
        simp only [List.length_cons, List.length_nil]
        omega
      . rw [List.take_of_length_le (by simp [hlength, heq]), List.drop_append_of_le_length]
        . simp
        . unfold BLOCK_SIZE at hvalid
          omega

theorem inside_decode (hmod : bytes.length % BLOCK_SIZE = 0) (hpos : bytes.length ≠ 0) (n : Nat)
    : (∀ a ∈ blockAccesses .pBuf .result bytes.length ++
          [⟨.result, bytes.length, 1⟩, ⟨.result, 0, 2⟩, ⟨.result, 2, n⟩, ⟨.result, 0, n⟩],
        a.Inside (decodeSizes bytes.length))
        ↔
      n + 1 ≤ bytes.length := by
  rw [List.forall_mem_append, inside_blockAccesses hmod hpos]
  simp only [List.forall_mem_cons, List.not_mem_nil, false_imp_iff, implies_true, and_true,
    Access.Inside, decodeSizes]
  omega

theorem decodeBufferSafe_iff (crypt : CStdCrypt) (bytes : List UInt8)
    : crypt.DecodeBufferSafe bytes
        ↔
      ∀ n ∈ crypt.declared bytes, n ≠ bytes.length ∧ n + 1 ≠ bytes.length := by
  unfold DecodeBufferSafe
  cases hdeclared : crypt.declared bytes with
  | none =>
    refine iff_of_true (fun heap result hresult => ?_) nofun
    rw [decodeBufferRun_none hdeclared] at hresult
    cases hresult
  | some n =>
    have hrun := fun heap => @decodeBufferRun_some _ heap _ _ hdeclared
    obtain ⟨hmod, hpos, _⟩ := hrun fun _ => 0
    simp only [Option.mem_some_iff, forall_eq']
    by_cases hlong : n > bytes.length
    . refine iff_of_true (fun heap result hresult => ?_) (by omega)
      have hnone := (hrun heap).2.2
      rw [if_pos hlong] at hnone
      rw [hnone] at hresult
      cases hresult
    . simp only [if_neg hlong] at hrun
      constructor
      . intro hsafe
        obtain ⟨_, _, decoded, hlength, _, hvalue, _⟩ := hrun fun _ => 0
        have := (hsafe (fun _ => 0) decoded hvalue).2
        omega
      . intro hn heap decoded hdecoded
        obtain ⟨_, _, decoded', hlength, _, hvalue, haccesses⟩ := hrun heap
        rw [hvalue] at hdecoded
        cases hdecoded
        unfold Traced.Inside
        rw [haccesses, inside_decode hmod hpos, hlength]
        omega

theorem decodeStringRun_none (h : (crypt.decodeBufferRun heap (some bytes)).value.2 = none)
    : (crypt.decodeStringRun heap (some bytes)).value.2 = none := by
  unfold decodeStringRun
  generalize crypt.decodeBufferRun heap (some bytes) = run at h
  obtain ⟨⟨crypt', value⟩, accesses⟩ := run
  cases h
  rfl

theorem decodeStringRun_some {decoded : List UInt8}
    (h : (crypt.decodeBufferRun heap (some bytes)).value.2 = some decoded)
    : (crypt.decodeStringRun heap (some bytes)).accesses
          = (crypt.decodeBufferRun heap (some bytes)).accesses ++
              [⟨.result, (decoded.length : Int) - 1, 1⟩] ∧
        ((crypt.decodeStringRun heap (some bytes)).value.2.isSome ↔
          decoded.getLast?.getD (heap (-1)) = 0) := by
  unfold decodeStringRun
  generalize crypt.decodeBufferRun heap (some bytes) = run at h
  obtain ⟨⟨crypt', value⟩, accesses⟩ := run
  cases h
  dsimp only
  split
  . next hlast => exact ⟨rfl, iff_of_false (by simp) hlast⟩
  . next hlast => exact ⟨rfl, iff_of_true rfl (not_not.1 hlast)⟩

theorem decodeStringSafe_iff (crypt : CStdCrypt) (bytes : List UInt8)
    : crypt.DecodeStringSafe bytes
        ↔
      ∀ n ∈ crypt.declared bytes, n ≠ 0 ∧ n ≠ bytes.length := by
  unfold DecodeStringSafe
  cases hdeclared : crypt.declared bytes with
  | none =>
    refine iff_of_true (fun heap hsome => ?_) nofun
    rw [decodeStringRun_none (decodeBufferRun_none hdeclared)] at hsome
    cases hsome
  | some n =>
    have hrun := fun heap => @decodeBufferRun_some _ heap _ _ hdeclared
    obtain ⟨hmod, hpos, _⟩ := hrun fun _ => 0
    simp only [Option.mem_some_iff, forall_eq']
    by_cases hlong : n > bytes.length
    . refine iff_of_true (fun heap hsome => ?_) (by omega)
      have hnone := (hrun heap).2.2
      rw [if_pos hlong] at hnone
      rw [decodeStringRun_none hnone] at hsome
      cases hsome
    . simp only [if_neg hlong] at hrun
      have hinside (heap : Int → UInt8) (hsome : (crypt.decodeStringRun heap (some bytes)).value.2.isSome)
          : (crypt.decodeStringRun heap (some bytes)).Inside (decodeSizes bytes.length) ↔
              n ≠ 0 ∧ n ≠ bytes.length := by
        obtain ⟨_, _, decoded, hlength, _, hvalue, haccesses⟩ := hrun heap
        unfold Traced.Inside
        rw [(decodeStringRun_some hvalue).1, haccesses, List.forall_mem_append,
          inside_decode hmod hpos, List.forall_mem_singleton, hlength]
        simp only [Access.Inside, decodeSizes]
        omega
      refine ⟨fun hsafe => ?_, fun hn heap hsome => (hinside heap hsome).2 hn⟩
      by_contra hn
      obtain ⟨_, _, decoded, hlength, hlast, hvalue, _⟩ := hrun fun _ => 0
      have hsome := (decodeStringRun_some hvalue).2.2 <| by
        by_cases hzero : n = 0
        . rw [hzero, List.length_eq_zero_iff] at hlength
          rw [hlength]
          rfl
        . rw [hlast (by omega)]
          rfl
      exact hn ((hinside _ hsome).1 (hsafe _ hsome))

theorem safe_iff (crypt : CStdCrypt)
    : (∀ pBuf, crypt.DecodeBufferSafe pBuf ↔
        ∀ n ∈ crypt.declared pBuf, n ≠ pBuf.length ∧ n + 1 ≠ pBuf.length) ∧
      (∀ pBuf, crypt.DecodeStringSafe pBuf ↔ ∀ n ∈ crypt.declared pBuf, n ≠ 0 ∧ n ≠ pBuf.length) ∧
      ∀ src, crypt.EncodeBufferSafe src ↔
        crypt.Refuses (some src) ∨ (src.length + 2) % BLOCK_SIZE = 0 :=
  ⟨crypt.decodeBufferSafe_iff, crypt.decodeStringSafe_iff, crypt.encodeBufferSafe_iff⟩

theorem not_safe_plain
    : let crypt : CStdCrypt := ⟨true, true, id, id, .replicate _ 0, .replicate _ 0⟩
      ¬ crypt.DecodeBufferSafe (16 :: List.replicate 15 0) ∧
        ¬ crypt.DecodeStringSafe (List.replicate 16 0) ∧ ¬ crypt.EncodeBufferSafe [0] := by
  intro crypt
  rw [decodeBufferSafe_iff, decodeStringSafe_iff, encodeBufferSafe_iff]
  refine ⟨fun h => (h 16 ?_).1 rfl, fun h => (h 0 ?_).1 rfl, ?_⟩
  . decide +kernel
  . decide +kernel
  . decide

end CStdCrypt
end Crypt
