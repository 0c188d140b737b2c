import MirandaNG.Crypt.StdCrypt
import Mathlib.Data.List.GetD

/-!
This module proves that the provider of the core decodes what it has encoded, if its block cipher
decrypts what it has encrypted.
-/

namespace Crypt

variable {aes : CRijndael} {crypt : CStdCrypt} {scratch : Nat → UInt8} {heap : Int → UInt8}

theorem toBlocks_append (b : Block) (mem : List UInt8) (n : Nat)
    : toBlocks (b.toList ++ mem) (n + 1) = b :: toBlocks mem n := by
  have hlen : b.toList.length = BLOCK_SIZE := Vector.length_toList
  rw [toBlocks]
  congr 1
  . apply Vector.ext
    intro i hi
    rw [Vector.getElem_ofFn, List.getD_append _ _ _ _ (by omega), List.getD_eq_getElem _ _ (by omega)]
    apply Vector.getElem_toList
  . rw [List.drop_left' hlen]

theorem toBlocks_ofBlocks {blocks : List Block} {n : Nat} (h : blocks.length = n)
    : toBlocks (ofBlocks blocks) n = blocks := by
  subst h
  induction blocks with
  | nil => rfl
  | cons b blocks ih =>
    have : ofBlocks (b :: blocks) = b.toList ++ ofBlocks blocks := rfl
    rw [this, List.length_cons, toBlocks_append, ih]

theorem ofBlocks_toBlocks {mem : List UInt8} {n : Nat} (h : mem.length = n * BLOCK_SIZE)
    : ofBlocks (toBlocks mem n) = mem := by
  induction n generalizing mem with
  | zero =>
    rw [Nat.zero_mul] at h
    rw [List.eq_nil_of_length_eq_zero h]
    rfl
  | succ n ih =>
    have hle : BLOCK_SIZE ≤ mem.length := by rw [h, Nat.succ_mul]; omega
    have hrest : ofBlocks (toBlocks (mem.drop BLOCK_SIZE) n) = mem.drop BLOCK_SIZE := by
      apply ih
      rw [List.length_drop, h, Nat.succ_mul]
      omega
    have hfst : (Vector.ofFn (n := BLOCK_SIZE) (fun i => mem.getD i 0)).toList =
        mem.take BLOCK_SIZE := by
      apply List.ext_getElem
      . rw [Vector.length_toList, List.length_take]
        omega
      . intro i hi hi'
        rw [Vector.length_toList] at hi
        rw [Vector.getElem_toList, Vector.getElem_ofFn, List.getElem_take]
        exact List.getD_eq_getElem _ _ (by omega)
    calc ofBlocks (toBlocks mem (n + 1))
      _ = (Vector.ofFn (n := BLOCK_SIZE) (fun i => mem.getD i 0)).toList ++
            ofBlocks (toBlocks (mem.drop BLOCK_SIZE) n) := rfl
      _ = mem := by rw [hrest, hfst, List.take_append_drop]

namespace CRijndael

theorem Xor_Xor (chain pin : Block) : Xor (Xor chain pin) chain = pin := by
  ext i hi
  simp only [Xor, Vector.getElem_zipWith]
  rw [UInt8.xor_comm chain[i], UInt8.xor_assoc, UInt8.xor_self, UInt8.xor_zero]

def Inverts (aes : CRijndael) : Prop := ∀ b, aes.DecryptBlock (aes.EncryptBlock b) = b

theorem decryptBlocks_encryptBlocks (hinv : aes.Inverts) (blocks : List Block)
    : (aes.decryptBlocks (aes.encryptBlocks blocks).2).2 = blocks := by
  induction blocks generalizing aes with
  | nil => rfl
  | cons pin rest ih =>
    simp only [encryptBlocks, decryptBlocks]
    rw [hinv, Xor_Xor]
    congr 1
    exact ih (show Inverts { aes with m_chain := aes.EncryptBlock (Xor aes.m_chain pin) } from hinv)

theorem Decrypt_Encrypt (hinv : aes.Inverts) {pin result : List UInt8}
    (h : (aes.Encrypt pin).2 = some result)
    : (aes.Decrypt result).2 = some pin := by
  have hlen := length_Encrypt h
  unfold Encrypt at h
  unfold Decrypt
  rw [hlen]
  split at h
  . cases h
  . next hkey =>
    rw [if_neg hkey]
    split at h
    . cases h
    . next hpin =>
      rw [if_neg hpin]
      rw [not_or, not_not] at hpin
      cases h
      have hpinLen : pin.length = pin.length / BLOCK_SIZE * BLOCK_SIZE :=
        (Nat.div_mul_cancel (Nat.dvd_of_mod_eq_zero hpin.2)).symm
      have hblocks : (aes.encryptBlocks (toBlocks pin (pin.length / BLOCK_SIZE))).2.length =
          pin.length / BLOCK_SIZE := by
        rw [length_encryptBlocks, length_toBlocks]
      simp only
      rw [toBlocks_ofBlocks hblocks, decryptBlocks_encryptBlocks hinv, ofBlocks_toBlocks hpinLen]

end CRijndael

namespace CStdCrypt

theorem decodeBuffer_encodeBuffer (hinv : crypt.m_aes.Inverts) (heap : Int → UInt8)
    {src result : List UInt8}
    (h : (crypt.encodeBuffer scratch (some src)).2 = some result)
    : (crypt.decodeBuffer heap (some result)).2 = some src := by
  obtain ⟨hshort, hlen⟩ := length_encodeBuffer h
  have hmod := padded_mod (src.length + 2)
  have hle := le_padded (src.length + 2)
  unfold encodeBuffer at h
  dsimp only at h
  split at h
  . cases h
  . next haccepted =>
    rw [not_or] at haccepted
    unfold decodeBuffer
    dsimp only
    rw [if_neg (by rw [not_or, hlen]; exact ⟨haccepted.1, by omega⟩)]
    have hinv' : crypt.m_aes.ResetChain.Inverts := hinv
    have hdec := CRijndael.Decrypt_Encrypt hinv' h
    split
    . next aes heq => simp [heq] at hdec
    . next aes plain heq =>
      rw [heq] at hdec
      cases hdec
      have hpre : (UInt8.ofNat src.length).toNat + 256 * (UInt8.ofNat (src.length / 256)).toNat =
          src.length := by
        simp only [UInt8.toNat_ofNat']
        omega
      simp only [List.cons_append, List.getD_cons_zero, List.getD_cons_succ, hpre, hlen]
      rw [if_neg (by omega)]
      simp only [List.drop_succ_cons, List.drop_zero, List.append_assoc]
      rw [List.take_left]

theorem decodeString_encodeString (hinv : crypt.m_aes.Inverts) {src : CStr} {result : List UInt8}
    (h : (crypt.encodeString scratch (some src)).2 = some result)
    : (crypt.decodeString heap (some result)).2 = some src.toMem := by
  have hbuffer : (crypt.encodeBuffer scratch (some src.toMem)).2 = some result := by
    unfold encodeString at h
    split at h
    . cases h
    . exact h
  have hdec := decodeBuffer_encodeBuffer hinv heap hbuffer
  unfold decodeString
  split
  . next heq => simp [heq] at hdec
  . next crypt' plain heq =>
    rw [heq] at hdec
    cases hdec
    simp [CStr.toMem]

end CStdCrypt
end Crypt
