import MirandaNG.Data.Bytes
import MirandaNG.WhatsApp.Node

/-!
This module proves that the reader of binary nodes finds the numbers, sizes and packed strings that
the writer has written.
-/

namespace WhatsApp

open Bounded

namespace WAReader

variable {b : Buffer}

theorem reads_readIntN (src : List UInt8)
    : Reads b (readIntN b src.length) src (src.foldl (fun res it => res * 256 + it.toNat) 0) := by
  have hread : Reads b (readIntN b src.length) (src ++ []) _ := Reads.left_bytes (.pure _)
  rwa [List.append_nil] at hread

theorem reads_readInt8 (tag : UInt8) : Reads b (readInt8 b) [tag] tag.toNat := by
  have hread := reads_readIntN (b := b) [tag]
  simp only [List.foldl_cons, List.foldl_nil, Nat.zero_mul, Nat.zero_add] at hread
  exact hread

theorem toNat_ofNat_mod (n : Nat) : (UInt8.ofNat (n % 256)).toNat = n % 256 :=
  UInt8.toNat_ofNat_of_lt' (Nat.mod_lt _ (by decide))

theorem writeByte_natCast (n : Nat) : writeByte n = [UInt8.ofNat (n % 256)] := by
  unfold writeByte
  congr 1

theorem reads_writeByte {n : Nat} (h : n < 256) : Reads b (readInt8 b) (writeByte n) n := by
  rw [writeByte_natCast, Nat.mod_eq_of_lt h]
  have hread := reads_readInt8 (b := b) (UInt8.ofNat n)
  rwa [UInt8.toNat_ofNat_of_lt' h] at hread

theorem length_writeIntN (n k : Nat) : (writeIntN n k).length = k := by
  induction k with
  | zero => rfl
  | succ k ih => simp [writeIntN, writeByte, ih]

theorem foldl_writeIntN (n k res : Nat)
    : (writeIntN n k).foldl (fun res it => res * 256 + it.toNat) res
      = res * 256 ^ k + n % 256 ^ k := by
  apply foldl_bigEndian rfl
  intro k
  have hbyte : writeByte ((n : Int) / 256 ^ k) = [UInt8.ofNat (n / 256 ^ k % 256)] :=
    writeByte_natCast (n / 256 ^ k)
  rw [writeIntN, hbyte, List.singleton_append]

theorem reads_writeIntN {n k : Nat} (h : n < 256 ^ k)
    : Reads b (readIntN b k) (writeIntN n k) n := by
  have hread := reads_readIntN (b := b) (writeIntN n k)
  rwa [length_writeIntN, foldl_writeIntN, Nat.mod_eq_of_lt h, Nat.zero_mul, Nat.zero_add] at hread

theorem reads_writeInt20 {n : Nat} (h : n < 2 ^ 20) : Reads b (readInt20 b) (writeInt20 n) n := by
  have hbytes : writeInt20 n
      = [UInt8.ofNat (n / 65536 % 256), UInt8.ofNat (n / 256 % 256), UInt8.ofNat (n % 256)] := by
    unfold writeInt20
    rw [show ((n : Int) / 65536) = (n / 65536 : Nat) by simp,
      show ((n : Int) / 256) = (n / 256 : Nat) by simp, writeByte_natCast, writeByte_natCast,
      writeByte_natCast]
    rfl
  have hvalue : ((UInt8.ofNat (n / 65536 % 256) &&& 0x0F).toNat <<< 16) +
      ((UInt8.ofNat (n / 256 % 256)).toNat <<< 8) + (UInt8.ofNat (n % 256)).toNat = n := by
    rw [UInt8.toNat_and, toNat_ofNat_mod, toNat_ofNat_mod, toNat_ofNat_mod, Nat.shiftLeft_eq,
      Nat.shiftLeft_eq]
    have hand : n / 65536 % 256 &&& (0x0F : UInt8).toNat = n / 65536 % 256 % 16 :=
      Nat.and_two_pow_sub_one_eq_mod _ 4
    rw [hand]
    omega
  have hread : Reads b (readInt20 b) (writeInt20 n ++ []) n := by
    rw [hbytes]
    refine Reads.left_bytes ?_
    simp only [List.getD_cons_zero, List.getD_cons_succ, hvalue]
    exact .pure n
  rwa [List.append_nil] at hread

theorem toInt_of_lt {n : Nat} (h : n < 2 ^ 31) : toInt n = n := by
  unfold toInt
  apply Int.bmod_eq_of_le <;> omega

theorem reads_readSize {x : Reader Nat} {src : List UInt8} {n : Nat} (hx : Reads b x src n)
    (h : n < 2 ^ 31)
    : Reads b (readSize x) src n := by
  unfold readSize
  rw [← List.append_nil src]
  refine hx.bind ?_
  rw [toInt_of_lt h]
  exact .size_bind (.pure _)

def sizeReader (b : Buffer) (tag : Nat) : Reader Int :=
  if tag = BINARY_8 then readSize (readInt8 b)
  else if tag = BINARY_20 then readSize (readInt20 b)
  else readSize (readInt32 b)

theorem writeLength_spec {n : Nat} (h : n < 2 ^ 31)
    : ∃ (tag : Nat) (src : List UInt8), writeLength n = writeByte tag ++ src ∧
      (tag = BINARY_8 ∨ tag = BINARY_20 ∨ tag = BINARY_32) ∧ Reads b (sizeReader b tag) src n := by
  unfold writeLength
  by_cases h20 : n < 2 ^ 20
  . rw [if_neg (by omega)]
    by_cases h8 : n < 256
    . have h8' : n < 256 ^ 1 := by omega
      rw [if_neg (by omega)]
      refine ⟨BINARY_8, _, rfl, .inl rfl, ?_⟩
      exact reads_readSize (reads_writeIntN h8') h
    . rw [if_pos (by omega)]
      refine ⟨BINARY_20, _, rfl, .inr (.inl rfl), ?_⟩
      exact reads_readSize (reads_writeInt20 h20) h
  . have h32 : n < 256 ^ 4 := by omega
    rw [if_pos (by omega)]
    refine ⟨BINARY_32, _, rfl, .inr (.inr rfl), ?_⟩
    exact reads_readSize (reads_writeIntN h32) h

theorem reads_readStringFromChars (src : List UInt8)
    : Reads b (readStringFromChars b src.length) src src := by
  apply Reads.left_bind
  intro n hn
  rw [if_neg (by omega)]
  exact Reads.copy src

theorem writeListSize_spec {n : Nat} (h : n < 2 ^ 16)
    : ∃ (tag : Nat) (src : List UInt8), writeListSize n = writeByte tag ++ src ∧
      (tag = LIST_EMPTY ∨ tag = LIST_8 ∨ tag = LIST_16) ∧ Reads b (readListSize b tag) src n := by
  unfold writeListSize
  by_cases h0 : n = 0
  . subst h0
    exact ⟨LIST_EMPTY, [], rfl, .inl rfl, .pure _⟩
  rw [if_neg h0]
  by_cases h8 : n < 256
  . have h8' : n < 256 ^ 1 := by omega
    rw [if_pos h8]
    exact ⟨LIST_8, _, rfl, .inr (.inl rfl), (reads_writeIntN h8').map _⟩
  . have h16 : n < 256 ^ 2 := by omega
    rw [if_neg h8]
    exact ⟨LIST_16, _, rfl, .inr (.inr rfl), (reads_writeIntN h16).map _⟩

def isPacked (tag : Nat) (c : UInt8) : Bool :=
  if tag = NIBBLE_8 then isDigit c ∨ c = 45 ∨ c = 46 else isDigit c ∨ 65 ≤ c ∧ c ≤ 70

def pack (tag : Nat) (c : UInt8) : UInt8 := if tag = NIBBLE_8 then packNibble c else packHex c

def unpack (tag val : Nat) : UInt8 := if tag = NIBBLE_8 then unpackNibble val else unpackHex val

theorem unpack_pack {tag : Nat} {c : UInt8} (h : isPacked tag c)
    : pack tag c < 16 ∧ unpack tag (pack tag c).toNat = c := by
  unfold isPacked at h
  unfold pack unpack
  by_cases htag : tag = NIBBLE_8
  . simp only [if_pos htag] at h ⊢
    have hall : ∀ c : UInt8, (isDigit c ∨ c = 45 ∨ c = 46) →
        packNibble c < 16 ∧ unpackNibble (packNibble c).toNat = c :=
      forall_halves (by decide)
    exact hall c (by simpa using h)
  . simp only [if_neg htag] at h ⊢
    have hall : ∀ c : UInt8, (isDigit c ∨ 65 ≤ c ∧ c ≤ 70) →
        packHex c < 16 ∧ unpackHex (packHex c).toNat = c :=
      forall_halves (by decide)
    exact hall c (by simpa using h)

theorem pack_zero (tag : Nat) : pack tag 0 < 16 := by
  unfold pack
  split <;> decide

theorem toNat_packPair {tag : Nat} {c1 c2 : UInt8} (h1 : pack tag c1 < 16) (h2 : pack tag c2 < 16)
    : (packPair tag c1 c2).toNat = 16 * (pack tag c1).toNat + (pack tag c2).toNat := by
  rw [UInt8.lt_iff_toNat_lt] at h1 h2
  replace h1 : (pack tag c1).toNat < 16 := h1
  replace h2 : (pack tag c2).toNat < 16 := h2
  have hshift : (pack tag c1 <<< 4).toNat = 16 * (pack tag c1).toNat := by
    rw [UInt8.toNat_shiftLeft, Nat.shiftLeft_eq]
    change (pack tag c1).toNat * 2 ^ 4 % 256 = _
    omega
  change (pack tag c1 <<< 4 + pack tag c2).toNat = _
  rw [UInt8.toNat_add, hshift]
  omega

theorem reads_unpackPairs_cons {tag n : Nat} {c1 c2 : UInt8} {src str : List UInt8}
    (h1 : pack tag c1 < 16) (h2 : pack tag c2 < 16) (h : Reads b (unpackPairs b tag n) src str)
    : Reads b (unpackPairs b tag (n + 1)) (packPair tag c1 c2 :: src)
        (unpack tag (pack tag c1).toNat :: unpack tag (pack tag c2).toNat :: str) := by
  have hdiv : (packPair tag c1 c2).toNat / 16 = (pack tag c1).toNat := by
    have := UInt8.lt_iff_toNat_lt.1 h2
    change (pack tag c2).toNat < 16 at this
    rw [toNat_packPair h1 h2]
    omega
  have hmod : (packPair tag c1 c2).toNat % 16 = (pack tag c2).toNat := by
    have := UInt8.lt_iff_toNat_lt.1 h2
    change (pack tag c2).toNat < 16 at this
    rw [toNat_packPair h1 h2]
    omega
  have hpair := reads_readInt8 (b := b) (packPair tag c1 c2)
  refine hpair.bind ?_
  rw [hdiv, hmod]
  have hmap := h.map (fun ret => unpack tag (pack tag c1).toNat ::
    unpack tag (pack tag c2).toNat :: ret)
  unfold unpack at *
  split <;> simp_all

def padding (tag : Nat) (str : List UInt8) : List UInt8 :=
  if str.length % 2 = 0 then [] else [unpack tag (pack tag 0).toNat]

theorem reads_packPairs {tag : Nat} {str : List UInt8} (h : ∀ c ∈ str, isPacked tag c)
    : Reads b (unpackPairs b tag ((str.length + 1) / 2)) (packPairs tag str)
        (str ++ padding tag str) := by
  fun_induction packPairs tag str with
  | case1 => exact .pure []
  | case2 c =>
    obtain ⟨hlt, hunpack⟩ := unpack_pack (h c (by simp))
    have hread := reads_unpackPairs_cons (n := 0) hlt (pack_zero tag) (.pure (b := b) [])
    rw [hunpack] at hread
    simpa [padding] using hread
  | case3 c1 c2 str ih =>
    obtain ⟨hlt1, hunpack1⟩ := unpack_pack (h c1 (by simp))
    obtain ⟨hlt2, hunpack2⟩ := unpack_pack (h c2 (by simp))
    have hread := reads_unpackPairs_cons hlt1 hlt2 (ih fun c hc => h c (by simp [hc]))
    rw [hunpack1, hunpack2] at hread
    have hlength : ((c1 :: c2 :: str).length + 1) / 2 = (str.length + 1) / 2 + 1 := by
      simp only [List.length_cons]
      omega
    have hpadding : padding tag (c1 :: c2 :: str) = padding tag str := by
      unfold padding
      simp only [List.length_cons, Nat.add_assoc, Nat.add_mod_right]
    rw [hlength, hpadding]
    exact hread

theorem reads_writePacked {tag : Nat} {str : List UInt8} (h : ∀ c ∈ str, isPacked tag c)
    (hlength : str.length ≤ 254)
    : ∃ src, writePacked str tag = writeByte tag ++ src ∧ Reads b (readPacked b tag) src str := by
  unfold writePacked
  rw [if_neg (by omega), List.append_assoc]
  refine ⟨_, rfl, ?_⟩
  refine (reads_writeByte (by split <;> omega)).bind ?_
  by_cases heven : str.length % 2 = 0
  . have hread := (reads_packPairs (b := b) h).map (fun ret => ret)
    have hcount : (str.length + 1) / 2 = (0 + str.length / 2) % 128 := by omega
    unfold padding at hread
    rw [if_pos heven, List.append_nil, hcount] at hread
    simp only [if_pos heven, ge_iff_le, show ¬128 ≤ 0 + str.length / 2 by omega, if_false]
    exact hread
  . have hread := (reads_packPairs (b := b) h).map List.dropLast
    have hcount : (str.length + 1) / 2 = (0x81 + str.length / 2) % 128 := by omega
    unfold padding at hread
    rw [if_neg heven, List.dropLast_concat, hcount] at hread
    simp only [if_neg heven, ge_iff_le, show 128 ≤ 0x81 + str.length / 2 by omega, if_true]
    exact hread

end WAReader
end WhatsApp
