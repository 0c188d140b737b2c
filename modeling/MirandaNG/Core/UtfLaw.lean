import MirandaNG.Core.Utf
import MirandaNG.Data.Bytes

/-!
This module contains the round trip of well-formed wide strings: what they are encoded to is decoded to
the string again.
-/

namespace Utf

variable {val : Nat} {ch : UInt16}

inductive WellFormed : List UInt16 → Prop where
  | nil : WellFormed []
  | single {ch : UInt16} {src : List UInt16} (hzero : ch ≠ 0) (hsurrogate : ¬(0xd800 ≤ ch ∧ ch ≤ 0xdfff))
      (h : WellFormed src)
      : WellFormed (ch :: src)
  | pair {high low : UInt16} {src : List UInt16} (hhigh : 0xd800 ≤ high ∧ high ≤ 0xdbff)
      (hlow : 0xdc00 ≤ low ∧ low ≤ 0xdfff) (h : WellFormed src)
      : WellFormed (high :: low :: src)

theorem tailByte_eq (val : Nat) : tailByte val = UInt8.ofNat (128 + val % 64) := by
  unfold tailByte
  have hmod : val &&& 0x3f = val % 64 := Nat.and_two_pow_sub_one_eq_mod val 6
  have hor : ∀ r < 64, 0x80 ||| r = 128 + r := by decide
  rw [hmod, hor _ (Nat.mod_lt _ (by decide))]

theorem tailByte_xor (val : Nat)
    : ¬(tailByte val ^^^ 0x80 ≥ 0x40) ∧ (tailByte val ^^^ 0x80).toNat = val % 64 := by
  have hall : ∀ r < 64, ¬(UInt8.ofNat (128 + r) ^^^ 0x80 ≥ 0x40) ∧ (UInt8.ofNat (128 + r) ^^^ 0x80).toNat = r := by
    decide
  rw [tailByte_eq]
  exact hall _ (Nat.mod_lt _ (by decide))

theorem tailByte_ne_zero (val : Nat) : tailByte val ≠ 0 := by
  have hall : ∀ r < 64, UInt8.ofNat (128 + r) ≠ 0 := by decide
  rw [tailByte_eq]
  exact hall _ (Nat.mod_lt _ (by decide))

theorem go_tailByte (len res val : Nat) (str : List UInt8)
    : decodeUtf8Char.go (len + 1) res (tailByte val :: str) = decodeUtf8Char.go len (res * 64 + val % 64) str := by
  obtain ⟨hsmall, hvalue⟩ := tailByte_xor val
  have hshift : res <<< 6 ||| val % 64 = res * 64 + val % 64 := by
    rw [← Nat.shiftLeft_add_eq_or_of_lt (Nat.mod_lt _ (by decide)), Nat.shiftLeft_eq]
  rw [decodeUtf8Char.go, if_neg hsmall, hvalue, hshift]

structure Leads (b : UInt8) (len high : Nat) : Prop where
  length : utf8_length b = len
  bits : (b &&& utf8_mask len).toNat = high
  large : ¬b < 0x80

theorem leads_two {high : Nat} (h : 2 ≤ high) (h' : high < 32) : Leads (UInt8.ofNat (0xc0 ||| high)) 1 high := by
  constructor <;> revert high <;> decide

theorem leads_three {high : Nat} (h : high < 16) : Leads (UInt8.ofNat (0xe0 ||| high)) 2 high := by
  constructor <;> revert high <;> decide

theorem leads_four {high : Nat} (h : high < 5) : Leads (UInt8.ofNat (0xf0 ||| high)) 3 high := by
  constructor <;> revert high <;> decide

theorem decode_two (h : 0x80 ≤ val) (h' : val < 0x800) (str : List UInt8)
    : decodeUtf8Char (UInt8.ofNat (0xc0 ||| val >>> 6)) (tailByte val :: str) = some (val, str) := by
  have hshift : val >>> 6 = val / 64 := Nat.shiftRight_eq_div_pow val 6
  have hlead := @leads_two (val / 64) (by omega) (by omega)
  rw [hshift]
  unfold decodeUtf8Char
  simp only [hlead.length]
  rw [if_neg (by simp), hlead.bits, go_tailByte, decodeUtf8Char.go]
  simp only []
  rw [if_neg (by change ¬_ < 0x80; omega)]
  congr 2
  omega

theorem decode_three (h : 0x800 ≤ val) (h' : val < 0x10000) (str : List UInt8)
    : decodeUtf8Char (UInt8.ofNat (0xe0 ||| val >>> 12)) (tailByte (val >>> 6) :: tailByte val :: str)
        =
      some (val, str) := by
  have hshift : val >>> 6 = val / 64 := Nat.shiftRight_eq_div_pow val 6
  have hshift' : val >>> 12 = val / 4096 := Nat.shiftRight_eq_div_pow val 12
  have hlead := @leads_three (val / 4096) (by omega)
  rw [hshift, hshift']
  unfold decodeUtf8Char
  simp only [hlead.length]
  rw [if_neg (by simp), hlead.bits, go_tailByte, go_tailByte, decodeUtf8Char.go]
  simp only []
  rw [if_neg (by change ¬_ < 0x800; omega)]
  congr 2
  omega

theorem decode_four (h : 0x10000 ≤ val) (h' : val < 0x110000) (str : List UInt8)
    : decodeUtf8Char (UInt8.ofNat (0xf0 ||| val >>> 18))
          (tailByte (val >>> 12) :: tailByte (val >>> 6) :: tailByte val :: str)
        =
      some (val, str) := by
  have hshift : val >>> 6 = val / 64 := Nat.shiftRight_eq_div_pow val 6
  have hshift' : val >>> 12 = val / 4096 := Nat.shiftRight_eq_div_pow val 12
  have hshift'' : val >>> 18 = val / 262144 := Nat.shiftRight_eq_div_pow val 18
  have hlead := @leads_four (val / 262144) (by omega)
  rw [hshift, hshift', hshift'']
  unfold decodeUtf8Char
  simp only [hlead.length]
  rw [if_neg (by simp), hlead.bits, go_tailByte, go_tailByte, go_tailByte, decodeUtf8Char.go]
  simp only []
  rw [if_neg (by change ¬_ < 0x10000; omega)]
  congr 2
  omega

theorem getSurrogateValue_single {src : List UInt16} (h : ¬(0xd800 ≤ ch ∧ ch ≤ 0xdfff))
    : getSurrogateValue (ch :: src) = ch.toNat := by
  unfold getSurrogateValue
  exact if_neg h

theorem surrogate_bits {n base : Nat} (h : base * 1024 ≤ n) (h' : n < base * 1024 + 1024)
    : n &&& 0x3ff = n - base * 1024 := by
  have hmod : n &&& 0x3ff = n % 1024 := Nat.and_two_pow_sub_one_eq_mod n 10
  rw [hmod]
  omega

theorem getSurrogateValue_pair {high low : UInt16} {src : List UInt16}
    (hhigh : 0xd800 ≤ high ∧ high ≤ 0xdbff) (hlow : 0xdc00 ≤ low ∧ low ≤ 0xdfff)
    : getSurrogateValue (high :: low :: src)
        =
      0x10000 + (high.toNat - 0xd800) * 1024 + (low.toNat - 0xdc00) := by
  obtain ⟨hh, hh'⟩ := hhigh
  obtain ⟨hl, hl'⟩ := hlow
  rw [UInt16.le_iff_toNat_le] at hh hh' hl hl'
  change 0xd800 ≤ high.toNat at hh
  change high.toNat ≤ 0xdbff at hh'
  change 0xdc00 ≤ low.toNat at hl
  change low.toNat ≤ 0xdfff at hl'
  have hfirst : high ≥ 0xd800 ∧ high ≤ 0xdfff := by
    rw [ge_iff_le, UInt16.le_iff_toNat_le, UInt16.le_iff_toNat_le]
    exact ⟨hh, by change high.toNat ≤ 0xdfff; omega⟩
  have hpair : ¬(high > 0xdbff ∨ low < 0xdc00 ∨ low > 0xdfff) := by
    rw [gt_iff_lt, gt_iff_lt, UInt16.lt_iff_toNat_lt, UInt16.lt_iff_toNat_lt, UInt16.lt_iff_toNat_lt]
    change ¬(0xdbff < high.toNat ∨ low.toNat < 0xdc00 ∨ 0xdfff < low.toNat)
    omega
  unfold getSurrogateValue
  simp only []
  rw [if_pos hfirst, if_neg hpair, @surrogate_bits high.toNat 54 (by omega) (by omega),
    @surrogate_bits low.toNat 55 (by omega) (by omega), Nat.shiftLeft_eq]

theorem surrogate_pair {high low : UInt16} (hhigh : 0xd800 ≤ high ∧ high ≤ 0xdbff)
    (hlow : 0xdc00 ≤ low ∧ low ≤ 0xdfff) {res : Nat}
    (hres : res = (high.toNat - 0xd800) * 1024 + (low.toNat - 0xdc00))
    : UInt16.ofNat (0xd800 ||| res >>> 10) = high ∧ UInt16.ofNat (0xdc00 ||| res &&& 0x3ff) = low := by
  obtain ⟨hh, hh'⟩ := hhigh
  obtain ⟨hl, hl'⟩ := hlow
  rw [UInt16.le_iff_toNat_le] at hh hh' hl hl'
  change 0xd800 ≤ high.toNat at hh
  change high.toNat ≤ 0xdbff at hh'
  change 0xdc00 ≤ low.toNat at hl
  change low.toNat ≤ 0xdfff at hl'
  have hdiv : res >>> 10 = res / 1024 := Nat.shiftRight_eq_div_pow res 10
  have hmod : res &&& 0x3ff = res % 1024 := Nat.and_two_pow_sub_one_eq_mod res 10
  have hor : ∀ a < 1024, 54 <<< 10 ||| a = 0xd800 + a := by
    intro a ha
    rw [← Nat.shiftLeft_add_eq_or_of_lt (i := 10) ha]
    rfl
  have hor' : ∀ a < 1024, 55 <<< 10 ||| a = 0xdc00 + a := by
    intro a ha
    rw [← Nat.shiftLeft_add_eq_or_of_lt (i := 10) ha]
    rfl
  change UInt16.ofNat (54 <<< 10 ||| res >>> 10) = high ∧ UInt16.ofNat (55 <<< 10 ||| res &&& 0x3ff) = low
  rw [hdiv, hmod, hor _ (by omega), hor' _ (by omega)]
  have hhn : 0xd800 + res / 1024 = high.toNat := by omega
  have hln : 0xdc00 + res % 1024 = low.toNat := by omega
  rw [hhn, hln, UInt16.ofNat_toNat, UInt16.ofNat_toNat]
  exact ⟨rfl, rfl⟩

structure Encodes (w : List UInt16) (bytes : List UInt8) : Prop where
  nonzero : 0 ∉ bytes
  len : mir_utf8len w = some bytes.length
  encode : Ucs2toUtf8 w bytes.length = .ok bytes
  ucs2len : ∀ n, bytes.length ≤ n → Utf8toUcs2Len.go n bytes = some w.length
  decode : ∀ n, bytes.length ≤ n → Utf8toUcs2.go n bytes w.length = .ok w

variable {src : List UInt16} {bytes : List UInt8}

theorem encodes_nil : Encodes [] [] where
  nonzero := List.not_mem_nil
  len := rfl
  encode := rfl
  ucs2len n _ := by cases n <;> rfl
  decode n _ := by cases n <;> rfl

theorem encodes_one (h : Encodes src bytes) (hzero : ch ≠ 0) (hch : ch < 0x80)
    : Encodes (ch :: src) (ch.toUInt8 :: bytes) := by
  have hnat : ch.toNat < 128 := UInt16.lt_iff_toNat_lt.mp hch
  have hbyte : ch.toUInt8.toNat = ch.toNat := by
    rw [UInt16.toNat_toUInt8]
    omega
  have hsmall : ch.toUInt8 < 0x80 := by
    rw [UInt8.lt_iff_toNat_lt, hbyte]
    exact hnat
  have hback : ch.toUInt8.toUInt16 = ch := by
    apply UInt16.toNat_inj.mp
    rw [UInt8.toNat_toUInt16, hbyte]
  constructor
  . rw [List.mem_cons, not_or]
    refine ⟨?_, h.nonzero⟩
    intro hz
    apply hzero
    rw [← hback, ← hz]
    rfl
  . rw [mir_utf8len.eq_def]
    simp only []
    rw [if_pos hch, h.len]
    rfl
  . rw [Ucs2toUtf8, if_pos hch, if_neg (by simp)]
    simp only [List.length_cons, Nat.add_sub_cancel]
    rw [h.encode]
    rfl
  . intro n hn
    obtain ⟨k, rfl⟩ : ∃ k, n = k + 1 := ⟨n - 1, by simp at hn; omega⟩
    rw [Utf8toUcs2Len.go, if_pos hsmall, h.ucs2len k (by simpa using hn)]
    rfl
  . intro n hn
    obtain ⟨k, rfl⟩ : ∃ k, n = k + 1 := ⟨n - 1, by simp at hn; omega⟩
    rw [List.length_cons, Utf8toUcs2.go, if_pos hsmall, h.decode k (by simpa using hn), hback]
    rfl

theorem decoder_at {b : UInt8} {tail : List UInt8} {len high : Nat} (hlead : Leads b len high)
    (hdecode : decodeUtf8Char b (tail ++ bytes) = some (val, bytes)) (h : Encodes src bytes) (hval : val ≤ 0xffff)
    {n : Nat} (hn : (b :: tail ++ bytes).length ≤ n)
    : Utf8toUcs2Len.go n (b :: tail ++ bytes) = some (src.length + 1)
        ∧
      Utf8toUcs2.go n (b :: tail ++ bytes) (src.length + 1) = .ok (UInt16.ofNat val :: src) := by
  obtain ⟨k, rfl⟩ : ∃ k, n = k + 1 := ⟨n - 1, by simp at hn; omega⟩
  have hk : bytes.length ≤ k := by
    simp at hn
    omega
  constructor
  . rw [List.cons_append, Utf8toUcs2Len.go, if_neg hlead.large, hdecode]
    simp only []
    rw [if_pos (by omega), h.ucs2len k hk, if_neg (by omega)]
    rfl
  . rw [List.cons_append, Utf8toUcs2.go, if_neg hlead.large, hdecode]
    simp only []
    rw [if_pos hval, h.decode k hk]
    rfl

theorem lead_ne_zero {b : UInt8} {len high : Nat} (h : Leads b len high) : b ≠ 0 := by
  intro hb
  apply h.large
  rw [hb]
  decide

theorem encodes_two (h : Encodes src bytes) (hch : ¬ch < 0x80) (hch' : ch < 0x800)
    : Encodes (ch :: src) ([UInt8.ofNat (0xc0 ||| ch.toNat >>> 6), tailByte ch.toNat] ++ bytes) := by
  have hlo : 0x80 ≤ ch.toNat := UInt16.le_iff_toNat_le.mp (UInt16.not_lt.mp hch)
  have hhi : ch.toNat < 0x800 := UInt16.lt_iff_toNat_lt.mp hch'
  have hshift : ch.toNat >>> 6 = ch.toNat / 64 := Nat.shiftRight_eq_div_pow _ 6
  have hlead := @leads_two (ch.toNat >>> 6) (by omega) (by omega)
  have hdecode := fun n => @decoder_at ch.toNat src bytes _ [tailByte ch.toNat] _ _ hlead
    (decode_two hlo hhi bytes) h (by omega) n
  constructor
  . simp only [List.cons_append, List.nil_append, List.mem_cons, not_or]
    exact ⟨(lead_ne_zero hlead).symm, (tailByte_ne_zero _).symm, h.nonzero⟩
  . rw [mir_utf8len.eq_def]
    simp only []
    rw [if_neg hch, if_pos hch', h.len]
    rfl
  . rw [Ucs2toUtf8, if_neg hch, if_pos hch', if_neg (by simp)]
    have hroom : bytes.length + 2 - 2 = bytes.length := Nat.add_sub_cancel ..
    simp only [List.cons_append, List.nil_append, List.length_cons, hroom]
    rw [h.encode]
    rfl
  . intro n hn
    exact (hdecode n hn).1
  . intro n hn
    have hsecond := (hdecode n hn).2
    rw [UInt16.ofNat_toNat] at hsecond
    exact hsecond

theorem encodes_three (h : Encodes src bytes) (hch : ¬ch < 0x800) (hsurrogate : ¬(0xd800 ≤ ch ∧ ch ≤ 0xdfff))
    : Encodes (ch :: src)
        ([UInt8.ofNat (0xe0 ||| ch.toNat >>> 12), tailByte (ch.toNat >>> 6), tailByte ch.toNat] ++ bytes) := by
  have hlo : 0x800 ≤ ch.toNat := UInt16.le_iff_toNat_le.mp (UInt16.not_lt.mp hch)
  have hhi : ch.toNat < 0x10000 := UInt16.toNat_lt ch
  have hch' : ¬ch < 0x80 := by
    rw [UInt16.lt_iff_toNat_lt]
    change ¬ch.toNat < 0x80
    omega
  have hvalue : getSurrogateValue (ch :: src) = ch.toNat := getSurrogateValue_single hsurrogate
  have hshift : ch.toNat >>> 12 = ch.toNat / 4096 := Nat.shiftRight_eq_div_pow _ 12
  have hlead := @leads_three (ch.toNat >>> 12) (by omega)
  have hdecode := fun n => @decoder_at ch.toNat src bytes _ [tailByte (ch.toNat >>> 6), tailByte ch.toNat] _ _
    hlead (decode_three hlo hhi bytes) h (by omega) n
  constructor
  . simp only [List.cons_append, List.nil_append, List.mem_cons, not_or]
    exact ⟨(lead_ne_zero hlead).symm, (tailByte_ne_zero _).symm, (tailByte_ne_zero _).symm, h.nonzero⟩
  . rw [mir_utf8len.eq_def]
    simp only [hvalue]
    rw [if_neg hch', if_neg hch]
    rw [if_neg (by omega), if_pos hhi, h.len]
    rfl
  . rw [Ucs2toUtf8, if_neg hch', if_neg hch]
    simp only [hvalue]
    rw [if_neg (by omega), if_pos hhi, if_neg (by simp)]
    have hroom : bytes.length + 3 - 3 = bytes.length := Nat.add_sub_cancel ..
    simp only [List.cons_append, List.nil_append, List.length_cons, hroom]
    rw [h.encode]
    rfl
  . intro n hn
    exact (hdecode n hn).1
  . intro n hn
    have hsecond := (hdecode n hn).2
    rw [UInt16.ofNat_toNat] at hsecond
    exact hsecond

theorem encodes_four {high low : UInt16} (h : Encodes src bytes) (hhigh : 0xd800 ≤ high ∧ high ≤ 0xdbff)
    (hlow : 0xdc00 ≤ low ∧ low ≤ 0xdfff)
    (hval : val = 0x10000 + (high.toNat - 0xd800) * 1024 + (low.toNat - 0xdc00))
    : Encodes (high :: low :: src)
        ([UInt8.ofNat (0xf0 ||| val >>> 18), tailByte (val >>> 12), tailByte (val >>> 6), tailByte val]
          ++ bytes) := by
  have hh : 0xd800 ≤ high.toNat := UInt16.le_iff_toNat_le.mp hhigh.1
  have hh' : high.toNat ≤ 0xdbff := UInt16.le_iff_toNat_le.mp hhigh.2
  have hl' : low.toNat ≤ 0xdfff := UInt16.le_iff_toNat_le.mp hlow.2
  have hone : ¬high < 0x80 := by
    rw [UInt16.lt_iff_toNat_lt]
    change ¬high.toNat < 0x80
    omega
  have htwo : ¬high < 0x800 := by
    rw [UInt16.lt_iff_toNat_lt]
    change ¬high.toNat < 0x800
    omega
  have hvalue : getSurrogateValue (high :: low :: src) = val := by
    rw [getSurrogateValue_pair hhigh hlow, hval]
  have hshift : val >>> 18 = val / 262144 := Nat.shiftRight_eq_div_pow _ 18
  have hlead := @leads_four (val >>> 18) (by omega)
  have hdecode := @decode_four val (by omega) (by omega) bytes
  obtain ⟨hfirst, hsecond⟩ := @surrogate_pair high low hhigh hlow (val - 0x10000) (by omega)
  constructor
  . simp only [List.cons_append, List.nil_append, List.mem_cons, not_or]
    exact ⟨(lead_ne_zero hlead).symm, (tailByte_ne_zero _).symm, (tailByte_ne_zero _).symm,
      (tailByte_ne_zero _).symm, h.nonzero⟩
  . rw [mir_utf8len.eq_def]
    simp only [hvalue]
    rw [if_neg hone, if_neg htwo, if_neg (by omega), if_neg (by omega), h.len]
    rfl
  . rw [Ucs2toUtf8, if_neg hone, if_neg htwo]
    simp only [hvalue]
    have hroom : bytes.length + 4 - 4 = bytes.length := Nat.add_sub_cancel ..
    rw [if_neg (by omega), if_neg (by omega), if_neg (by simp)]
    simp only [List.cons_append, List.nil_append, List.length_cons, hroom]
    rw [h.encode]
    rfl
  . intro n hn
    obtain ⟨k, rfl⟩ : ∃ k, n = k + 1 := ⟨n - 1, by simp at hn; omega⟩
    have hk : bytes.length ≤ k := by
      simp at hn
      omega
    simp only [List.cons_append, List.nil_append]
    rw [Utf8toUcs2Len.go, if_neg hlead.large, hdecode]
    simp only []
    rw [if_pos (by omega), h.ucs2len k hk, if_pos (by omega)]
    rfl
  . intro n hn
    obtain ⟨k, rfl⟩ : ∃ k, n = k + 1 := ⟨n - 1, by simp at hn; omega⟩
    have hk : bytes.length ≤ k := by
      simp at hn
      omega
    simp only [List.cons_append, List.nil_append, List.length_cons]
    rw [Utf8toUcs2.go, if_neg hlead.large, hdecode]
    simp only []
    rw [if_neg (by omega), if_pos (by omega), h.decode k hk, hfirst, hsecond]
    rfl

def characters : List UInt16 → List Char
  | [] => []
  | [ch] => [Char.ofNat ch.toNat]
  | ch :: low :: src =>
    if 0xd800 ≤ ch ∧ ch ≤ 0xdfff then
      Char.ofNat (0x10000 + (ch.toNat - 0xd800) * 1024 + (low.toNat - 0xdc00)) :: characters src
    else
      Char.ofNat ch.toNat :: characters (low :: src)

def standardUtf8 (w : List UInt16) : List UInt8 := (characters w).flatMap String.utf8EncodeChar

theorem characters_single (hsurrogate : ¬(0xd800 ≤ ch ∧ ch ≤ 0xdfff)) (src : List UInt16)
    : characters (ch :: src) = Char.ofNat ch.toNat :: characters src := by
  cases src with
  | nil => rfl
  | cons low src =>
    rw [characters, if_neg hsurrogate]

theorem standardUtf8_cons {w src : List UInt16} {c : Char} (h : characters w = c :: characters src)
    : standardUtf8 w = String.utf8EncodeChar c ++ standardUtf8 src := by
  unfold standardUtf8
  rw [h, List.flatMap_cons]

theorem val_ofNat (h : val.isValidChar) : (Char.ofNat val).val.toNat = val := by
  unfold Char.ofNat
  rw [dif_pos h]
  rfl

theorem lead_eq {base high width : Nat} (hor : ∀ r < width, base ||| r = base + r) (h : high < width)
    : UInt8.ofNat (base ||| high) = UInt8.ofNat (high % width + base) := by
  rw [hor high h, Nat.mod_eq_of_lt h, Nat.add_comm]

theorem tailByte_eq_add (val : Nat) : tailByte val = UInt8.ofNat (val % 0x40 + 0x80) := by
  rw [tailByte_eq, Nat.add_comm]

theorem utf8EncodeChar_one (hch : ch < 0x80) : String.utf8EncodeChar (Char.ofNat ch.toNat) = [ch.toUInt8] := by
  have hnat : ch.toNat < 128 := UInt16.lt_iff_toNat_lt.mp hch
  have hval := @val_ofNat ch.toNat (.inl (by omega))
  unfold String.utf8EncodeChar
  simp only [hval]
  rw [if_pos (by omega)]
  rfl

theorem utf8EncodeChar_two (h : 0x80 ≤ val) (h' : val < 0x800)
    : String.utf8EncodeChar (Char.ofNat val) = [UInt8.ofNat (0xc0 ||| val >>> 6), tailByte val] := by
  have hval := @val_ofNat val (.inl (by omega))
  have hshift : val >>> 6 = val / 64 := Nat.shiftRight_eq_div_pow val 6
  unfold String.utf8EncodeChar
  simp only [hval]
  rw [if_neg (by omega), if_pos (by omega), tailByte_eq_add, hshift,
    @lead_eq 0xc0 (val / 64) 0x20 (by decide) (by omega)]

theorem utf8EncodeChar_three (hvalid : val.isValidChar) (h : 0x800 ≤ val) (h' : val < 0x10000)
    : String.utf8EncodeChar (Char.ofNat val)
        =
      [UInt8.ofNat (0xe0 ||| val >>> 12), tailByte (val >>> 6), tailByte val] := by
  have hval := val_ofNat hvalid
  have hshift : val >>> 6 = val / 64 := Nat.shiftRight_eq_div_pow val 6
  have hshift' : val >>> 12 = val / 4096 := Nat.shiftRight_eq_div_pow val 12
  unfold String.utf8EncodeChar
  simp only [hval]
  rw [if_neg (by omega), if_neg (by omega), if_pos (by omega), tailByte_eq_add, tailByte_eq_add, hshift, hshift',
    @lead_eq 0xe0 (val / 4096) 0x10 (by decide) (by omega)]

theorem utf8EncodeChar_four (hvalid : val.isValidChar) (h : 0x10000 ≤ val) (h' : val < 0x110000)
    : String.utf8EncodeChar (Char.ofNat val)
        =
      [UInt8.ofNat (0xf0 ||| val >>> 18), tailByte (val >>> 12), tailByte (val >>> 6), tailByte val] := by
  have hval := val_ofNat hvalid
  have hshift : val >>> 6 = val / 64 := Nat.shiftRight_eq_div_pow val 6
  have hshift' : val >>> 12 = val / 4096 := Nat.shiftRight_eq_div_pow val 12
  have hshift'' : val >>> 18 = val / 262144 := Nat.shiftRight_eq_div_pow val 18
  unfold String.utf8EncodeChar
  simp only [hval]
  rw [if_neg (by omega), if_neg (by omega), if_neg (by omega), tailByte_eq_add, tailByte_eq_add, tailByte_eq_add,
    hshift, hshift', hshift'', @lead_eq 0xf0 (val / 262144) 0x08 (by decide) (by omega)]

theorem encodes_standardUtf8 {w : List UInt16} (h : WellFormed w) : Encodes w (standardUtf8 w) := by
  induction h with
  | nil => exact encodes_nil
  | @single ch src hzero hsurrogate h ih =>
    rw [standardUtf8_cons (characters_single hsurrogate src)]
    have hnat : ch.toNat < 65536 := ch.toNat_lt
    by_cases hone : ch < 0x80
    . rw [utf8EncodeChar_one hone]
      exact encodes_one ih hzero hone
    . have hlo : 0x80 ≤ ch.toNat := UInt16.le_iff_toNat_le.mp (UInt16.not_lt.mp hone)
      by_cases htwo : ch < 0x800
      . rw [utf8EncodeChar_two hlo (UInt16.lt_iff_toNat_lt.mp htwo)]
        exact encodes_two ih hone htwo
      . have hvalid : ch.toNat.isValidChar := by
          rw [UInt16.le_iff_toNat_le, UInt16.le_iff_toNat_le] at hsurrogate
          change ¬(0xd800 ≤ ch.toNat ∧ ch.toNat ≤ 0xdfff) at hsurrogate
          unfold Nat.isValidChar
          omega
        rw [utf8EncodeChar_three hvalid (UInt16.le_iff_toNat_le.mp (UInt16.not_lt.mp htwo)) hnat]
        exact encodes_three ih htwo hsurrogate
  | @pair high low src hhigh hlow h ih =>
    have hh : 0xd800 ≤ high.toNat := UInt16.le_iff_toNat_le.mp hhigh.1
    have hh' : high.toNat ≤ 0xdbff := UInt16.le_iff_toNat_le.mp hhigh.2
    have hl : 0xdc00 ≤ low.toNat := UInt16.le_iff_toNat_le.mp hlow.1
    have hl' : low.toNat ≤ 0xdfff := UInt16.le_iff_toNat_le.mp hlow.2
    have hsurrogate : 0xd800 ≤ high ∧ high ≤ 0xdfff := by
      refine ⟨hhigh.1, UInt16.le_iff_toNat_le.mpr ?_⟩
      change high.toNat ≤ 0xdfff
      omega
    have hcharacters : characters (high :: low :: src)
        = Char.ofNat (0x10000 + (high.toNat - 0xd800) * 1024 + (low.toNat - 0xdc00)) :: characters src := by
      rw [characters, if_pos hsurrogate]
    rw [standardUtf8_cons hcharacters]
    rw [utf8EncodeChar_four (by unfold Nat.isValidChar; omega) (by omega) (by omega)]
    exact encodes_four ih hhigh hlow rfl

theorem nul_not_mem_of_wellFormed {w : List UInt16} (h : WellFormed w) : 0 ∉ w := by
  induction h with
  | nil => exact List.not_mem_nil
  | single hzero _ _ ih =>
    rw [List.mem_cons, not_or]
    exact ⟨hzero.symm, ih⟩
  | pair hhigh hlow _ ih =>
    rw [List.mem_cons, List.mem_cons, not_or, not_or]
    refine ⟨?_, ?_, ih⟩
    . intro hz
      rw [← hz] at hhigh
      exact absurd hhigh.1 (by decide)
    . intro hz
      rw [← hz] at hlow
      exact absurd hlow.1 (by decide)

theorem encode_wellFormed {w : List UInt16} (h : WellFormed w)
    : ∃ s, mir_utf8encodeW w = some s ∧ s.bytes = standardUtf8 w := by
  have hbytes := encodes_standardUtf8 h
  have hw : w.takeWhile (· ≠ 0) = w := by
    rw [List.takeWhile_eq_self_iff]
    intro ch hch
    simp only [ne_eq, decide_not, Bool.not_eq_true', decide_eq_false_iff_not]
    intro hz
    rw [hz] at hch
    exact nul_not_mem_of_wellFormed h hch
  refine ⟨⟨standardUtf8 w, hbytes.nonzero⟩, ?_, rfl⟩
  unfold mir_utf8encodeW
  simp only [hw, hbytes.len, hbytes.encode]
  congr 1
  exact CStr.ext_bytes (CStr.takeWhile_bytes ⟨standardUtf8 w, hbytes.nonzero⟩)

theorem decode_wellFormed {w : List UInt16} {s : CStr} (h : WellFormed w) (hs : s.bytes = standardUtf8 w)
    : mir_utf8decodeW s = some w := by
  have hbytes := encodes_standardUtf8 h
  unfold mir_utf8decodeW Utf8toUcs2Len Utf8toUcs2
  rw [hs]
  simp only [hbytes.ucs2len _ (Nat.le_refl _), hbytes.decode _ (Nat.le_refl _)]
  rfl

end Utf
