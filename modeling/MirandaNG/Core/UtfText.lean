import MirandaNG.Core.UtfLaw

/-!
This module contains texts in UTF-8: what is put together of them, byte by byte below 0x80, is converted to a wide
string and back. It also contains which byte strings are decoded, and when they are well-formed and come back from the
encoder: the decoder takes the sequences of surrogate code points as well.
-/

namespace Utf

variable {w w' : List UInt16} {bytes bytes' : List UInt8} {ch : UInt16}

theorem characters_pair {high low : UInt16} (hhigh : 0xd800 ≤ high ∧ high ≤ 0xdbff) (src : List UInt16)
    : characters (high :: low :: src)
        =
      Char.ofNat (0x10000 + (high.toNat - 0xd800) * 1024 + (low.toNat - 0xdc00)) :: characters src := by
  have hle : high.toNat ≤ 0xdbff := UInt16.le_iff_toNat_le.mp hhigh.2
  have hsurrogate : 0xd800 ≤ high ∧ high ≤ 0xdfff := by
    refine ⟨hhigh.1, UInt16.le_iff_toNat_le.mpr ?_⟩
    change high.toNat ≤ 0xdfff
    omega
  rw [characters, if_pos hsurrogate]

theorem characters_append (h : WellFormed w) (w' : List UInt16)
    : characters (w ++ w') = characters w ++ characters w' := by
  induction h with
  | nil => rfl
  | single _ hsurrogate _ ih =>
    rw [List.cons_append, characters_single hsurrogate, characters_single hsurrogate, ih, List.cons_append]
  | pair hhigh _ _ ih =>
    rw [List.cons_append, List.cons_append, characters_pair hhigh, characters_pair hhigh, ih, List.cons_append]

theorem standardUtf8_append (h : WellFormed w) (w' : List UInt16)
    : standardUtf8 (w ++ w') = standardUtf8 w ++ standardUtf8 w' := by
  unfold standardUtf8
  rw [characters_append h, List.flatMap_append]

theorem wellFormed_append (h : WellFormed w) (h' : WellFormed w') : WellFormed (w ++ w') := by
  induction h with
  | nil => exact h'
  | single hzero hsurrogate _ ih => exact ih.single hzero hsurrogate
  | pair hhigh hlow _ ih => exact ih.pair hhigh hlow

theorem cases_getSurrogateValue {src : List UInt16} (h : getSurrogateValue (ch :: src) ≠ 0)
    : (¬(0xd800 ≤ ch ∧ ch ≤ 0xdfff) ∧ getSurrogateValue (ch :: src) < 0x10000)
        ∨ 0x10000 ≤ getSurrogateValue (ch :: src) ∧ (0xd800 ≤ ch ∧ ch ≤ 0xdbff)
          ∧ ∃ low rest, src = low :: rest ∧ 0xdc00 ≤ low ∧ low ≤ 0xdfff := by
  by_cases hsurrogate : 0xd800 ≤ ch ∧ ch ≤ 0xdfff
  . apply Or.inr
    cases src with
    | nil =>
      unfold getSurrogateValue at h
      simp [hsurrogate] at h
    | cons low rest =>
      unfold getSurrogateValue at h ⊢
      simp only [ge_iff_le, hsurrogate, and_self, if_true] at h ⊢
      by_cases hbad : ch > 0xdbff ∨ low < 0xdc00 ∨ low > 0xdfff
      . rw [if_pos hbad] at h
        exact absurd rfl h
      . rw [if_neg hbad]
        simp only [not_or, gt_iff_lt, UInt16.not_lt] at hbad
        refine ⟨by omega, ⟨trivial, hbad.1⟩, low, rest, rfl, hbad.2.1, hbad.2.2⟩
  . apply Or.inl
    apply And.intro hsurrogate
    rw [getSurrogateValue_single hsurrogate]
    exact ch.toNat_lt

theorem wellFormed_of_len (hzero : 0 ∉ w) (h : mir_utf8len w ≠ none) : WellFormed w := by
  fun_induction mir_utf8len w with
  | case1 => exact .nil
  | case2 ch src hlow ih =>
    have hne : ch ≠ 0 ∧ 0 ∉ src := by simpa [eq_comm] using hzero
    have hsurrogate : ¬(0xd800 ≤ ch ∧ ch ≤ 0xdfff) := by
      intro hch
      exact absurd (UInt16.lt_of_le_of_lt hch.1 hlow) (by decide)
    exact (ih hne.2 (by simpa using h)).single hne.1 hsurrogate
  | case3 ch src hone htwo ih =>
    have hne : ch ≠ 0 ∧ 0 ∉ src := by simpa [eq_comm] using hzero
    have hsurrogate : ¬(0xd800 ≤ ch ∧ ch ≤ 0xdfff) := by
      intro hch
      exact absurd (UInt16.lt_of_le_of_lt hch.1 htwo) (by decide)
    exact (ih hne.2 (by simpa using h)).single hne.1 hsurrogate
  | case4 => exact absurd rfl h
  | case5 ch src hone htwo val hval hlow ih =>
    have hne : ch ≠ 0 ∧ 0 ∉ src := by simpa [eq_comm] using hzero
    cases cases_getSurrogateValue hval with
    | inl hsingle => exact (ih hne.2 (by simpa using h)).single hne.1 hsingle.1
    | inr hpair => exact absurd hlow (Nat.not_lt.mpr hpair.1)
  | case6 => exact absurd rfl h
  | case7 ch hone htwo low src val hval hhigh ih =>
    have hne : 0 ∉ src := fun hmem => hzero (List.mem_cons_of_mem _ (List.mem_cons_of_mem _ hmem))
    cases cases_getSurrogateValue hval with
    | inl hsingle => exact absurd hsingle.2 hhigh
    | inr hpair =>
      obtain ⟨_, hch, low', rest, hsrc, hlow⟩ := hpair
      cases hsrc
      exact (ih hne (by simpa using h)).pair hch hlow

theorem decode_of_encode {s : CStr} (hzero : 0 ∉ w) (h : mir_utf8encodeW w = some s)
    : WellFormed w ∧ s.bytes = standardUtf8 w ∧ mir_utf8decodeW s = some w := by
  have hwell : WellFormed w := by
    apply wellFormed_of_len hzero
    intro hlen
    have htake : w.takeWhile (· ≠ 0) = w := by
      rw [List.takeWhile_eq_self_iff]
      intro c hc
      have hne : c ≠ 0 := fun heq => hzero (heq ▸ hc)
      simpa using hne
    unfold mir_utf8encodeW at h
    simp only [htake, hlen] at h
    cases h
  obtain ⟨t, hencode, hbytes⟩ := encode_wellFormed hwell
  rw [h] at hencode
  cases hencode
  exact ⟨hwell, hbytes, decode_wellFormed hwell hbytes⟩

theorem wide_of_ascii (h : ∀ c ∈ bytes, c ≠ 0 ∧ c < 0x80)
    : WellFormed (bytes.map UInt8.toUInt16) ∧ standardUtf8 (bytes.map UInt8.toUInt16) = bytes := by
  induction bytes with
  | nil => exact ⟨.nil, rfl⟩
  | cons c bytes ih =>
    obtain ⟨hzero, hlow⟩ := h c List.mem_cons_self
    obtain ⟨hwell, hbytes⟩ := ih fun d hd => h d (List.mem_cons_of_mem c hd)
    have hch : c.toUInt16 < 0x80 := by
      have := UInt8.lt_iff_toNat_lt.mp hlow
      apply UInt16.lt_iff_toNat_lt.mpr
      simpa using this
    have hsurrogate : ¬(0xd800 ≤ c.toUInt16 ∧ c.toUInt16 ≤ 0xdfff) := by
      intro h
      exact absurd (UInt16.lt_of_le_of_lt h.1 hch) (by decide)
    have hne : c.toUInt16 ≠ 0 := by
      intro h
      apply hzero
      have := congrArg UInt16.toNat h
      apply UInt8.toNat_inj.mp
      simpa using this
    rw [List.map_cons]
    constructor
    . exact hwell.single hne hsurrogate
    . rw [standardUtf8_cons (characters_single hsurrogate _), utf8EncodeChar_one hch, hbytes]
      simp

def IsText (bytes : List UInt8) : Prop := ∃ w, WellFormed w ∧ standardUtf8 w = bytes

namespace IsText

theorem nil : IsText [] := ⟨[], .nil, rfl⟩

theorem append (h : IsText bytes) (h' : IsText bytes') : IsText (bytes ++ bytes') := by
  obtain ⟨w, hw, rfl⟩ := h
  obtain ⟨w', hw', rfl⟩ := h'
  exact ⟨w ++ w', wellFormed_append hw hw', standardUtf8_append hw w'⟩

theorem ascii {c : UInt8} (hzero : c ≠ 0) (hlow : c < 0x80) : IsText [c] := by
  have hc : ∀ d ∈ [c], d ≠ 0 ∧ d < 0x80 := by simpa using ⟨hzero, hlow⟩
  exact ⟨_, wide_of_ascii hc⟩

theorem single (hzero : ch ≠ 0) (hsurrogate : ¬(0xd800 ≤ ch ∧ ch ≤ 0xdfff))
    : IsText (String.utf8EncodeChar (Char.ofNat ch.toNat)) := by
  refine ⟨[ch], .single hzero hsurrogate .nil, ?_⟩
  rw [standardUtf8_cons (characters_single hsurrogate [])]
  exact List.append_nil _

theorem pair {high low : UInt16} (hhigh : 0xd800 ≤ high ∧ high ≤ 0xdbff) (hlow : 0xdc00 ≤ low ∧ low ≤ 0xdfff)
    : IsText (String.utf8EncodeChar
        (Char.ofNat (0x10000 + (high.toNat - 0xd800) * 1024 + (low.toNat - 0xdc00)))) := by
  refine ⟨[high, low], .pair hhigh hlow .nil, ?_⟩
  rw [standardUtf8_cons (characters_pair hhigh [])]
  exact List.append_nil _

theorem of_ascii (h : ∀ c ∈ bytes, c ≠ 0 ∧ c < 0x80) : IsText bytes := by
  induction bytes with
  | nil => exact nil
  | cons c bytes ih =>
    have hc := h c List.mem_cons_self
    have hrest := ih fun d hd => h d (List.mem_cons_of_mem c hd)
    exact (ascii hc.1 hc.2).append hrest

theorem nonzero (h : IsText bytes) : 0 ∉ bytes := by
  obtain ⟨w, hw, rfl⟩ := h
  exact (encodes_standardUtf8 hw).nonzero

theorem convert {s : CStr} (h : IsText s.bytes) : ∃ w, mir_utf8decodeW s = some w ∧ mir_utf8encodeW w = some s := by
  obtain ⟨w, hw, hbytes⟩ := h
  obtain ⟨t, hencode, ht⟩ := encode_wellFormed hw
  have hsame : t = s := CStr.ext_bytes (ht.trans hbytes)
  rw [hsame] at hencode ht
  exact ⟨w, decode_wellFormed hw ht, hencode⟩

theorem high_ofNat {n : Nat} (h : 0x80 ≤ n) (h' : n < 0x100) : 0x80 ≤ UInt8.ofNat n := by
  apply UInt8.le_iff_toNat_le.mpr
  rw [UInt8.toNat_ofNat_of_lt' h']
  exact h

theorem high_utf8EncodeChar {c : Char} (h : 0x80 ≤ c.val.toNat) : ∀ b ∈ String.utf8EncodeChar c, 0x80 ≤ b := by
  intro b hb
  unfold String.utf8EncodeChar at hb
  simp only [] at hb
  rw [if_neg (by omega)] at hb
  split_ifs at hb <;> simp only [List.mem_cons, List.not_mem_nil, or_false] at hb
  . obtain rfl | rfl := hb <;> apply high_ofNat <;> omega
  . obtain rfl | rfl | rfl := hb <;> apply high_ofNat <;> omega
  . obtain rfl | rfl | rfl | rfl := hb <;> apply high_ofNat <;> omega

theorem flatMap {f : UInt8 → List UInt8} (hhigh : ∀ b, 0x80 ≤ b → f b = [b])
    (hlow : ∀ b, b ≠ 0 → b < 0x80 → IsText (f b)) (h : IsText bytes)
    : IsText (bytes.flatMap f) := by
  have hsame : ∀ c : Char, 0x80 ≤ c.val.toNat → (String.utf8EncodeChar c).flatMap f = String.utf8EncodeChar c := by
    intro c hc
    have hall := high_utf8EncodeChar hc
    generalize String.utf8EncodeChar c = bytes at hall
    induction bytes with
    | nil => rfl
    | cons b bytes ih =>
      rw [List.flatMap_cons, hhigh b (hall b List.mem_cons_self), ih fun d hd => hall d (List.mem_cons_of_mem b hd)]
      rfl
  obtain ⟨w, hw, rfl⟩ := h
  induction hw with
  | nil => exact nil
  | @single ch src hzero hsurrogate h ih =>
    rw [standardUtf8_cons (characters_single hsurrogate src), List.flatMap_append]
    refine append ?_ ih
    by_cases hone : ch < 0x80
    . have hnat : ch.toNat < 128 := UInt16.lt_iff_toNat_lt.mp hone
      have hbyte : ch.toUInt8.toNat = ch.toNat := by
        rw [UInt16.toNat_toUInt8]
        omega
      rw [utf8EncodeChar_one hone, List.flatMap_singleton]
      apply hlow
      . intro heq
        apply hzero
        apply UInt16.toNat_inj.mp
        rw [← hbyte, heq]
        rfl
      . apply UInt8.lt_iff_toNat_lt.mpr
        rw [hbyte]
        exact hnat
    . have hnat : 0x80 ≤ ch.toNat := UInt16.le_iff_toNat_le.mp (UInt16.not_lt.mp hone)
      have hvalid : ch.toNat.isValidChar := by
        rw [UInt16.le_iff_toNat_le, UInt16.le_iff_toNat_le] at hsurrogate
        change ¬(0xd800 ≤ ch.toNat ∧ ch.toNat ≤ 0xdfff) at hsurrogate
        have hlt := ch.toNat_lt
        unfold Nat.isValidChar
        omega
      rw [hsame _ (by rw [val_ofNat hvalid]; exact hnat)]
      exact single hzero hsurrogate
  | @pair high low src hhi hlo h ih =>
    rw [standardUtf8_cons (characters_pair hhi src), List.flatMap_append]
    refine append ?_ ih
    have hvalid : (0x10000 + (high.toNat - 0xd800) * 1024 + (low.toNat - 0xdc00)).isValidChar := by
      have hh := UInt16.le_iff_toNat_le.mp hhi.2
      have hl := UInt16.le_iff_toNat_le.mp hlo.2
      change high.toNat ≤ 0xdbff at hh
      change low.toNat ≤ 0xdfff at hl
      unfold Nat.isValidChar
      omega
    rw [hsame _ (by rw [val_ofNat hvalid]; omega)]
    exact pair hhi hlo

end IsText
end Utf

/-! ## What the decoder takes -/

namespace Utf

def sequence (val : Nat) : List UInt8 :=
  if val < 0x80 then [UInt8.ofNat val]
  else if val < 0x800 then [UInt8.ofNat (0xc0 ||| val >>> 6), tailByte val]
  else if val < 0x10000 then [UInt8.ofNat (0xe0 ||| val >>> 12), tailByte (val >>> 6), tailByte val]
  else [UInt8.ofNat (0xf0 ||| val >>> 18), tailByte (val >>> 12), tailByte (val >>> 6), tailByte val]

def units (val : Nat) : List UInt16 :=
  if val ≤ 0xffff then [UInt16.ofNat val]
  else [UInt16.ofNat (0xd800 ||| (val - 0x10000) >>> 10), UInt16.ofNat (0xdc00 ||| (val - 0x10000) &&& 0x3ff)]

def hasSurrogate : List UInt8 → Bool
  | b :: b' :: bytes => (b = 0xED ∧ 0xA0 ≤ b') || hasSurrogate (b' :: bytes)
  | _ => false

def IsUtf8 (bytes : List UInt8) : Prop := ∃ cs : List Char, cs.flatMap String.utf8EncodeChar = bytes

theorem go_tail {len res : Nat} {str : List UInt8} {r : Nat × List UInt8}
    (h : decodeUtf8Char.go (len + 1) res str = some r)
    : ∃ d rest, d < 64 ∧ str = tailByte d :: rest ∧ decodeUtf8Char.go len (res * 64 + d) rest = some r := by
  have hbyte : ∀ b : UInt8, ¬(b ^^^ 0x80 ≥ 0x40)
      → b = tailByte (b ^^^ 0x80).toNat ∧ (b ^^^ 0x80).toNat < 64 := by
    apply forall_halves
    decide
  cases str with
  | nil => cases h
  | cons b rest =>
    rw [decodeUtf8Char.go] at h
    split at h
    . cases h
    . next hsmall =>
      obtain ⟨hb, hd⟩ := hbyte b hsmall
      have hshift : res <<< 6 ||| (b ^^^ 0x80).toNat = res * 64 + (b ^^^ 0x80).toNat := by
        rw [← Nat.shiftLeft_add_eq_or_of_lt hd, Nat.shiftLeft_eq]
      rw [hshift] at h
      exact ⟨_, rest, hd, by rw [← hb], h⟩

theorem tailByte_mod (val : Nat) : tailByte val = tailByte (val % 64) := by
  rw [tailByte_eq, tailByte_eq, Nat.mod_mod]

theorem lead_cases (ch : UInt8)
    : utf8_length ch = 0
      ∨ (utf8_length ch = 1 ∧ ∃ high < 32, ch = UInt8.ofNat (0xc0 ||| high) ∧ (ch &&& utf8_mask 1).toNat = high)
      ∨ (utf8_length ch = 2 ∧ ∃ high < 16, ch = UInt8.ofNat (0xe0 ||| high) ∧ (ch &&& utf8_mask 2).toNat = high)
      ∨ (utf8_length ch = 3 ∧ ∃ high < 5, ch = UInt8.ofNat (0xf0 ||| high) ∧ (ch &&& utf8_mask 3).toNat = high) := by
  revert ch
  apply forall_halves
  decide

theorem sequence_of_decode {ch : UInt8} {str : List UInt8} {val : Nat} {rest : List UInt8}
    (h : decodeUtf8Char ch str = some (val, rest))
    : 0x80 ≤ val ∧ ch :: str = sequence val ++ rest := by
  unfold decodeUtf8Char at h
  simp only [] at h
  split at h
  . cases h
  . next hlen =>
    split at h
    . cases h
    . next res str' hgo =>
      split at h
      . cases h
      . next hmin =>
        cases h
        obtain hzero | ⟨hone, high, hhigh, hch, hbits⟩ | ⟨htwo, high, hhigh, hch, hbits⟩
          | ⟨hthree, high, hhigh, hch, hbits⟩ := lead_cases ch
        . exact absurd (.inl hzero) hlen
        . rw [hone, hbits] at hgo
          rw [hone] at hmin
          change ¬_ < 0x80 at hmin
          obtain ⟨d, s, hd, rfl, hlast⟩ := go_tail hgo
          cases hlast
          have hval : (high * 64 + d) >>> 6 = high := by
            rw [Nat.shiftRight_eq_div_pow]
            omega
          have hmod : (high * 64 + d) % 64 = d := by omega
          refine ⟨Nat.not_lt.mp hmin, ?_⟩
          unfold sequence
          rw [if_neg hmin, if_pos (by omega), hval, tailByte_mod (high * 64 + d), hmod, ← hch]
          rfl
        . rw [htwo, hbits] at hgo
          rw [htwo] at hmin
          change ¬_ < 0x800 at hmin
          obtain ⟨d, s, hd, rfl, hnext⟩ := go_tail hgo
          obtain ⟨d', s, hd', rfl, hlast⟩ := go_tail hnext
          cases hlast
          have hval : ((high * 64 + d) * 64 + d') >>> 12 = high := by
            rw [Nat.shiftRight_eq_div_pow]
            omega
          have hval' : ((high * 64 + d) * 64 + d') >>> 6 = high * 64 + d := by
            rw [Nat.shiftRight_eq_div_pow]
            omega
          have hmod : (high * 64 + d) % 64 = d := by omega
          have hmod' : ((high * 64 + d) * 64 + d') % 64 = d' := by omega
          refine ⟨by omega, ?_⟩
          unfold sequence
          rw [if_neg (by omega), if_neg hmin, if_pos (by omega), hval, hval', tailByte_mod (high * 64 + d), hmod,
            tailByte_mod ((high * 64 + d) * 64 + d'), hmod', ← hch]
          rfl
        . rw [hthree, hbits] at hgo
          rw [hthree] at hmin
          change ¬_ < 0x10000 at hmin
          obtain ⟨d, s, hd, rfl, hnext⟩ := go_tail hgo
          obtain ⟨d', s, hd', rfl, hnext'⟩ := go_tail hnext
          obtain ⟨d'', s, hd'', rfl, hlast⟩ := go_tail hnext'
          cases hlast
          have hval : (((high * 64 + d) * 64 + d') * 64 + d'') >>> 18 = high := by
            rw [Nat.shiftRight_eq_div_pow]
            omega
          have hval' : (((high * 64 + d) * 64 + d') * 64 + d'') >>> 12 = high * 64 + d := by
            rw [Nat.shiftRight_eq_div_pow]
            omega
          have hval'' : (((high * 64 + d) * 64 + d') * 64 + d'') >>> 6 = (high * 64 + d) * 64 + d' := by
            rw [Nat.shiftRight_eq_div_pow]
            omega
          have hmod : (high * 64 + d) % 64 = d := by omega
          have hmod' : ((high * 64 + d) * 64 + d') % 64 = d' := by omega
          have hmod'' : (((high * 64 + d) * 64 + d') * 64 + d'') % 64 = d'' := by omega
          refine ⟨by omega, ?_⟩
          unfold sequence
          rw [if_neg (by omega), if_neg (by omega), if_neg hmin, hval, hval', hval'', tailByte_mod (high * 64 + d),
            hmod, tailByte_mod ((high * 64 + d) * 64 + d'), hmod',
            tailByte_mod (((high * 64 + d) * 64 + d') * 64 + d''), hmod'', ← hch]
          rfl

theorem decoded {n dstlen : Nat} {src : List UInt8} {w : List UInt16} (h : Utf8toUcs2.go n src dstlen = .ok w)
    : ∃ vals : List Nat, (∀ val ∈ vals, val ≤ 0x10ffff) ∧ src = vals.flatMap sequence ∧ w = vals.flatMap units := by
  have hcons : ∀ (val : Nat) (bytes : List UInt8) (w' : List UInt16), val ≤ 0x10ffff
      → (∃ vals : List Nat, (∀ val ∈ vals, val ≤ 0x10ffff) ∧ bytes = vals.flatMap sequence ∧ w' = vals.flatMap units)
      → ∃ vals : List Nat, (∀ val ∈ vals, val ≤ 0x10ffff) ∧ sequence val ++ bytes = vals.flatMap sequence
          ∧ units val ++ w' = vals.flatMap units := by
    rintro val bytes w' hval ⟨vals, hvals, hbytes, hw⟩
    refine ⟨val :: vals, ?_, ?_, ?_⟩
    . exact List.forall_mem_cons.mpr ⟨hval, hvals⟩
    . rw [List.flatMap_cons, hbytes]
    . rw [List.flatMap_cons, hw]
  fun_induction Utf8toUcs2.go n src dstlen generalizing w with
  | case1 =>
    cases h
    exact ⟨[], by simp, rfl, rfl⟩
  | case2 => cases h
  | case3 => cases h
  | case4 n ch src room hone ih =>
    cases hrest : Utf8toUcs2.go n src room with
    | error e =>
      rw [hrest] at h
      cases h
    | ok w' =>
      rw [hrest] at h
      cases h
      have hnat : ch.toNat < 0x80 := UInt8.lt_iff_toNat_lt.mp hone
      have hsequence : sequence ch.toNat = [ch] := by
        unfold sequence
        rw [if_pos hnat, UInt8.ofNat_toNat]
      have hunits : units ch.toNat = [ch.toUInt16] := by
        unfold units
        rw [if_pos (by omega)]
        congr 1
        apply UInt16.toNat_inj.mp
        simp
      have hall := hcons ch.toNat src w' (by omega) (ih hrest)
      rw [hsequence, hunits] at hall
      exact hall
  | case5 => cases h
  | case6 n ch src room hone val src' hdecode hle ih =>
    obtain ⟨_, hbytes⟩ := sequence_of_decode hdecode
    cases hrest : Utf8toUcs2.go n src' room with
    | error e =>
      rw [hrest] at h
      cases h
    | ok w' =>
      rw [hrest] at h
      cases h
      have hunits : units val = [UInt16.ofNat val] := by
        unfold units
        exact if_pos hle
      have hall := hcons val src' w' (by omega) (ih hrest)
      rw [hunits, ← hbytes] at hall
      exact hall
  | case7 => cases h
  | case8 n ch src hone val src' hdecode hle hle' room res =>
    rename_i ih
    obtain ⟨_, hbytes⟩ := sequence_of_decode hdecode
    cases hrest : Utf8toUcs2.go n src' room with
    | error e =>
      rw [hrest] at h
      cases h
    | ok w' =>
      rw [hrest] at h
      cases h
      have hunits : units val
          = [UInt16.ofNat (0xd800 ||| (val - 0x10000) >>> 10), UInt16.ofNat (0xdc00 ||| (val - 0x10000) &&& 0x3ff)] := by
        unfold units
        exact if_neg hle
      have hall := hcons val src' w' hle' (ih hrest)
      rw [hunits, ← hbytes] at hall
      exact hall
  | case9 => cases h

def IsSurrogate (val : Nat) : Prop := 0xd800 ≤ val ∧ val ≤ 0xdfff

instance (val : Nat) : Decidable (IsSurrogate val) := inferInstanceAs (Decidable (_ ∧ _))

theorem hasSurrogate_cons {b : UInt8} (h : b ≠ 0xED) (bytes : List UInt8) : hasSurrogate (b :: bytes) = hasSurrogate bytes := by
  cases bytes with
  | nil => rfl
  | cons b' bytes =>
    rw [hasSurrogate]
    simp [h]

theorem tailByte_ne_lead (val : Nat) : tailByte val ≠ 0xED := by
  have hall : ∀ r < 64, UInt8.ofNat (128 + r) ≠ 0xED := by decide
  rw [tailByte_eq]
  exact hall _ (Nat.mod_lt _ (by decide))

theorem hasSurrogate_sequence {val : Nat} (h : val ≤ 0x10ffff) (bytes : List UInt8)
    : hasSurrogate (sequence val ++ bytes) = (decide (IsSurrogate val) || hasSurrogate bytes) := by
  unfold sequence
  split
  . next hone =>
    have hlead : ∀ r < 0x80, UInt8.ofNat r ≠ 0xED := by decide
    have hnot : ¬IsSurrogate val := by
      unfold IsSurrogate
      omega
    rw [List.cons_append, hasSurrogate_cons (hlead val hone)]
    simp [hnot]
  split
  . next htwo =>
    have hlead : ∀ r < 32, UInt8.ofNat (0xc0 ||| r) ≠ 0xED := by decide
    have hshift : val >>> 6 < 32 := by
      rw [Nat.shiftRight_eq_div_pow]
      omega
    have hnot : ¬IsSurrogate val := by
      unfold IsSurrogate
      omega
    simp only [List.cons_append, List.nil_append]
    rw [hasSurrogate_cons (hlead _ hshift), hasSurrogate_cons (tailByte_ne_lead _)]
    simp [hnot]
  split
  . next hone htwo hthree =>
    have hlead : ∀ r < 16, (UInt8.ofNat (0xe0 ||| r) = 0xED ↔ r = 13) := by decide
    have htail : ∀ r < 64, (0xA0 ≤ UInt8.ofNat (128 + r) ↔ 32 ≤ r) := by decide
    have hshift : val >>> 12 = val / 4096 := Nat.shiftRight_eq_div_pow val 12
    have hshift' : val >>> 6 = val / 64 := Nat.shiftRight_eq_div_pow val 6
    have hiff : UInt8.ofNat (0xe0 ||| val >>> 12) = 0xED ∧ (0xA0 : UInt8) ≤ tailByte (val >>> 6) ↔ IsSurrogate val := by
      rw [tailByte_eq, htail _ (Nat.mod_lt _ (by decide)), hshift, hshift', hlead _ (by omega)]
      unfold IsSurrogate
      omega
    simp only [List.cons_append, List.nil_append]
    rw [hasSurrogate, hasSurrogate_cons (tailByte_ne_lead _), hasSurrogate_cons (tailByte_ne_lead _)]
    congr 1
    exact decide_eq_decide.mpr hiff
  . next hone htwo hthree =>
    have hlead : ∀ r < 5, UInt8.ofNat (0xf0 ||| r) ≠ 0xED := by decide
    have hshift : val >>> 18 < 5 := by
      rw [Nat.shiftRight_eq_div_pow]
      omega
    have hnot : ¬IsSurrogate val := by
      unfold IsSurrogate
      omega
    simp only [List.cons_append, List.nil_append]
    rw [hasSurrogate_cons (hlead _ hshift), hasSurrogate_cons (tailByte_ne_lead _),
      hasSurrogate_cons (tailByte_ne_lead _), hasSurrogate_cons (tailByte_ne_lead _)]
    simp [hnot]

theorem hasSurrogate_flatMap {vals : List Nat} (h : ∀ val ∈ vals, val ≤ 0x10ffff)
    : hasSurrogate (vals.flatMap sequence) = true ↔ ∃ val ∈ vals, IsSurrogate val := by
  induction vals with
  | nil => simp [hasSurrogate]
  | cons val vals ih =>
    obtain ⟨hval, hvals⟩ := List.forall_mem_cons.mp h
    rw [List.flatMap_cons, hasSurrogate_sequence hval, Bool.or_eq_true, ih hvals, decide_eq_true_eq,
      List.exists_mem_cons_iff]

theorem utf8EncodeChar_eq {val : Nat} (h : val.isValidChar) : String.utf8EncodeChar (Char.ofNat val) = sequence val := by
  have hlt : val < 0x110000 := by
    unfold Nat.isValidChar at h
    omega
  unfold sequence
  split
  . next hone =>
    have hch : (UInt16.ofNat val).toNat = val := UInt16.toNat_ofNat_of_lt' (by change val < 65536; omega)
    have hlow : UInt16.ofNat val < 0x80 := by
      rw [UInt16.lt_iff_toNat_lt, hch]
      exact hone
    have hencode := utf8EncodeChar_one hlow
    rw [hch] at hencode
    rw [hencode]
    congr 1
    apply UInt8.toNat_inj.mp
    simp
  . next hone =>
    split
    . next htwo => exact utf8EncodeChar_two (Nat.not_lt.mp hone) htwo
    . next htwo =>
      split
      . next hthree => exact utf8EncodeChar_three h (Nat.not_lt.mp htwo) hthree
      . next hthree => exact utf8EncodeChar_four h (Nat.not_lt.mp hthree) hlt

theorem isValidChar_iff {val : Nat} (h : val ≤ 0x10ffff) : val.isValidChar ↔ ¬IsSurrogate val := by
  unfold Nat.isValidChar IsSurrogate
  omega

theorem not_hasSurrogate_of_isUtf8 {bytes : List UInt8} (h : IsUtf8 bytes) : hasSurrogate bytes = false := by
  obtain ⟨cs, rfl⟩ := h
  induction cs with
  | nil => rfl
  | cons c cs ih =>
    have hvalid : c.toNat.isValidChar := c.valid
    have hle : c.toNat ≤ 0x10ffff := by
      unfold Nat.isValidChar at hvalid
      omega
    have hchar : String.utf8EncodeChar c = sequence c.toNat := by
      rw [← utf8EncodeChar_eq hvalid, Char.ofNat_toNat]
    rw [List.flatMap_cons, hchar, hasSurrogate_sequence hle, ih]
    simpa using (isValidChar_iff hle).mp hvalid

theorem isUtf8_sequences {vals : List Nat} (h : ∀ val ∈ vals, val.isValidChar) : IsUtf8 (vals.flatMap sequence) := by
  refine ⟨vals.map Char.ofNat, ?_⟩
  rw [List.flatMap_map]
  apply List.flatMap_congr
  intro val hval
  exact utf8EncodeChar_eq (h val hval)

theorem pair_bits {val : Nat} (h : 0x10000 ≤ val) (h' : val ≤ 0x10ffff)
    : (UInt16.ofNat (0xd800 ||| (val - 0x10000) >>> 10)).toNat = 0xd800 + (val - 0x10000) / 1024
      ∧ (UInt16.ofNat (0xdc00 ||| (val - 0x10000) &&& 0x3ff)).toNat = 0xdc00 + (val - 0x10000) % 1024 := by
  have hdiv : (val - 0x10000) >>> 10 = (val - 0x10000) / 1024 := Nat.shiftRight_eq_div_pow _ 10
  have hmod : (val - 0x10000) &&& 0x3ff = (val - 0x10000) % 1024 := Nat.and_two_pow_sub_one_eq_mod _ 10
  have hor : ∀ a < 1024, 54 <<< 10 ||| a = 0xd800 + a := by
    intro a ha
    rw [← Nat.shiftLeft_add_eq_or_of_lt (i := 10) ha]
    rfl
  have hor' : ∀ a < 1024, 55 <<< 10 ||| a = 0xdc00 + a := by
    intro a ha
    rw [← Nat.shiftLeft_add_eq_or_of_lt (i := 10) ha]
    rfl
  change (UInt16.ofNat (54 <<< 10 ||| (val - 0x10000) >>> 10)).toNat = _
    ∧ (UInt16.ofNat (55 <<< 10 ||| (val - 0x10000) &&& 0x3ff)).toNat = _
  rw [hdiv, hmod, hor _ (by omega), hor' _ (by omega)]
  constructor <;> apply UInt16.toNat_ofNat_of_lt'
  . change _ < 65536
    omega
  . change _ < 65536
    omega

theorem wellFormed_units {vals : List Nat} (h : ∀ val ∈ vals, val ≠ 0 ∧ val.isValidChar)
    : WellFormed (vals.flatMap units) ∧ standardUtf8 (vals.flatMap units) = vals.flatMap sequence := by
  induction vals with
  | nil => exact ⟨.nil, rfl⟩
  | cons val vals ih =>
    obtain ⟨⟨hzero, hvalid⟩, hrest⟩ := List.forall_mem_cons.mp h
    obtain ⟨hwell, hbytes⟩ := ih hrest
    rw [List.flatMap_cons, List.flatMap_cons]
    generalize vals.flatMap units = rest at hwell hbytes ⊢
    unfold units
    split
    . next hle =>
      have hch : (UInt16.ofNat val).toNat = val := UInt16.toNat_ofNat_of_lt' (by change val < 65536; omega)
      have hne : UInt16.ofNat val ≠ 0 := by
        intro heq
        rw [heq] at hch
        exact hzero hch.symm
      have hsurrogate : ¬(0xd800 ≤ UInt16.ofNat val ∧ UInt16.ofNat val ≤ 0xdfff) := by
        rw [UInt16.le_iff_toNat_le, UInt16.le_iff_toNat_le, hch]
        exact (isValidChar_iff (by omega)).mp hvalid
      refine ⟨hwell.single hne hsurrogate, ?_⟩
      rw [List.singleton_append, standardUtf8_cons (characters_single hsurrogate _), hch, utf8EncodeChar_eq hvalid,
        hbytes]
    . next hle =>
      have hlt : val ≤ 0x10ffff := by
        unfold Nat.isValidChar at hvalid
        omega
      obtain ⟨hhigh, hlow⟩ := pair_bits (Nat.lt_of_not_le hle) hlt
      generalize UInt16.ofNat (0xd800 ||| (val - 0x10000) >>> 10) = high at hhigh
      generalize UInt16.ofNat (0xdc00 ||| (val - 0x10000) &&& 0x3ff) = low at hlow
      have hhighs : 0xd800 ≤ high ∧ high ≤ 0xdbff := by
        rw [UInt16.le_iff_toNat_le, UInt16.le_iff_toNat_le, hhigh]
        change 0xd800 ≤ _ ∧ _ ≤ 0xdbff
        omega
      have hlows : 0xdc00 ≤ low ∧ low ≤ 0xdfff := by
        rw [UInt16.le_iff_toNat_le, UInt16.le_iff_toNat_le, hlow]
        change 0xdc00 ≤ _ ∧ _ ≤ 0xdfff
        omega
      have hval : 0x10000 + (high.toNat - 0xd800) * 1024 + (low.toNat - 0xdc00) = val := by omega
      have hcharacters := @characters_pair high low hhighs rest
      rw [hval] at hcharacters
      refine ⟨hwell.pair hhighs hlows, ?_⟩
      rw [List.cons_append, List.singleton_append, standardUtf8_cons hcharacters, utf8EncodeChar_eq hvalid, hbytes]

end Utf
