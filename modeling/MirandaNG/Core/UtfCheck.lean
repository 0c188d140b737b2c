import MirandaNG.Core.UtfText

/-!
This module contains `Utf8CheckString`: it looks at the number of bytes behind each first byte and at nothing else, so that
it takes strings the decoder does not.
-/

namespace Utf

-- `while (ch & 0x80) { expect_bytes++; ch = (ch & 0x7f) << 1; }`: a byte has eight bits.
def leadingOnes (ch : UInt8) : Nat := go 8 ch
where
  go : Nat → UInt8 → Nat
    | 0, _ => 0
    | n + 1, ch => if ch &&& 0x80 ≠ 0 then go n ((ch &&& 0x7f) <<< 1) + 1 else 0

def Utf8CheckString (str : CStr) : Bool := go str.bytes 0 false
where
  go : List UInt8 → Nat → Bool → Bool
    | [], expect_bytes, utf_found => utf_found && expect_bytes = 0
    | ch :: str, expect_bytes, utf_found =>
      if ch &&& 0x80 = 0 then
        if expect_bytes ≠ 0 then false else go str expect_bytes utf_found
      else if expect_bytes ≠ 0 then
        if ch &&& 0xC0 ≠ 0x80 then false
        else go str (expect_bytes - 1) (utf_found || expect_bytes - 1 = 0)
      else
        go str (leadingOnes ch - 1) (utf_found || leadingOnes ch - 1 = 0)

def IsTail (ch : UInt8) : Prop := ch &&& 0xC0 = 0x80

structure Piece where
  lead : UInt8
  tail : List UInt8

namespace Piece

def bytes (p : Piece) : List UInt8 := p.lead :: p.tail

structure Fits (p : Piece) : Prop where
  length : p.tail.length = leadingOnes p.lead - 1
  tail : ∀ ch ∈ p.tail, IsTail ch

def value (p : Piece) : Nat :=
  p.tail.foldl (fun res ch => res <<< 6 ||| (ch ^^^ 0x80).toNat) (p.lead &&& utf8_mask p.tail.length).toNat

-- A lone byte from 0x80 to 0xBF is not a character, nor is anything too long, not in the shortest form or out of range.
def Proper (p : Piece) : Prop :=
  p.lead < 0x80 ∨ 0xC2 ≤ p.lead ∧ p.lead < 0xF5 ∧ utf8_minval p.tail.length ≤ p.value ∧ p.value ≤ 0x10ffff

end Piece

variable {ch : UInt8} {str rest tail : List UInt8} {ps : List Piece} {p : Piece} {n len res : Nat} {found : Bool}

theorem and_eq_zero_iff (ch : UInt8) : ch &&& 0x80 = 0 ↔ ch < 0x80 := by
  revert ch
  apply forall_halves
  decide

theorem leadingOnes_ascii (h : ch < 0x80) : leadingOnes ch = 0 := by
  unfold leadingOnes leadingOnes.go
  rw [if_neg (not_not.2 ((and_eq_zero_iff ch).2 h))]

theorem isTail_high (h : IsTail ch) : ¬ch &&& 0x80 = 0 := by
  revert ch
  unfold IsTail
  apply forall_halves
  decide

theorem xor_iff (ch : UInt8) : ch ^^^ 0x80 ≥ 0x40 ↔ ¬IsTail ch := by
  revert ch
  unfold IsTail
  apply forall_halves
  decide

theorem utf8_length_eq (h : 0xC2 ≤ ch ∧ ch < 0xF5) : utf8_length ch = leadingOnes ch - 1 ∧ utf8_length ch ≠ 0 := by
  revert ch
  apply forall_halves
  decide

theorem utf8_length_eq_zero_iff (ch : UInt8) : utf8_length ch = 0 ↔ ¬(0xC2 ≤ ch ∧ ch < 0xF5) := by
  revert ch
  apply forall_halves
  decide

theorem check_tail (h : ∀ ch ∈ tail, IsTail ch) (rest : List UInt8) (hn : tail.length = n + 1)
    : Utf8CheckString.go (tail ++ rest) (n + 1) found = Utf8CheckString.go rest 0 true := by
  induction tail generalizing n found with
  | nil => cases hn
  | cons ch tail ih =>
    obtain ⟨hch, htail⟩ := List.forall_mem_cons.1 h
    rw [List.cons_append, Utf8CheckString.go, if_neg (isTail_high hch), if_pos (Nat.succ_ne_zero n),
      if_neg (not_not.2 (show ch &&& 0xC0 = 0x80 from hch)), Nat.add_sub_cancel]
    cases n with
    | zero =>
      obtain rfl := List.length_eq_zero_iff.1 (Nat.succ.inj hn)
      simp
    | succ n => exact ih htail (Nat.succ.inj hn)

theorem check_piece (h : p.Fits) (rest : List UInt8)
    : Utf8CheckString.go (p.bytes ++ rest) 0 found = Utf8CheckString.go rest 0 (found || 0x80 ≤ p.lead) := by
  unfold Piece.bytes
  rw [List.cons_append, Utf8CheckString.go]
  have hlength := h.length
  by_cases hascii : p.lead < 0x80
  . rw [leadingOnes_ascii hascii] at hlength
    rw [if_pos ((and_eq_zero_iff _).2 hascii), if_neg (not_not.2 rfl), List.length_eq_zero_iff.1 hlength,
      decide_eq_false (UInt8.not_le.2 hascii), Bool.or_false]
    rfl
  . rw [if_neg (fun hzero => hascii ((and_eq_zero_iff _).1 hzero)), if_neg (not_not.2 rfl),
      decide_eq_true (UInt8.not_lt.1 hascii), Bool.or_true, ← hlength]
    cases hn : p.tail.length with
    | zero => simp [List.length_eq_zero_iff.1 hn]
    | succ n => exact check_tail h.tail rest hn

theorem check_pieces (h : ∀ p ∈ ps, p.Fits)
    : Utf8CheckString.go (ps.flatMap Piece.bytes) 0 found = (found || ps.any fun p => 0x80 ≤ p.lead) := by
  induction ps generalizing found with
  | nil => simp [Utf8CheckString.go]
  | cons p ps ih =>
    obtain ⟨hp, hps⟩ := List.forall_mem_cons.1 h
    rw [List.flatMap_cons, check_piece hp, ih hps, List.any_cons, Bool.or_assoc]

theorem pieces_of_check (h : Utf8CheckString.go str n found = true)
    : ∃ (tail : List UInt8) (ps : List Piece), str = tail ++ ps.flatMap Piece.bytes ∧ tail.length = n ∧
        (∀ ch ∈ tail, IsTail ch) ∧ ∀ p ∈ ps, p.Fits := by
  induction str generalizing n found with
  | nil =>
    rw [Utf8CheckString.go, Bool.and_eq_true, decide_eq_true_eq] at h
    exact ⟨[], [], rfl, h.2.symm, nofun, nofun⟩
  | cons ch str ih =>
    rw [Utf8CheckString.go] at h
    split at h
    . next hascii =>
      split at h
      . cases h
      . next hn =>
        obtain rfl := not_not.1 hn
        obtain ⟨tail, ps, hstr, htail, -, hps⟩ := ih h
        obtain rfl := List.length_eq_zero_iff.1 htail
        have hfits : Piece.Fits ⟨ch, []⟩ := by
          refine ⟨?_, nofun⟩
          rw [leadingOnes_ascii ((and_eq_zero_iff ch).1 hascii)]
          rfl
        refine ⟨[], ⟨ch, []⟩ :: ps, ?_, rfl, nofun, List.forall_mem_cons.2 ⟨hfits, hps⟩⟩
        rw [hstr]
        rfl
    . split at h
      . next hn =>
        split at h
        . cases h
        . next hch =>
          obtain ⟨tail, ps, hstr, htail, htails, hps⟩ := ih h
          refine ⟨ch :: tail, ps, ?_, ?_, List.forall_mem_cons.2 ⟨not_not.1 hch, htails⟩, hps⟩
          . rw [hstr]
            rfl
          . rw [List.length_cons, htail]
            omega
      . next hn =>
        obtain ⟨tail, ps, hstr, htail, htails, hps⟩ := ih h
        refine ⟨[], ⟨ch, tail⟩ :: ps, ?_, (not_not.1 hn).symm, nofun, List.forall_mem_cons.2 ⟨⟨htail, htails⟩, hps⟩⟩
        rw [hstr]
        rfl

theorem go_eq_some_iff {r : Nat × List UInt8}
    : decodeUtf8Char.go len res str = some r ↔ ∃ tail rest, str = tail ++ rest ∧ tail.length = len ∧
        (∀ ch ∈ tail, IsTail ch) ∧ r = (tail.foldl (fun res ch => res <<< 6 ||| (ch ^^^ 0x80).toNat) res, rest) := by
  induction len generalizing res str with
  | zero =>
    constructor
    . intro h
      cases h
      exact ⟨[], str, rfl, rfl, List.forall_mem_nil _, rfl⟩
    . rintro ⟨tail, rest, rfl, htail, -, rfl⟩
      obtain rfl := List.length_eq_zero_iff.1 htail
      rfl
  | succ len ih =>
    cases str with
    | nil =>
      constructor
      . intro h
        cases h
      . rintro ⟨tail, rest, hstr, htail, -⟩
        rw [(List.append_eq_nil_iff.1 hstr.symm).1] at htail
        cases htail
    | cons ch str =>
      rw [decodeUtf8Char.go]
      by_cases hch : IsTail ch
      . rw [if_neg (fun hge => (xor_iff ch).1 hge hch), ih]
        constructor
        . rintro ⟨tail, rest, rfl, htail, htails, rfl⟩
          exact ⟨ch :: tail, rest, rfl, congrArg (· + 1) htail, List.forall_mem_cons.2 ⟨hch, htails⟩, rfl⟩
        . rintro ⟨tail, rest, hstr, htail, htails, rfl⟩
          cases tail with
          | nil => cases htail
          | cons ch' tail =>
            injection hstr with hhead hstr
            subst hhead
            exact ⟨tail, rest, hstr, Nat.succ.inj htail, (List.forall_mem_cons.1 htails).2, rfl⟩
      . rw [if_pos ((xor_iff ch).2 hch)]
        constructor
        . intro h
          cases h
        . rintro ⟨tail, rest, hstr, htail, htails, -⟩
          cases tail with
          | nil => cases htail
          | cons ch' tail =>
            injection hstr with hhead
            subst hhead
            exact absurd (List.forall_mem_cons.1 htails).1 hch

theorem decodeUtf8Char_piece (h : p.Fits) (rest : List UInt8)
    : decodeUtf8Char p.lead (p.tail ++ rest) =
        if 0xC2 ≤ p.lead ∧ p.lead < 0xF5 ∧ utf8_minval p.tail.length ≤ p.value then some (p.value, rest) else none := by
  unfold decodeUtf8Char
  dsimp only
  by_cases hlead : 0xC2 ≤ p.lead ∧ p.lead < 0xF5
  . obtain ⟨hlength, hne⟩ := utf8_length_eq hlead
    rw [← h.length] at hlength
    have hgo : decodeUtf8Char.go p.tail.length (p.lead &&& utf8_mask p.tail.length).toNat (p.tail ++ rest) =
        some (p.value, rest) := go_eq_some_iff.2 ⟨p.tail, rest, rfl, rfl, h.tail, rfl⟩
    rw [hlength] at hne
    rw [hlength, if_neg (by rw [List.length_append]; omega), hgo]
    dsimp only
    by_cases hmin : p.value < utf8_minval p.tail.length
    . rw [if_pos hmin, if_neg fun hall => absurd hall.2.2 (Nat.not_le.2 hmin)]
    . rw [if_neg hmin, if_pos ⟨hlead.1, hlead.2, Nat.le_of_not_lt hmin⟩]
  . rw [if_pos (Or.inl ((utf8_length_eq_zero_iff _).2 hlead)), if_neg fun hall => hlead ⟨hall.1, hall.2.1⟩]

theorem len_pieces (h : ∀ p ∈ ps, p.Fits) (hn : (ps.flatMap Piece.bytes).length ≤ n)
    : Utf8toUcs2Len.go n (ps.flatMap Piece.bytes) ≠ none ↔ ∀ p ∈ ps, p.Proper := by
  induction ps generalizing n with
  | nil => exact iff_of_true (by simp [Utf8toUcs2Len.go]) nofun
  | cons p ps ih =>
    obtain ⟨hp, hps⟩ := List.forall_mem_cons.1 h
    have hbytes : p.bytes.length = p.tail.length + 1 := rfl
    rw [List.flatMap_cons] at hn ⊢
    rw [List.length_append] at hn
    obtain ⟨k, rfl⟩ := Nat.exists_eq_add_of_le' (by omega : 1 ≤ n)
    have ih := ih hps (n := k) (by omega)
    rw [Piece.bytes, List.cons_append, Utf8toUcs2Len.go, List.forall_mem_cons, ← ih]
    by_cases hascii : p.lead < 0x80
    . have hlength := h p List.mem_cons_self |>.length
      rw [leadingOnes_ascii hascii] at hlength
      rw [if_pos hascii, List.length_eq_zero_iff.1 hlength, List.nil_append, ne_eq, Option.map_eq_none_iff]
      exact (and_iff_right (Or.inl hascii)).symm
    . rw [if_neg hascii, decodeUtf8Char_piece hp]
      by_cases hlead : 0xC2 ≤ p.lead ∧ p.lead < 0xF5 ∧ utf8_minval p.tail.length ≤ p.value
      . rw [if_pos hlead]
        dsimp only
        by_cases hmax : p.value ≤ 0x10ffff
        . rw [if_pos hmax, ne_eq, Option.map_eq_none_iff]
          exact (and_iff_right (Or.inr ⟨hlead.1, hlead.2.1, hlead.2.2, hmax⟩)).symm
        . rw [if_neg hmax]
          refine iff_of_false (not_not.2 rfl) ?_
          rintro ⟨hlow | hproper, -⟩
          . exact hascii hlow
          . exact hmax hproper.2.2.2
      . rw [if_neg hlead]
        refine iff_of_false (not_not.2 rfl) ?_
        rintro ⟨hlow | hproper, -⟩
        . exact hascii hlow
        . exact hlead ⟨hproper.1, hproper.2.1, hproper.2.2.1⟩

theorem pieces_of_len (h : Utf8toUcs2Len.go n str ≠ none)
    : ∃ ps : List Piece, str = ps.flatMap Piece.bytes ∧ ∀ p ∈ ps, p.Fits := by
  induction n generalizing str with
  | zero =>
    cases str with
    | nil => exact ⟨[], rfl, List.forall_mem_nil _⟩
    | cons ch str => exact absurd rfl h
  | succ n ih =>
    cases str with
    | nil => exact ⟨[], rfl, List.forall_mem_nil _⟩
    | cons ch str =>
      rw [Utf8toUcs2Len.go] at h
      split at h
      . next hascii =>
        rw [ne_eq, Option.map_eq_none_iff] at h
        obtain ⟨ps, rfl, hps⟩ := ih h
        refine ⟨⟨ch, []⟩ :: ps, rfl, List.forall_mem_cons.2 ⟨⟨?_, List.forall_mem_nil _⟩, hps⟩⟩
        rw [leadingOnes_ascii hascii]
        rfl
      . split at h
        . exact absurd rfl h
        . next res rest hdecode =>
          split at h
          . rw [ne_eq, Option.map_eq_none_iff] at h
            obtain ⟨ps, rfl, hps⟩ := ih h
            unfold decodeUtf8Char at hdecode
            dsimp only at hdecode
            split at hdecode
            . cases hdecode
            . next hlength =>
              split at hdecode
              . cases hdecode
              . next res' rest' hgo =>
                split at hdecode
                . cases hdecode
                . injection hdecode with hdecode
                  obtain ⟨tail, rest'', rfl, htail, htails, hr⟩ := go_eq_some_iff.1 hgo
                  have hrest : rest'' = ps.flatMap Piece.bytes := by
                    injection hr with _ hr
                    injection hdecode with _ hdecode
                    rw [← hr, hdecode]
                  have hlead : 0xC2 ≤ ch ∧ ch < 0xF5 := by
                    by_contra hnot
                    exact hlength (Or.inl ((utf8_length_eq_zero_iff ch).2 hnot))
                  rw [(utf8_length_eq hlead).1] at htail
                  refine ⟨⟨ch, tail⟩ :: ps, ?_, List.forall_mem_cons.2 ⟨⟨htail, htails⟩, hps⟩⟩
                  rw [hrest]
                  rfl
          . exact absurd rfl h

def IsWellFormedUtf8 (str : CStr) : Prop := (∃ ch ∈ str.bytes, 0x80 ≤ ch) ∧ Utf8toUcs2Len str.bytes ≠ none

theorem exists_high_iff (h : ∀ p ∈ ps, p.Fits)
    : (∃ ch ∈ ps.flatMap Piece.bytes, 0x80 ≤ ch) ↔ ps.any (fun p => 0x80 ≤ p.lead) = true := by
  rw [List.any_eq_true]
  constructor
  . rintro ⟨ch, hmem, hch⟩
    obtain ⟨p, hp, hmem⟩ := List.mem_flatMap.1 hmem
    refine ⟨p, hp, decide_eq_true ?_⟩
    by_contra hlow
    have hlength := (h p hp).length
    rw [leadingOnes_ascii (UInt8.not_le.1 hlow)] at hlength
    unfold Piece.bytes at hmem
    rw [List.length_eq_zero_iff.1 hlength, List.mem_singleton] at hmem
    exact hlow (hmem ▸ hch)
  . rintro ⟨p, hp, hlead⟩
    exact ⟨p.lead, List.mem_flatMap.2 ⟨p, hp, List.mem_cons_self⟩, of_decide_eq_true hlead⟩

theorem Utf8CheckString_pieces {str : CStr} (h : ∀ p ∈ ps, p.Fits) (hstr : str.bytes = ps.flatMap Piece.bytes)
    : Utf8CheckString str = true ↔ ∃ ch ∈ str.bytes, 0x80 ≤ ch := by
  unfold Utf8CheckString
  rw [hstr, check_pieces h, Bool.false_or, exists_high_iff h]

theorem Utf8CheckString_iff (str : CStr)
    : (Utf8CheckString str = true ↔ IsWellFormedUtf8 str) ↔
        ∀ ps : List Piece, (∀ p ∈ ps, p.Fits) → str.bytes = ps.flatMap Piece.bytes → ∀ p ∈ ps, p.Proper := by
  unfold IsWellFormedUtf8 Utf8toUcs2Len
  constructor
  . intro heq ps hps hstr p hp
    by_cases hhigh : ∃ ch ∈ str.bytes, 0x80 ≤ ch
    . have hlen := (heq.1 ((Utf8CheckString_pieces hps hstr).2 hhigh)).2
      rw [hstr] at hlen
      exact (len_pieces hps le_rfl).1 hlen p hp
    . rw [hstr, exists_high_iff hps, List.any_eq_true] at hhigh
      refine Or.inl (UInt8.not_le.1 fun hle => hhigh ⟨p, hp, decide_eq_true hle⟩)
  . intro hproper
    constructor
    . intro hcheck
      obtain ⟨tail, ps, hstr, htail, -, hps⟩ := pieces_of_check hcheck
      rw [List.length_eq_zero_iff.1 htail, List.nil_append] at hstr
      refine ⟨(Utf8CheckString_pieces hps hstr).1 hcheck, ?_⟩
      rw [hstr]
      exact (len_pieces hps le_rfl).2 (hproper ps hps hstr)
    . rintro ⟨hhigh, hlen⟩
      obtain ⟨ps, hstr, hps⟩ := pieces_of_len hlen
      exact (Utf8CheckString_pieces hps hstr).2 hhigh

theorem not_Utf8CheckString
    : ¬∀ str : CStr, Utf8CheckString str = true ↔ IsWellFormedUtf8 str := by
  intro h
  have hcheck : Utf8CheckString ⟨[0x93], by decide⟩ = true := by decide +kernel
  have hlen := ((h ⟨[0x93], by decide⟩).1 hcheck).2
  exact hlen (by decide +kernel)

end Utf
