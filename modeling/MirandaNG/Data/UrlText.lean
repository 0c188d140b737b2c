import MirandaNG.Data.Bytes
import MirandaNG.Data.CStr

/-!
This module contains the escaping of texts for URLs, and proves that the memory of an escaped text is turned into the text
itself, with nothing behind it touched.
-/

namespace UrlText

variable {str behind : List UInt8}

def SingleHexToDecimal (c : UInt8) : Int :=
  if 48 ≤ c ∧ c ≤ 57 then c.toNat - 48
  else if 97 ≤ c ∧ c ≤ 102 then c.toNat - 97 + 10
  else if 65 ≤ c ∧ c ≤ 70 then c.toNat - 65 + 10
  else -1

def ofDigits (digit1 digit2 : Int) : UInt8 := UInt8.ofInt (digit1 * 16 + digit2)

-- What the character at `s` stands for, and how many characters that takes; `none` behind the memory
def readChar : List UInt8 → Option (UInt8 × Nat)
  | [] => none
  | c :: rest =>
    if c = 37 then
      match rest with
      | [] => none
      | c1 :: rest =>
        if SingleHexToDecimal c1 = -1 then
          some (37, 1)
        else
          match rest with
          | [] => none
          | c2 :: _ =>
            if SingleHexToDecimal c2 = -1 then
              some (37, 1)
            else
              some (ofDigits (SingleHexToDecimal c1) (SingleHexToDecimal c2), 3)
    else
      some (if c = 43 then 32 else c, 1)

def decodeLoop : Nat → List UInt8 → Nat → Nat → Option (List UInt8)
  | 0, _, _, _ => none
  | n + 1, mem, s, d =>
    if (mem.drop s).head? = some 0 then
      some (mem.set d 0)
    else
      match readChar (mem.drop s) with
      | none => none
      | some (c, len) => decodeLoop n (mem.set d c) (s + len) (d + 1)

def mir_urlDecode (szUrl : List UInt8) : Option (List UInt8) := decodeLoop (szUrl.length + 1) szUrl 0 0

def szHexDigits (digit : Nat) : UInt8 := UInt8.ofNat (if digit < 10 then 48 + digit else 55 + digit)

def isPlain (c : UInt8) : Bool :=
  48 ≤ c ∧ c ≤ 57 ∨ 65 ≤ c ∧ c ≤ 90 ∨ 97 ≤ c ∧ c ≤ 122 ∨ c = 45 ∨ c = 95 ∨ c = 46 ∨ c = 126

def encodeChar (c : UInt8) : List UInt8 :=
  if isPlain c then [c] else [37, szHexDigits (c.toNat / 16), szHexDigits (c.toNat % 16)]

theorem zero_notMem_encodeChar (c : UInt8) : 0 ∉ encodeChar c := by
  have hdigit : ∀ digit < 16, 0 ≠ szHexDigits digit := by decide
  have hlt := UInt8.toNat_lt c
  unfold encodeChar
  split
  . next hplain =>
    intro h
    rw [← List.mem_singleton.1 h] at hplain
    cases hplain
  . simp [hdigit (c.toNat / 16) (by omega), hdigit (c.toNat % 16) (by omega)]

def mir_urlEncode (szUrl : CStr) : CStr :=
  ⟨szUrl.bytes.flatMap encodeChar, fun h => by
    obtain ⟨c, _, hmem⟩ := List.mem_flatMap.1 h
    exact zero_notMem_encodeChar c hmem⟩

def unescape : List UInt8 → List UInt8
  | [] => []
  | [c] => [if c = 43 then 32 else c]
  | [c, c1] => (if c = 43 then 32 else c) :: unescape [c1]
  | c :: c1 :: c2 :: rest =>
    if c = 37 ∧ SingleHexToDecimal c1 ≠ -1 ∧ SingleHexToDecimal c2 ≠ -1 then
      ofDigits (SingleHexToDecimal c1) (SingleHexToDecimal c2) :: unescape rest
    else
      (if c = 43 then 32 else c) :: unescape (c1 :: c2 :: rest)

theorem readChar_spec (hne : str ≠ []) (behind : List UInt8)
    : ∃ c len, readChar (str ++ 0 :: behind) = some (c, len) ∧ 0 < len ∧ len ≤ str.length ∧
        unescape str = c :: unescape (str.drop len) := by
  have hnul : SingleHexToDecimal 0 = -1 := by decide
  rcases str with _ | ⟨c, _ | ⟨c1, _ | ⟨c2, rest⟩⟩⟩
  . contradiction
  . refine ⟨if c = 43 then 32 else c, 1, ?_, Nat.one_pos, le_rfl, rfl⟩
    by_cases hpercent : c = 37
    . simp [readChar, hpercent, hnul]
    . simp [readChar, hpercent]
  . refine ⟨if c = 43 then 32 else c, 1, ?_, Nat.one_pos, by simp, rfl⟩
    by_cases hpercent : c = 37
    . by_cases hdigit : SingleHexToDecimal c1 = -1 <;> simp [readChar, hpercent, hdigit, hnul]
    . simp [readChar, hpercent]
  . by_cases hescape : c = 37 ∧ SingleHexToDecimal c1 ≠ -1 ∧ SingleHexToDecimal c2 ≠ -1
    . refine ⟨ofDigits (SingleHexToDecimal c1) (SingleHexToDecimal c2), 3, ?_, by decide, by simp, ?_⟩
      . simp [readChar, hescape]
      . rw [unescape, if_pos hescape]
        rfl
    . refine ⟨if c = 43 then 32 else c, 1, ?_, Nat.one_pos, by simp, ?_⟩
      . by_cases hpercent : c = 37
        . by_cases hdigit : SingleHexToDecimal c1 = -1
          . simp [readChar, hpercent, hdigit]
          . have hdigit' : SingleHexToDecimal c2 = -1 := by
              by_contra h
              exact hescape ⟨hpercent, hdigit, h⟩
            simp [readChar, hpercent, hdigit, hdigit']
        . simp [readChar, hpercent]
      . rw [unescape, if_neg hescape]
        rfl

-- The text behind the characters that were read is still there: what is written never gets ahead of what is read.
theorem decodeLoop_spec {n : Nat} (done junk : List UInt8) (hn : str.length < n) (hnul : 0 ∉ str)
    : ∃ rest, decodeLoop n (done ++ (junk ++ (str ++ 0 :: behind))) (done.length + junk.length) done.length =
          some (done ++ (unescape str ++ 0 :: (rest ++ behind))) ∧
        (unescape str).length + rest.length = junk.length + str.length := by
  induction n generalizing done junk str with
  | zero => contradiction
  | succ n ih =>
    have hdrop : (done ++ (junk ++ (str ++ 0 :: behind))).drop (done.length + junk.length) = str ++ 0 :: behind := by
      rw [← List.append_assoc, List.drop_left' (by simp)]
    rw [decodeLoop, hdrop]
    by_cases hne : str = []
    . subst hne
      have hend : ([] ++ 0 :: behind).head? = some 0 := rfl
      rw [if_pos hend]
      cases junk with
      | nil => exact ⟨[], by simp [unescape], rfl⟩
      | cons j junk => exact ⟨junk ++ [0], by simp [unescape], by simp [unescape]⟩
    . rcases readChar_spec hne behind with ⟨c, len, hread, hpos, hlen, hunescape⟩
      have hhead : (str ++ 0 :: behind).head? ≠ some 0 := by
        cases str with
        | nil => contradiction
        | cons c str =>
          intro h
          cases h
          exact hnul List.mem_cons_self
      rw [if_neg hhead, hread, hunescape]
      obtain ⟨x, junk', hjunk⟩ : ∃ x junk', junk ++ str.take len = x :: junk' := by
        refine List.exists_cons_of_ne_nil ?_
        have : 0 < (junk ++ str.take len).length := by
          rw [List.length_append, List.length_take]
          omega
        exact List.ne_nil_of_length_pos this
      have hmem : junk ++ (str ++ 0 :: behind) = x :: (junk' ++ (str.drop len ++ 0 :: behind)) := by
        rw [← List.cons_append, ← hjunk, List.append_assoc, ← List.append_assoc (str.take len), List.take_append_drop]
      have hlength : junk.length + len = junk'.length + 1 := by
        have := congrArg List.length hjunk
        rw [List.length_append, List.length_take, min_eq_left hlen, List.length_cons] at this
        exact this
      have hshort : (str.drop len).length < n := by
        rw [List.length_drop]
        omega
      rcases ih (done ++ [c]) junk' hshort (fun h => hnul (List.mem_of_mem_drop h)) with
        ⟨rest, hloop, hrest⟩
      refine ⟨rest, ?_, ?_⟩
      . dsimp only
        rw [hmem, List.set_append_right _ _ le_rfl, Nat.sub_self, List.set_cons_zero]
        rw [List.length_append, List.length_singleton] at hloop
        simpa [show done.length + junk.length + len = done.length + 1 + junk'.length by omega] using hloop
      . rw [List.length_drop] at hrest
        rw [List.length_cons]
        omega

theorem decode_spec (hnul : 0 ∉ str) (behind : List UInt8)
    : ∃ rest, mir_urlDecode (str ++ 0 :: behind) = some (unescape str ++ 0 :: (rest ++ behind)) ∧
        (unescape str).length + rest.length = str.length := by
  have hn : str.length < (str ++ 0 :: behind).length + 1 := by
    rw [List.length_append]
    omega
  simpa [mir_urlDecode] using @decodeLoop_spec str behind _ [] [] hn hnul

/--
Decoding in place gives what the text stands for, and changes nothing behind the terminator of the text.
-/
theorem mir_urlDecode_inPlace (szUrl : CStr) (behind : List UInt8)
    : ∃ rest, mir_urlDecode (szUrl.bytes ++ 0 :: behind) =
          some (unescape szUrl.bytes ++ 0 :: (rest ++ behind)) ∧
        (unescape szUrl.bytes).length + rest.length = szUrl.bytes.length :=
  decode_spec szUrl.nul_notMem behind

theorem SingleHexToDecimal_szHexDigits : ∀ digit < 16, SingleHexToDecimal (szHexDigits digit) = digit := by
  decide

theorem encodeChar_plain : ∀ c : UInt8, isPlain c = true → c ≠ 37 ∧ c ≠ 43 := by
  intro c hplain
  refine ⟨?_, ?_⟩ <;>
  . rintro rfl
    revert hplain
    decide

theorem unescape_cons {c : UInt8} (h : c ≠ 37 ∧ c ≠ 43) (text : List UInt8)
    : unescape (c :: text) = c :: unescape text := by
  rcases text with _ | ⟨c1, _ | ⟨c2, rest⟩⟩ <;> simp [unescape, h]

theorem unescape_encodeChar (c : UInt8) (text : List UInt8)
    : unescape (encodeChar c ++ text) = c :: unescape text := by
  unfold encodeChar
  split
  . next hplain => exact unescape_cons (encodeChar_plain c hplain) text
  . have hlt := UInt8.toNat_lt c
    have hhigh := SingleHexToDecimal_szHexDigits (c.toNat / 16) (by omega)
    have hlow := SingleHexToDecimal_szHexDigits (c.toNat % 16) (by omega)
    have hbyte : ofDigits (c.toNat / 16 : Nat) (c.toNat % 16 : Nat) = c := by
      have hdigits : ((c.toNat / 16 : Nat) : Int) * 16 + (c.toNat % 16 : Nat) = (c.toNat : Nat) := by omega
      rw [ofDigits, hdigits, UInt8.ofInt, Int.emod_eq_of_lt (by omega) (by omega), Int.toNat_natCast,
        UInt8.ofNat_toNat]
    simp only [List.cons_append, List.nil_append, unescape, hhigh, hlow, hbyte]
    rw [if_pos ⟨trivial, by omega, by omega⟩]

theorem unescape_mir_urlEncode (szUrl : CStr) : unescape (mir_urlEncode szUrl).bytes = szUrl.bytes := by
  show unescape (szUrl.bytes.flatMap encodeChar) = szUrl.bytes
  induction szUrl.bytes with
  | nil => rfl
  | cons c bytes ih =>
    rw [List.flatMap_cons, unescape_encodeChar, ih]

/--
An escaped text decodes to the text it was made of.
-/
theorem mir_urlDecode_mir_urlEncode (szUrl : CStr) (behind : List UInt8)
    : ∃ rest, mir_urlDecode ((mir_urlEncode szUrl).bytes ++ 0 :: behind) =
          some (szUrl.bytes ++ 0 :: (rest ++ behind)) ∧
        szUrl.bytes.length + rest.length = (mir_urlEncode szUrl).bytes.length := by
  have h := decode_spec (mir_urlEncode szUrl).nul_notMem behind
  rwa [unescape_mir_urlEncode] at h

end UrlText
