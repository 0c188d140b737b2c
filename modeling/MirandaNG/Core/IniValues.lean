import MirandaNG.Core.IniFile
import MirandaNG.Data.Bytes

/-!
This module proves when the decoders of strings of type 'g' and of blobs stay inside their memory, and when a blob gets
the bytes its text lists.
-/

namespace Ini

open Netlib (isSpace)

variable {s rest text : List UInt8} {c : UInt8} {value : Int} {n size : Nat}

theorem skipHexPrefix_suffix (s : List UInt8) : skipHexPrefix s <:+ s := by
  unfold skipHexPrefix
  split
  . split
    . exact ⟨[48, _], rfl⟩
    . exact List.suffix_rfl
  . exact List.suffix_rfl

theorem strtol_cases (h : strtol s = some (value, rest))
    : ∃ d t, d :: t <:+ s ∧ isHexDigit d ∧ rest <:+ t ∧ ∀ c ∈ rest.head?, ¬isHexDigit c := by
  have hdigits : ∀ (sign : Int) (s' : List UInt8), s' <:+ s →
      (if ((skipHexPrefix s').takeWhile isHexDigit).isEmpty then none
        else some (min (max (sign * Netlib.hexValue 0 (skipHexPrefix s')) (-2 ^ 31)) (2 ^ 31 - 1),
          (skipHexPrefix s').dropWhile isHexDigit)) = some (value, rest) →
      ∃ d t, d :: t <:+ s ∧ isHexDigit d ∧ rest <:+ t ∧ ∀ c ∈ rest.head?, ¬isHexDigit c := by
    intro sign s' hsuffix h
    split at h
    . cases h
    . next hdigit =>
      have hprefix := (skipHexPrefix_suffix s').trans hsuffix
      cases hs : skipHexPrefix s' with
      | nil =>
        rw [hs] at hdigit
        exact absurd rfl hdigit
      | cons d t =>
        rw [hs] at h hdigit hprefix
        have hd : isHexDigit d := by
          by_contra hd
          rw [List.takeWhile_cons_of_neg hd] at hdigit
          exact hdigit rfl
        rw [List.dropWhile_cons_of_pos hd] at h
        cases h
        refine ⟨d, t, hprefix, hd, List.dropWhile_suffix _, ?_⟩
        intro c hc
        have hnot := List.head?_dropWhile_not isHexDigit t
        rw [Option.mem_def.1 hc] at hnot
        simpa using hnot
  have hspace := List.dropWhile_suffix (l := s) isSpace
  unfold strtol at h
  dsimp only at h
  split at h
  . next t heq => exact hdigits (-1) _ ((List.suffix_cons _ _).trans (heq ▸ hspace)) h
  . next t heq => exact hdigits 1 _ ((List.suffix_cons _ _).trans (heq ▸ hspace)) h
  . exact hdigits 1 _ hspace h

theorem strtol_length (h : strtol s = some (value, rest)) : rest.length < s.length := by
  obtain ⟨d, t, hsuffix, -, hrest, -⟩ := strtol_cases h
  have hs := hsuffix.length_le
  have ht := hrest.length_le
  rw [List.length_cons] at hs
  omega

theorem strtol_length_of_head (h : strtol s = some (value, rest)) (hhead : ∀ c ∈ s.head?, ¬isHexDigit c)
    : rest.length + 1 < s.length := by
  obtain ⟨d, t, hsuffix, hd, hrest, -⟩ := strtol_cases h
  have hs := hsuffix.length_le
  have ht := hrest.length_le
  rw [List.length_cons] at hs
  have hne : t.length + 1 ≠ s.length := by
    intro hlength
    have heq := hsuffix.eq_of_length hlength
    apply hhead d _ hd
    rw [← heq]
    rfl
  omega

def listedFrom : Nat → List UInt8 → List Int
  | 0, _ => []
  | n + 1, s =>
    match strtol s with
    | none => []
    | some (value, pszEnd) => value :: listedFrom n pszEnd

def listed (text : List UInt8) : List Int := listedFrom text.length text

theorem length_listedFrom_of_head (n : Nat) (hhead : ∀ c ∈ s.head?, ¬isHexDigit c)
    : 2 * (listedFrom n s).length ≤ s.length := by
  induction n generalizing s with
  | zero => exact Nat.zero_le _
  | succ n ih =>
    unfold listedFrom
    split
    . exact Nat.zero_le _
    . next value rest h =>
      obtain ⟨d, t, -, -, -, hrest⟩ := strtol_cases h
      have hlength := strtol_length_of_head h hhead
      have hih := ih hrest
      rw [List.length_cons]
      omega

theorem length_listedFrom (n : Nat) (s : List UInt8) : 2 * (listedFrom n s).length ≤ s.length + 1 := by
  cases n with
  | zero => exact Nat.zero_le _
  | succ n =>
    unfold listedFrom
    split
    . exact Nat.zero_le _
    . next value rest h =>
      obtain ⟨d, t, -, -, -, hrest⟩ := strtol_cases h
      have hlength := strtol_length h
      have hih := length_listedFrom_of_head n hrest
      rw [List.length_cons]
      omega

theorem listedFrom_of_none (h : strtol s = none) (n : Nat) : listedFrom n s = [] := by
  cases n with
  | zero => rfl
  | succ n =>
    unfold listedFrom
    rw [h]

theorem blobLoop_eq {m : Nat} (hn : s.length < n) (hm : s.length ≤ m) (buf : List UInt8)
    : blobLoop size n buf s =
        if buf.length + (listedFrom m s).length < size then
          some (buf ++ (listedFrom m s).map UInt8.ofInt)
        else
          none := by
  induction n generalizing s m buf with
  | zero => cases hn
  | succ n ih =>
    rw [blobLoop]
    cases h : strtol s with
    | none =>
      rw [listedFrom_of_none h, List.length_nil, List.map_nil, List.append_nil, Nat.add_zero]
      by_cases hsize : buf.length ≥ size
      . rw [if_pos hsize, if_neg (Nat.not_lt.2 hsize)]
      . rw [if_neg hsize, if_pos (Nat.lt_of_not_ge hsize)]
    | some r =>
      obtain ⟨value, rest⟩ := r
      have hlength := strtol_length h
      cases m with
      | zero =>
        rw [List.length_eq_zero_iff.1 (Nat.le_zero.1 hm)] at h
        cases h
      | succ m =>
        have hlisted : listedFrom (m + 1) s = value :: listedFrom m rest := by
          rw [listedFrom, h]
        rw [hlisted, List.length_cons, List.map_cons]
        by_cases hsize : buf.length ≥ size
        . rw [if_pos hsize, if_neg (by omega)]
        . rw [if_neg hsize]
          dsimp only
          have hfuel : rest.length ≤ m := by omega
          rw [ih (by omega) hfuel, List.length_append, List.length_singleton, List.append_assoc,
            List.singleton_append, Nat.add_assoc, Nat.add_comm 1]

theorem decodeBlob_eq (text : List UInt8)
    : decodeBlob text =
        if (listed text).length < text.length then some ((listed text).map UInt8.ofInt) else none := by
  unfold decodeBlob listed
  rw [blobLoop_eq (Nat.lt_succ_self _) le_rfl, List.length_nil, Nat.zero_add, List.nil_append]

theorem listed_singleton (c : UInt8) : listed [c] = [] ↔ ¬isHexDigit c := by
  have hlisted : listed [c] = [] ↔ strtol [c] = none := by
    unfold listed
    rw [List.length_singleton, listedFrom]
    cases strtol [c] with
    | none => exact iff_of_true rfl rfl
    | some r => exact iff_of_false nofun nofun
  rw [hlisted]
  constructor
  . intro h hc
    have hsome : ∀ c : UInt8, isHexDigit c → (strtol [c]).isSome := forall_halves (by decide)
    have hvalue := hsome c hc
    rw [h] at hvalue
    cases hvalue
  . intro hc
    cases h : strtol [c] with
    | none => rfl
    | some r =>
      obtain ⟨value, rest⟩ := r
      obtain ⟨d, t, hsuffix, hd, -, -⟩ := strtol_cases h
      have hmem := hsuffix.subset List.mem_cons_self
      rw [List.mem_singleton.1 hmem] at hd
      exact absurd hd hc

theorem listed_lt_iff (text : List UInt8)
    : (listed text).length < text.length ↔ 2 ≤ text.length ∨ ∃ c, text = [c] ∧ ¬isHexDigit c := by
  have hlength := length_listedFrom text.length text
  match text with
  | [] =>
    refine iff_of_false (Nat.not_lt_zero _) ?_
    rintro (hle | ⟨c, hc, -⟩)
    . cases hle
    . cases hc
  | [c] =>
    rw [List.length_singleton, Nat.lt_one_iff, List.length_eq_zero_iff, listed_singleton]
    constructor
    . exact fun hc => .inr ⟨c, rfl, hc⟩
    . rintro (hle | ⟨c', heq, hc⟩)
      . exact absurd hle (by decide)
      . cases heq
        exact hc
  | c :: d :: s =>
    unfold listed
    rw [List.length_cons, List.length_cons] at hlength ⊢
    exact iff_of_true (by omega) (.inl (by omega))

inductive ValueType where
  | string
  | blob

def DecodesSafely (text : CStr) : ValueType → Prop
  | .string => ∃ m, decodeG (text.bytes ++ [0]) = some m ∧ m.takeWhile (· ≠ 0) = decode text.bytes
  | .blob => ∃ buf, decodeBlob text.bytes = some buf ∧ buf.map (fun b => (b.toNat : Int)) = listed text.bytes

-- The only backslash of a string is not its last character. A blob has a text of two characters, or one that is not a
-- digit, and the numbers are bytes.
def Decodable (text : CStr) : ValueType → Prop
  | .string => ∀ s, text.bytes = s ++ [backslash] → backslash ∈ s
  | .blob =>
    (2 ≤ text.bytes.length ∨ ∃ c, text.bytes = [c] ∧ ¬isHexDigit c) ∧ ∀ value ∈ listed text.bytes, 0 ≤ value ∧ value < 256

theorem map_ofInt_eq_iff (values : List Int)
    : (values.map UInt8.ofInt).map (fun b => (b.toNat : Int)) = values ↔ ∀ value ∈ values, 0 ≤ value ∧ value < 256 := by
  induction values with
  | nil => exact iff_of_true rfl nofun
  | cons value values ih =>
    rw [List.map_cons, List.map_cons, List.cons.injEq, ih, List.forall_mem_cons]
    apply and_congr_left'
    have hcast : ((UInt8.ofInt value).toNat : Int) = value % 256 := by
      unfold UInt8.ofInt
      rw [UInt8.toNat_ofNat']
      omega
    rw [hcast]
    omega

theorem blob_safe_iff (text : CStr) : DecodesSafely text .blob ↔ Decodable text .blob := by
  change (∃ buf, decodeBlob text.bytes = some buf ∧ buf.map (fun b => (b.toNat : Int)) = listed text.bytes) ↔
    (2 ≤ text.bytes.length ∨ ∃ c, text.bytes = [c] ∧ ¬isHexDigit c) ∧
      ∀ value ∈ listed text.bytes, 0 ≤ value ∧ value < 256
  rw [decodeBlob_eq, ← listed_lt_iff, ← map_ofInt_eq_iff]
  by_cases hlt : (listed text.bytes).length < text.bytes.length
  . rw [if_pos hlt]
    constructor
    . rintro ⟨buf, heq, hvalues⟩
      cases heq
      exact ⟨hlt, hvalues⟩
    . rintro ⟨-, hvalues⟩
      exact ⟨_, rfl, hvalues⟩
  . rw [if_neg hlt]
    refine iff_of_false ?_ fun h => hlt h.1
    rintro ⟨buf, heq, -⟩
    cases heq

theorem decodeLoop_plain (hnul : 0 ∉ s) (hplain : backslash ∉ s) (n : Nat) (done mem : List UInt8)
    : decodeLoop (s.length + n) done (s ++ mem) = decodeLoop n (done ++ s) mem := by
  induction s generalizing done with
  | nil => rw [List.length_nil, Nat.zero_add, List.nil_append, List.append_nil]
  | cons c s ih =>
    rw [List.mem_cons, not_or] at hnul hplain
    rw [List.length_cons, Nat.add_right_comm, List.cons_append, decodeLoop, if_neg (Ne.symm hnul.1),
      if_pos (Ne.symm hplain.1), ih hnul.2 hplain.2, List.append_assoc, List.singleton_append]

theorem string_safe_iff (text : CStr) : DecodesSafely text .string ↔ Decodable text .string := by
  have hnul := text.nul_notMem
  constructor
  . rintro ⟨m, hm, -⟩ s heq
    rw [heq, List.mem_append, not_or] at hnul
    by_contra hplain
    have hstop : decodeG (text.bytes ++ [0]) = decodeLoop 3 s [backslash, 0] := by
      unfold decodeG
      rw [heq, List.append_assoc, List.length_append, List.singleton_append]
      exact decodeLoop_plain hnul.1 hplain 3 [] _
    rw [hstop] at hm
    exact absurd hm nofun
  . intro h
    have hlast : ∀ s, text.bytes = s ++ [backslash] → backslash ∈ s := h
    have hsome : (decodeG (text.bytes ++ [0])).isSome := by
      unfold decodeG
      by_cases hplain : backslash ∈ text.bytes
      . obtain ⟨s, t, hsplit, hs⟩ := List.eq_append_cons_of_mem hplain
        rw [hsplit] at hnul hlast ⊢
        rw [List.mem_append, List.mem_cons, not_or, not_or] at hnul
        obtain ⟨hnul, -, ht⟩ := hnul
        cases t with
        | nil => exact absurd (hlast s rfl) hs
        | cons d t =>
          rw [List.mem_cons, not_or] at ht
          have hlength : (s ++ backslash :: d :: t ++ [0]).length + 1 = s.length + (t.length + 4) := by
            simp only [List.length_append, List.length_cons, List.length_nil]
            omega
          have hmove : moveUp (d :: t ++ [0]) = some (d, t ++ [0, 0]) := by
            unfold moveUp
            rw [List.cons_append]
            dsimp only
            rw [idxOf?_nul ht.2, Option.map_some, List.take_append, List.take_of_length_le (Nat.le_succ _),
              Nat.add_sub_cancel_left]
            simp
          rw [hlength, List.append_assoc, decodeLoop_plain hnul hs, List.cons_append, decodeLoop, if_neg (by decide),
            if_neg (by decide), hmove]
          exact decodeLoop_isSome ht.2 (by omega) _ []
      . rw [List.length_append, Nat.add_assoc, decodeLoop_plain hnul hplain]
        rfl
    obtain ⟨m, hm⟩ := Option.isSome_iff_exists.1 hsome
    exact ⟨m, hm, decodeLoop_string hnul List.not_mem_nil [] hm⟩

theorem decodesSafely_iff (text : CStr) (type : ValueType) : DecodesSafely text type ↔ Decodable text type := by
  cases type with
  | string => exact string_safe_iff text
  | blob => exact blob_safe_iff text

theorem not_decodesSafely_digit : ¬DecodesSafely ⟨[49], by decide⟩ .blob := by
  rintro ⟨buf, hbuf, -⟩
  cases hbuf

end Ini
