import MirandaNG.Data.CStr

/-!
This module contains the base64 functions of the core.
-/

namespace Base64

def cb64 (i : UInt8) : UInt8 :=
  if i < 26 then i + 65 else if i < 52 then i + 71 else if i < 62 then i - 4 else if i = 62 then 43 else 47

def padding : UInt8 := 0x3D

def encodeBytes : List UInt8 → List UInt8
  | [] => []
  | [a] => [cb64 (a >>> 2), cb64 ((a &&& 0x03) <<< 4), padding, padding]
  | [a, b] =>
    [cb64 (a >>> 2), cb64 ((a &&& 0x03) <<< 4 ||| b >>> 4), cb64 ((b &&& 0x0F) <<< 2), padding]
  | a :: b :: c :: rest =>
    cb64 (a >>> 2) :: cb64 ((a &&& 0x03) <<< 4 ||| b >>> 4) ::
      cb64 ((b &&& 0x0F) <<< 2 ||| c >>> 6) :: cb64 (c &&& 0x3F) :: encodeBytes rest

def mir_base64_encode (input : List UInt8) : CStr := .ofMem (encodeBytes input)

-- `char` is signed, so what stands for the characters from 0x80 on is memory before the table.
def Base64DecodeTable (memory : UInt8 → UInt8) (c : UInt8) : UInt8 :=
  if 0x80 ≤ c then memory c
  else if c = 43 then 62
  else if c = 47 then 63
  else if 48 ≤ c ∧ c ≤ 57 then c + 4
  else if 65 ≤ c ∧ c ≤ 90 then c - 65
  else if 97 ≤ c ∧ c ≤ 122 then c - 71
  else 0xFF

def isNewline (c : UInt8) : Bool := c = 0x0A || c = 0x0D

def readValues (memory : UInt8 → UInt8) : Nat → List UInt8 → List UInt8 × List UInt8
  | 0, input => ([], input)
  | n + 1, input =>
    match input.dropWhile isNewline with
    | [] => (0xFF :: (readValues memory n []).1, [])
    | c :: rest =>
      let (values, rest) := readValues memory n rest
      (Base64DecodeTable memory c :: values, rest)

def decodeValues : List UInt8 → List UInt8
  | [e0, e1, e2, e3] =>
    (e0 <<< 2 ||| e1 >>> 4) ::
      ((if e2 ≠ 0xFF then [(e1 &&& 15) <<< 4 ||| e2 >>> 2] else []) ++
        if e3 ≠ 0xFF then [(e2 &&& 3) <<< 6 ||| e3] else [])
  | _ => []

def decodeBytes (memory : UInt8 → UInt8) : Nat → List UInt8 → List UInt8
  | 0, _ => []
  | _ + 1, [] => []
  | n + 1, input =>
    let (values, rest) := readValues memory 4 input
    if (values.take 2).contains 0xFF then [] else decodeValues values ++ decodeBytes memory n rest

def mir_base64_decode (memory : UInt8 → UInt8) (input : CStr) : List UInt8 :=
  decodeBytes memory (input.strlen + 1) input.bytes

variable {memory : UInt8 → UInt8} {n : Nat}

theorem readValues_count (memory : UInt8 → UInt8) (n : Nat) (input : List UInt8)
    : (readValues memory n input).1.length = n ∧
      (readValues memory n input).1.countP (· ≠ 0xFF) + (readValues memory n input).2.length ≤
        input.length := by
  induction n generalizing input with
  | zero => exact ⟨rfl, Nat.le_of_eq (Nat.zero_add _)⟩
  | succ n ih =>
    have hdrop := (List.dropWhile_sublist (p := isNewline) (l := input)).length_le
    unfold readValues
    split
    . next hnil =>
      obtain ⟨hlength, hcount⟩ := ih []
      refine ⟨congrArg (· + 1) hlength, ?_⟩
      rw [List.countP_cons_of_neg (by decide)]
      have hnone := Nat.le_trans (Nat.le_add_right _ _) hcount
      exact Nat.le_trans (Nat.add_le_add_right hnone _) (Nat.zero_le _)
    . next c rest hcons =>
      obtain ⟨hlength, hcount⟩ := ih rest
      rw [hcons, List.length_cons] at hdrop
      refine ⟨congrArg (· + 1) hlength, ?_⟩
      dsimp only
      rw [List.countP_cons]
      split <;> omega

theorem length_decodeValues_le_countP {values : List UInt8} (hlength : values.length = 4)
    (hvalid : ¬ (values.take 2).contains 0xFF)
    : (decodeValues values).length ≤ values.countP (· ≠ 0xFF) := by
  match values, hlength with
  | [e0, e1, e2, e3], _ =>
    simp only [List.take_succ_cons, List.take_zero, List.contains_cons, List.contains_nil, Bool.or_false,
      Bool.or_eq_true, beq_iff_eq, not_or] at hvalid
    have h0 : e0 ≠ 0xFF := fun h => hvalid.1 h.symm
    have h1 : e1 ≠ 0xFF := fun h => hvalid.2 h.symm
    unfold decodeValues
    by_cases h2 : e2 = 0xFF <;> by_cases h3 : e3 = 0xFF <;>
      simp [h0, h1, h2, h3]

theorem length_decodeBytes_le (input : List UInt8) : (decodeBytes memory n input).length ≤ input.length := by
  induction n generalizing input with
  | zero => exact Nat.zero_le _
  | succ n ih =>
    cases input with
    | nil => exact Nat.le_refl _
    | cons c input =>
      obtain ⟨hlength, hcount⟩ := readValues_count memory 4 (c :: input)
      unfold decodeBytes
      dsimp only
      split
      . exact Nat.zero_le _
      . next hvalid =>
        have hvalues := length_decodeValues_le_countP hlength hvalid
        have hrest := ih (readValues memory 4 (c :: input)).2
        rw [List.length_append]
        omega

theorem length_mir_base64_decode_le (memory : UInt8 → UInt8) (input : CStr)
    : (mir_base64_decode memory input).length ≤ input.strlen :=
  length_decodeBytes_le input.bytes

end Base64
