import MirandaNG.Netlib.HttpBody
import MirandaNG.Data.CStr

/-!
This module contains how `ProcessIniFile` decodes the value of a setting line: the escapes of a string of type 'e' or 'g'
and the bytes of a blob of type 'n' or 'h'. The text of a value is what stands behind its type, up to the NUL.

It proves when the passes over a string of type 'e' give what the scan of a string of type 'g'
gives.
-/

namespace Ini

open Netlib (isSpace hexDigit? hexValue)

def backslash : UInt8 := 92

def strstr (pszSub : List UInt8) : List UInt8 → Option Nat
  | [] => if pszSub = [] then some 0 else none
  | c :: s => if pszSub.isPrefixOf (c :: s) then some 0 else (strstr pszSub s).map (· + 1)

def replaceLoop (pszOld pszNew : List UInt8) : Nat → List UInt8 → List UInt8
  | 0, s => s
  | n + 1, s =>
    match strstr pszOld s with
    | none => s
    | some i => s.take i ++ pszNew ++ replaceLoop pszOld pszNew n (s.drop (i + pszOld.length))

def Replace (pszOld pszNew s : List UInt8) : List UInt8 := replaceLoop pszOld pszNew s.length s

def decodeE (text : List UInt8) : List UInt8 :=
  let str := Replace [backslash, 110] [10] text
  let str := Replace [backslash, 116] [9] str
  let str := Replace [backslash, 114] [13] str
  Replace [backslash, backslash] [backslash] str

def unescape (c : UInt8) : UInt8 :=
  if c = 110 then 10 else if c = 116 then 9 else if c = 114 then 13 else c

-- `memmove(pstr + 1, pstr + 2, mir_strlen(pstr + 2) + 1)`, on the memory from `pstr + 1` on; the character that was there
-- comes with it.
def moveUp : List UInt8 → Option (UInt8 × List UInt8)
  | [] => none
  | d :: rest => (rest.idxOf? 0).map fun len => (d, rest.take (len + 1) ++ (d :: rest).drop (len + 1))

def decodeLoop : Nat → List UInt8 → List UInt8 → Option (List UInt8)
  | 0, _, _ => none
  | _ + 1, _, [] => none
  | n + 1, done, c :: mem =>
    if c = 0 then
      some (done ++ c :: mem)
    else if c ≠ backslash then
      decodeLoop n (done ++ [c]) mem
    else
      match moveUp mem with
      | none => none
      | some (d, mem) => decodeLoop n (done ++ [unescape d]) mem

def decodeG (mem : List UInt8) : Option (List UInt8) := decodeLoop (mem.length + 1) [] mem

def isHexDigit (c : UInt8) : Bool := (hexDigit? c).isSome

-- "0x" counts as a prefix in front of a digit only.
def skipHexPrefix : List UInt8 → List UInt8
  | 48 :: x :: d :: s => if (x = 120 ∨ x = 88) ∧ isHexDigit d then d :: s else 48 :: x :: d :: s
  | s => s

-- `strtol(pszValue, &pszEnd, 0x10)`: the number and the text at `pszEnd`. Where there is no number `pszEnd` is `pszValue`.
def strtol (pszValue : List UInt8) : Option (Int × List UInt8) :=
  let s := pszValue.dropWhile isSpace
  let (sign, s) : Int × List UInt8 := match s with
    | 45 :: s => (-1, s)
    | 43 :: s => (1, s)
    | s => (1, s)
  let s := skipHexPrefix s
  if (s.takeWhile isHexDigit).isEmpty then
    none
  else
    some (min (max (sign * hexValue 0 s) (-2 ^ 31)) (2 ^ 31 - 1), s.dropWhile isHexDigit)

-- The loop writes a byte in every round, and there is no result when it is outside of the `size` bytes of `buf`.
def blobLoop (size : Nat) : Nat → List UInt8 → List UInt8 → Option (List UInt8)
  | 0, _, _ => none
  | n + 1, buf, pszValue =>
    if buf.length ≥ size then
      none
    else
      match strtol pszValue with
      | none => some buf
      | some (value, pszEnd) => blobLoop size n (buf ++ [UInt8.ofInt value]) pszEnd

def decodeBlob (text : List UInt8) : Option (List UInt8) := blobLoop text.length (text.length + 1) [] text

end Ini

namespace Ini

variable {s text : List UInt8} {a b c d : UInt8} {k n : Nat}

def decode : List UInt8 → List UInt8
  | [] => []
  | [c] => if c = backslash then [] else [c]
  | c :: d :: s => if c = backslash then unescape d :: decode s else c :: decode (d :: s)

theorem decode_nil : decode [] = [] := by rw [decode]

theorem decode_cons_of_ne (h : c ≠ backslash) (s : List UInt8) : decode (c :: s) = c :: decode s := by
  cases s with
  | nil => rw [decode_nil, decode, if_neg h]
  | cons d s => rw [decode, if_neg h]

theorem decode_escape (d : UInt8) (s : List UInt8) : decode (backslash :: d :: s) = unescape d :: decode s := by
  rw [decode, if_pos rfl]

theorem unescape_ne_zero (h : d ≠ 0) : unescape d ≠ 0 := by
  unfold unescape
  split
  . decide
  . split
    . decide
    . split
      . decide
      . exact h

theorem takeWhile_append_nul (h : 0 ∉ text) (mem : List UInt8) : (text ++ 0 :: mem).takeWhile (· ≠ 0) = text := by
  rw [List.takeWhile_append_of_pos]
  . simp
  . intro c hc
    have hne : c ≠ 0 := fun heq => h (heq ▸ hc)
    simpa using hne

theorem idxOf?_nul (h : 0 ∉ text) (mem : List UInt8) : (text ++ 0 :: mem).idxOf? 0 = some text.length := by
  induction text with
  | nil => rfl
  | cons c text ih =>
    have hc : c ≠ 0 := fun heq => h (heq ▸ List.mem_cons_self)
    rw [List.cons_append, List.idxOf?_cons, if_neg (by simpa using hc), ih fun hmem => h (List.mem_cons_of_mem _ hmem)]
    rfl

theorem moveUp_text (h : 0 ∉ text) (d : UInt8) (mem : List UInt8)
    : ∃ behind, moveUp (d :: (text ++ 0 :: mem)) = some (d, text ++ 0 :: behind) := by
  unfold moveUp
  dsimp only
  rw [idxOf?_nul h]
  refine ⟨(d :: (text ++ 0 :: mem)).drop (text.length + 1), ?_⟩
  rw [Option.map_some, List.take_append, List.take_of_length_le (Nat.le_succ _), Nat.add_sub_cancel_left]
  simp

theorem append_of_decodeLoop {m done mem : List UInt8} (h : decodeLoop n done mem = some m)
    : ∃ mem', m = done ++ mem' := by
  induction n generalizing done mem with
  | zero => cases h
  | succ n ih =>
    cases mem with
    | nil => cases h
    | cons c mem =>
      rw [decodeLoop] at h
      split at h
      . cases h
        exact ⟨_, rfl⟩
      . split at h
        . obtain ⟨mem', rfl⟩ := ih h
          exact ⟨c :: mem', List.append_assoc _ _ _⟩
        . split at h
          . cases h
          . next d _ _ =>
            obtain ⟨mem', rfl⟩ := ih h
            exact ⟨unescape d :: mem', List.append_assoc _ _ _⟩

theorem nul_notMem_append (hdone : 0 ∉ text) (hc : c ≠ 0) : 0 ∉ text ++ [c] := by
  rw [List.mem_append, List.mem_singleton]
  exact not_or.2 ⟨hdone, hc.symm⟩

theorem decodeLoop_string {m done : List UInt8} (hnul : 0 ∉ text) (hdone : 0 ∉ done) (behind : List UInt8)
    (h : decodeLoop n done (text ++ 0 :: behind) = some m) : m.takeWhile (· ≠ 0) = done ++ decode text := by
  induction n generalizing done text behind with
  | zero => cases h
  | succ n ih =>
    cases text with
    | nil =>
      rw [List.nil_append, decodeLoop, if_pos rfl] at h
      cases h
      rw [takeWhile_append_nul hdone, decode_nil, List.append_nil]
    | cons c text =>
      have hc : c ≠ 0 := fun heq => hnul (heq ▸ List.mem_cons_self)
      have htext : 0 ∉ text := fun hmem => hnul (List.mem_cons_of_mem _ hmem)
      rw [List.cons_append, decodeLoop, if_neg hc] at h
      by_cases hescape : c = backslash
      . rw [if_neg (not_not.2 hescape)] at h
        subst hescape
        cases text with
        | nil =>
          rw [List.nil_append] at h
          split at h
          . cases h
          . next d mem hmove =>
            unfold moveUp at hmove
            obtain ⟨len, -, heq⟩ := Option.map_eq_some_iff.1 hmove
            cases heq
            obtain ⟨mem', rfl⟩ := append_of_decodeLoop h
            have hstop : decode [backslash] = [] := by rw [decode, if_pos rfl]
            rw [List.append_assoc, List.singleton_append, show unescape 0 = 0 from rfl, takeWhile_append_nul hdone, hstop,
              List.append_nil]
        | cons d text =>
          have hd : d ≠ 0 := fun heq => htext (heq ▸ List.mem_cons_self)
          have htext' : 0 ∉ text := fun hmem => htext (List.mem_cons_of_mem _ hmem)
          obtain ⟨behind', hmove⟩ := moveUp_text htext' d behind
          rw [List.cons_append, hmove] at h
          have hnew := nul_notMem_append hdone (unescape_ne_zero hd)
          rw [ih htext' hnew behind' h, decode_escape, List.append_assoc, List.singleton_append]
      . rw [if_pos hescape] at h
        rw [ih htext (nul_notMem_append hdone hc) behind h, decode_cons_of_ne hescape, List.append_assoc,
          List.singleton_append]

def replacePair (a b d : UInt8) : List UInt8 → List UInt8
  | [] => []
  | [c] => [c]
  | c :: c' :: s => if c = a ∧ c' = b then d :: replacePair a b d s else c :: replacePair a b d (c' :: s)

theorem strstr_pair (a b c c' : UInt8) (s : List UInt8)
    : strstr [a, b] (c :: c' :: s) =
        if c = a ∧ c' = b then some 0 else (strstr [a, b] (c' :: s)).map (· + 1) := by
  rw [strstr]
  have hstart : [a, b].isPrefixOf (c :: c' :: s) = decide (c = a ∧ c' = b) := by
    by_cases ha : a = c
    . by_cases hb : b = c'
      . simp [List.isPrefixOf, ha, hb]
      . simp [List.isPrefixOf, hb, Ne.symm hb]
    . simp [List.isPrefixOf, ha, Ne.symm ha]
  rw [hstart]
  by_cases h : c = a ∧ c' = b
  . rw [if_pos h, if_pos (decide_eq_true h)]
  . rw [if_neg h, if_neg (by simpa using h)]

theorem replaceLoop_pair (a b d : UInt8) (s : List UInt8)
    : ∀ n, s.length ≤ n → replaceLoop [a, b] [d] n s = replacePair a b d s := by
  induction s using replacePair.induct a b with
  | case1 =>
    intro n _
    cases n with
    | zero => rfl
    | succ n => rfl
  | case2 c =>
    intro n _
    cases n with
    | zero => rfl
    | succ n =>
      have hnone : strstr [a, b] [c] = none := by simp [strstr, List.isPrefixOf]
      rw [replaceLoop, hnone]
      rfl
  | case3 c c' s h ih =>
    intro n hn
    cases n with
    | zero => cases hn
    | succ n =>
      rw [replaceLoop, strstr_pair, if_pos h, replacePair, if_pos h]
      dsimp only
      rw [← ih n (by simp only [List.length_cons] at hn; omega)]
      rfl
  | case4 c c' s h ih =>
    intro n hn
    cases n with
    | zero => cases hn
    | succ n =>
      rw [replaceLoop, strstr_pair, if_neg h, replacePair, if_neg h, ← ih (n + 1) (Nat.le_of_succ_le hn), replaceLoop]
      cases strstr [a, b] (c' :: s) with
      | none => rfl
      | some i =>
        have hadd : i + 1 + 2 = i + 2 + 1 := by omega
        simp [hadd]

theorem Replace_pair (a b d : UInt8) (s : List UInt8) : Replace [a, b] [d] s = replacePair a b d s :=
  replaceLoop_pair a b d s s.length le_rfl

theorem replacePair_cons_of_ne (h : c ≠ a) (s : List UInt8) : replacePair a b d (c :: s) = c :: replacePair a b d s := by
  cases s with
  | nil => rfl
  | cons c' s => rw [replacePair, if_neg fun hand => h hand.1]

theorem replacePair_cons_of_head (h : s.head? ≠ some b) (c : UInt8)
    : replacePair a b d (c :: s) = c :: replacePair a b d s := by
  cases s with
  | nil => rfl
  | cons c' s =>
    rw [replacePair, if_neg]
    rintro ⟨-, rfl⟩
    exact h rfl

theorem head?_replacePair (a b d : UInt8) (s : List UInt8)
    : (replacePair a b d s).head? = s.head? ∨ (replacePair a b d s).head? = some d := by
  cases s with
  | nil => exact .inl rfl
  | cons c s =>
    cases s with
    | nil => exact .inl rfl
    | cons c' s =>
      rw [replacePair]
      split
      . exact .inr rfl
      . exact .inl rfl

def isEscaped (c : UInt8) : Bool := c = 110 ∨ c = 116 ∨ c = 114

def replaceLetters : List UInt8 → List UInt8
  | [] => []
  | [c] => [c]
  | c :: c' :: s =>
    if c = backslash ∧ isEscaped c' then unescape c' :: replaceLetters s else c :: replaceLetters (c' :: s)

theorem replaceLetters_cons_of_ne (h : c ≠ backslash) (s : List UInt8)
    : replaceLetters (c :: s) = c :: replaceLetters s := by
  cases s with
  | nil => rfl
  | cons c' s => rw [replaceLetters, if_neg fun hand => h hand.1]

theorem replacePair_letters (s : List UInt8)
    : replacePair backslash 114 13 (replacePair backslash 116 9 (replacePair backslash 110 10 s)) = replaceLetters s := by
  induction s using replaceLetters.induct with
  | case1 => rfl
  | case2 c => rfl
  | case3 c c' s h ih =>
    obtain ⟨rfl, hletter⟩ := h
    rw [replaceLetters, if_pos ⟨rfl, hletter⟩, ← ih]
    have hcases : c' = 110 ∨ c' = 116 ∨ c' = 114 := of_decide_eq_true hletter
    rcases hcases with rfl | rfl | rfl
    . rw [replacePair, if_pos ⟨rfl, rfl⟩, replacePair_cons_of_ne (by decide), replacePair_cons_of_ne (by decide)]
      rfl
    . have hfirst : replacePair backslash 110 10 (backslash :: 116 :: s) =
          backslash :: 116 :: replacePair backslash 110 10 s := by
        rw [replacePair, if_neg (by decide), replacePair_cons_of_ne (by decide)]
      rw [hfirst, replacePair, if_pos ⟨rfl, rfl⟩, replacePair_cons_of_ne (by decide)]
      rfl
    . have hpass : ∀ (b d : UInt8) (s : List UInt8), b ≠ 114 →
          replacePair backslash b d (backslash :: 114 :: s) = backslash :: 114 :: replacePair backslash b d s := by
        intro b d s hb
        rw [replacePair, if_neg fun hand => hb hand.2.symm, replacePair_cons_of_ne (by decide)]
      rw [hpass 110 10 s (by decide), hpass 116 9 _ (by decide), replacePair, if_pos ⟨rfl, rfl⟩]
      rfl
  | case4 c c' s h ih =>
    rw [replaceLetters, if_neg h, ← ih]
    by_cases hc : c = backslash
    . subst hc
      have hletter : ¬(c' = 110 ∨ c' = 116 ∨ c' = 114) := fun hletter => h ⟨rfl, decide_eq_true hletter⟩
      obtain ⟨hn, ht, hr⟩ : c' ≠ 110 ∧ c' ≠ 116 ∧ c' ≠ 114 := by
        simpa only [not_or] using hletter
      have hhead : ∀ (b' d' : UInt8) {s' : List UInt8}, s'.head? = some c' ∨ s'.head? = some 10 →
          (replacePair backslash b' d' s').head? = some c' ∨ (replacePair backslash b' d' s').head? = some 10 ∨
            (replacePair backslash b' d' s').head? = some d' := by
        intro b' d' s' hs'
        rcases head?_replacePair backslash b' d' s' with heq | heq
        . rw [heq]
          exact hs'.imp id .inl
        . exact .inr (.inr heq)
      have hfirst : (replacePair backslash 110 10 (c' :: s)).head? = some c' ∨
          (replacePair backslash 110 10 (c' :: s)).head? = some 10 := head?_replacePair backslash 110 10 (c' :: s)
      have hsecond := hhead 116 9 hfirst
      rw [replacePair_cons_of_head (by simpa using hn), replacePair_cons_of_head, replacePair_cons_of_head]
      . rcases hsecond with heq | heq | heq
        . rw [heq]
          simpa using hr
        . rw [heq]
          decide
        . rw [heq]
          decide
      . rcases hfirst with heq | heq
        . rw [heq]
          simpa using ht
        . rw [heq]
          decide
    . rw [replacePair_cons_of_ne hc, replacePair_cons_of_ne hc, replacePair_cons_of_ne hc]

theorem decodeE_eq (s : List UInt8) : decodeE s = replacePair backslash backslash backslash (replaceLetters s) := by
  unfold decodeE
  rw [Replace_pair, Replace_pair, Replace_pair, Replace_pair, replacePair_letters]

def apart : Nat → List UInt8 → Bool
  | k, [] => k % 2 = 0
  | k, c :: s =>
    if c = backslash then apart (k + 1) s else (k = 0 ∨ (k % 2 = 1 ↔ isEscaped c)) && apart 0 s

def run (k : Nat) : List UInt8 := List.replicate k backslash

theorem run_succ (k : Nat) : run (k + 1) = backslash :: run k := rfl

theorem run_append_backslash (k : Nat) (s : List UInt8) : run k ++ backslash :: s = run (k + 1) ++ s := by
  unfold run
  rw [List.replicate_succ', List.append_assoc, List.singleton_append]

theorem decode_run (k : Nat) (hc : c ≠ backslash) (s : List UInt8)
    : decode (run k ++ c :: s) = run (k / 2) ++ (if k % 2 = 1 then unescape c else c) :: decode s := by
  induction k using Nat.twoStepInduction with
  | zero => exact decode_cons_of_ne hc s
  | one => exact decode_escape c s
  | more k ih _ =>
    rw [run_succ, run_succ, List.cons_append, List.cons_append, decode_escape, ih,
      show (k + 2) / 2 = k / 2 + 1 by omega, show (k + 2) % 2 = k % 2 by omega]
    rfl

theorem decode_run_nil (k : Nat) : decode (run k) = run (k / 2) := by
  induction k using Nat.twoStepInduction with
  | zero => exact decode_nil
  | one => rw [show run 1 = [backslash] from rfl, decode, if_pos rfl]; rfl
  | more k ih _ =>
    rw [run_succ, run_succ, decode_escape, ih, show (k + 2) / 2 = k / 2 + 1 by omega]
    rfl

theorem replaceLetters_run (k : Nat) (hc : c ≠ backslash) (s : List UInt8)
    : replaceLetters (run (k + 1) ++ c :: s) =
        if isEscaped c then run k ++ unescape c :: replaceLetters s else run (k + 1) ++ c :: replaceLetters s := by
  induction k with
  | zero =>
    change replaceLetters (backslash :: c :: s) = _
    rw [replaceLetters]
    by_cases hletter : isEscaped c
    . rw [if_pos ⟨rfl, hletter⟩, if_pos hletter]
      rfl
    . rw [if_neg fun hand => hletter hand.2, if_neg hletter, replaceLetters_cons_of_ne hc]
      rfl
  | succ k ih =>
    change replaceLetters (backslash :: backslash :: (run k ++ c :: s)) = _
    rw [replaceLetters, if_neg (by decide)]
    change backslash :: replaceLetters (run (k + 1) ++ c :: s) = _
    rw [ih]
    split
    . rfl
    . rfl

theorem replaceLetters_run_nil (k : Nat) : replaceLetters (run k) = run k := by
  induction k with
  | zero => rfl
  | succ k ih =>
    cases k with
    | zero => rfl
    | succ k =>
      change replaceLetters (backslash :: backslash :: run k) = _
      rw [replaceLetters, if_neg (by decide)]
      exact congrArg (backslash :: ·) ih

theorem replacePair_run (k : Nat) (hc : c ≠ backslash) (s : List UInt8)
    : replacePair backslash backslash backslash (run k ++ c :: s) =
        run ((k + 1) / 2) ++ c :: replacePair backslash backslash backslash s := by
  induction k using Nat.twoStepInduction with
  | zero => exact replacePair_cons_of_ne hc s
  | one =>
    change replacePair backslash backslash backslash (backslash :: c :: s) = _
    rw [replacePair, if_neg fun hand => hc hand.2, replacePair_cons_of_ne hc]
    rfl
  | more k ih _ =>
    change replacePair backslash backslash backslash (backslash :: backslash :: (run k ++ c :: s)) = _
    rw [replacePair, if_pos ⟨rfl, rfl⟩, ih, show (k + 2 + 1) / 2 = (k + 1) / 2 + 1 by omega]
    rfl

theorem replacePair_run_nil (k : Nat) : replacePair backslash backslash backslash (run k) = run ((k + 1) / 2) := by
  induction k using Nat.twoStepInduction with
  | zero => rfl
  | one => rfl
  | more k ih _ =>
    change replacePair backslash backslash backslash (backslash :: backslash :: run k) = _
    rw [replacePair, if_pos ⟨rfl, rfl⟩, ih, show (k + 2 + 1) / 2 = (k + 1) / 2 + 1 by omega]
    rfl

theorem unescape_of_not_escaped (h : ¬isEscaped c) : unescape c = c := by
  have hletter : ¬(c = 110 ∨ c = 116 ∨ c = 114) := fun hletter => h (decide_eq_true hletter)
  simp only [not_or] at hletter
  unfold unescape
  rw [if_neg hletter.1, if_neg hletter.2.1, if_neg hletter.2.2]

theorem unescape_ne (h : isEscaped c) : unescape c ≠ c ∧ unescape c ≠ backslash := by
  have hcases : c = 110 ∨ c = 116 ∨ c = 114 := of_decide_eq_true h
  rcases hcases with rfl | rfl | rfl
  . decide
  . decide
  . decide

theorem decodeE_run (k : Nat) (hc : c ≠ backslash) (s : List UInt8)
    : decodeE (run (k + 1) ++ c :: s) =
        if isEscaped c then run ((k + 1) / 2) ++ unescape c :: decodeE s else run ((k + 2) / 2) ++ c :: decodeE s := by
  rw [decodeE_eq, decodeE_eq, replaceLetters_run k hc]
  split
  . next hletter => exact replacePair_run k (unescape_ne hletter).2 _
  . exact replacePair_run (k + 1) hc _

theorem run_append_inj {k k' : Nat} {s s' : List UInt8} (hc : c ≠ backslash) (hd : d ≠ backslash)
    : run k ++ c :: s = run k' ++ d :: s' ↔ k = k' ∧ c = d ∧ s = s' := by
  induction k generalizing k' with
  | zero =>
    cases k' with
    | zero => simp [run]
    | succ k' =>
      rw [run_succ]
      simp [run, hc]
  | succ k ih =>
    cases k' with
    | zero =>
      rw [run_succ]
      simp [run, Ne.symm hd]
    | succ k' =>
      rw [run_succ, run_succ, List.cons_append, List.cons_append, List.cons_inj_right, ih, Nat.add_right_cancel_iff]

theorem decodeE_eq_decode_iff (k : Nat) (s : List UInt8)
    : decodeE (run k ++ s) = decode (run k ++ s) ↔ apart k s := by
  induction s generalizing k with
  | nil =>
    rw [List.append_nil, decodeE_eq, replaceLetters_run_nil, replacePair_run_nil, decode_run_nil]
    unfold run apart
    rw [List.replicate_left_inj, decide_eq_true_iff]
    omega
  | cons c s ih =>
    unfold apart
    by_cases hc : c = backslash
    . subst hc
      rw [if_pos rfl, run_append_backslash]
      exact ih (k + 1)
    . rw [if_neg hc, Bool.and_eq_true, decide_eq_true_iff, ← ih 0]
      change _ ↔ _ ∧ (decodeE s = decode s)
      cases k with
      | zero =>
        change decodeE (c :: s) = decode (c :: s) ↔ _
        rw [decode_cons_of_ne hc, decodeE_eq, replaceLetters_cons_of_ne hc, replacePair_cons_of_ne hc, ← decodeE_eq,
          List.cons_inj_right]
        exact (and_iff_right (.inl rfl)).symm
      | succ k =>
        rw [decodeE_run k hc, decode_run (k + 1) hc]
        by_cases hletter : isEscaped c
        . have hne := unescape_ne hletter
          rw [if_pos hletter]
          by_cases hodd : (k + 1) % 2 = 1
          . rw [if_pos hodd, run_append_inj hne.2 hne.2]
            simp [hodd, hletter]
          . rw [if_neg hodd, run_append_inj hne.2 hc]
            simp [hodd, hletter, hne.1]
        . rw [if_neg hletter]
          have hsame : (if (k + 1) % 2 = 1 then unescape c else c) = c := by
            split
            . exact unescape_of_not_escaped hletter
            . rfl
          rw [hsame, run_append_inj hc hc]
          by_cases hodd : (k + 1) % 2 = 1
          . simp only [hodd, hletter, Bool.false_eq_true, iff_false, not_true_eq_false, or_false, Nat.succ_ne_zero,
              false_and, iff_false]
            omega
          . simp only [hodd, hletter, Bool.false_eq_true, or_true, true_and]
            constructor
            . exact fun hand => hand.2
            . exact fun heq => ⟨by omega, heq⟩

theorem decodeLoop_isSome (hnul : 0 ∉ text) (hn : text.length + 1 < n) (done behind : List UInt8)
    : (decodeLoop n done (text ++ 0 :: 0 :: behind)).isSome := by
  induction n generalizing done text behind with
  | zero => cases hn
  | succ n ih =>
    cases text with
    | nil =>
      rw [List.nil_append, decodeLoop, if_pos rfl]
      rfl
    | cons c text =>
      have hc : c ≠ 0 := fun heq => hnul (heq ▸ List.mem_cons_self)
      have htext : 0 ∉ text := fun hmem => hnul (List.mem_cons_of_mem _ hmem)
      rw [List.length_cons] at hn
      rw [List.cons_append, decodeLoop, if_neg hc]
      by_cases hescape : c = backslash
      . rw [if_neg (not_not.2 hescape)]
        cases text with
        | nil =>
          have hmove : moveUp ([] ++ 0 :: 0 :: behind) = some (0, 0 :: 0 :: behind) := rfl
          rw [hmove]
          have hempty : (0 : UInt8) ∉ ([] : List UInt8) := List.not_mem_nil
          exact ih hempty (by simp; omega) _ _
        | cons d text =>
          have htext' : 0 ∉ text := fun hmem => htext (List.mem_cons_of_mem _ hmem)
          have hmove : moveUp (d :: text ++ 0 :: 0 :: behind) = some (d, text ++ 0 :: 0 :: 0 :: behind) := by
            unfold moveUp
            rw [List.cons_append]
            dsimp only
            rw [idxOf?_nul htext', Option.map_some, List.take_append, List.take_of_length_le (Nat.le_succ _),
              Nat.add_sub_cancel_left]
            simp
          rw [hmove]
          exact ih htext' (by rw [List.length_cons] at hn; omega) _ _
      . rw [if_pos hescape]
        exact ih htext (by omega) _ _

def SameDecoding (text : CStr) : Prop :=
  ∀ behind m, decodeG (text.bytes ++ 0 :: behind) = some m → m.takeWhile (· ≠ 0) = decodeE text.bytes

theorem sameDecoding_iff (text : CStr) : SameDecoding text ↔ apart 0 text.bytes := by
  have hstring : ∀ behind m, decodeG (text.bytes ++ 0 :: behind) = some m → m.takeWhile (· ≠ 0) = decode text.bytes :=
    fun behind m h => decodeLoop_string text.nul_notMem List.not_mem_nil behind h
  rw [← decodeE_eq_decode_iff 0]
  change _ ↔ decodeE text.bytes = decode text.bytes
  constructor
  . intro h
    have hsome := decodeLoop_isSome text.nul_notMem (n := (text.bytes ++ [0, 0]).length + 1) (by
      rw [List.length_append]
      exact Nat.succ_lt_succ (Nat.lt_add_of_pos_right (Nat.succ_pos _))) [] []
    obtain ⟨m, hm⟩ := Option.isSome_iff_exists.1 hsome
    rw [← h [0] m hm, hstring [0] m hm]
  . intro heq behind m hm
    rw [hstring behind m hm, heq]

theorem not_sameDecoding_backslash : ¬SameDecoding ⟨[backslash, backslash, 110], by decide⟩ := by
  intro h
  exact absurd (h [] [backslash, 110, 0, 0] (by decide)) (by decide)

end Ini
