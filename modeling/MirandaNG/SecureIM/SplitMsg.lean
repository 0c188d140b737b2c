import Mathlib.Data.List.TakeWhile
import Mathlib.Tactic
import MirandaNG.Core.BinBuffer
import MirandaNG.Netlib.HttpBody

/-!
This module contains the splitting of a message into parts that are short enough for a protocol, and the way the
other side puts them together.

It proves what `splitMsg` writes: the parts one behind the other, and when they fit into the memory
it has allocated.

It proves what `splitMsg` leaves in the memory it has allocated: the parts one behind the other,
each with a header of sixteen characters. It does so if and only if they fit.
-/

namespace SecureIM

open BinBuffer.Heap (overwrite)
open Netlib (hexDigit? hexValue isSpace)

def hexDigit (d : Nat) : UInt8 := if d < 10 then UInt8.ofNat (48 + d) else UInt8.ofNat (55 + d)

def hexDigits : Nat → Nat → List UInt8
  | 0, _ => []
  | k + 1, n => hexDigits k (n / 16) ++ [hexDigit (n % 16)]

def printHex (width n : Nat) : List UInt8 := hexDigits (max width (Nat.log2 (n % 2 ^ 32) / 4 + 1)) (n % 2 ^ 32)

def scanHex (width : Nat) (s : List UInt8) : Option (Int × List UInt8) :=
  let s := s.dropWhile isSpace
  let field := s.take width
  let sign := if field.head? = some 45 ∨ field.head? = some 43 then 1 else 0
  let pre := if (field.drop sign).take 2 = [48, 120] ∨ (field.drop sign).take 2 = [48, 88] then 2 else 0
  let digits := (field.drop (sign + pre)).takeWhile fun c => (hexDigit? c).isSome
  if digits = [] then
    none
  else
    some (if field.head? = some 45 then -(hexValue 0 digits : Int) else hexValue 0 digits,
      s.drop (sign + pre + digits.length))

def SIG_SECP : List UInt8 := [91, 36, 69, 67, 85, 82, 69, 93]
def LEN_SECP : Nat := 8

def write (mem : List UInt8) (off : Nat) (bytes : List UInt8) : Option (List UInt8) :=
  if off + bytes.length ≤ mem.length then some (overwrite mem off bytes) else none

-- What is too long is cut without an end; the last character gets one in any case.
def _vsnprintf (count : Nat) (text : List UInt8) : List UInt8 :=
  if text.length < count then text ++ [0] else text.take count

def mir_snprintf (mem : List UInt8) (buffer count : Nat) (text : List UInt8) : Option (List UInt8) := do
  let mem ← write mem buffer (_vsnprintf (count - 1) text)
  write mem (buffer + (count - 1)) [0]

def partHeader (msg_id part_num part_all : Nat) : List UInt8 :=
  SIG_SECP ++ (printHex 4 msg_id ++ (printHex 2 part_num ++ printHex 2 part_all))

def putPart (msg_id part_num part_all : Nat) (mem : List UInt8) (buf : Nat) (part : List UInt8)
    : Option (List UInt8) := do
  let mem ← mir_snprintf mem buf 32 (partHeader msg_id part_num part_all)
  let mem ← write mem (buf + LEN_SECP + 8) part
  write mem (buf + LEN_SECP + 8 + part.length) [0]

def splitLoop (msg_id part_all iLen : Nat) : Nat → Nat → List UInt8 → Nat → List UInt8 → Option (List UInt8 × Nat)
  | 0, _, mem, buf, _ => some (mem, buf)
  | n + 1, part_num, mem, buf, szMsg => do
    let sz := if szMsg.length > iLen then iLen else szMsg.length
    let mem ← putPart msg_id part_num part_all mem buf (szMsg.take sz)
    splitLoop msg_id part_all iLen n (part_num + 1) mem (buf + LEN_SECP + 8 + sz + 1) (szMsg.drop sz)

def nextId (msgid : Nat) : Nat := (msgid + 1) % 2 ^ 16

def partAll (szMsg : List UInt8) (iLen : Nat) : Nat := (szMsg.length + iLen - 1) % 2 ^ 64 / iLen

-- `msgid` is the setting, `garbage` what stands in memory that was just allocated; the setting gets the number of the
-- message.
def splitMsg (garbage : Nat → UInt8) (msgid : Nat) (szMsg : List UInt8) (iLen : Nat)
    : Option (List UInt8) × Nat :=
  let out := (List.range (szMsg.length * 2 % 2 ^ 64)).map garbage
  let msg_id := nextId msgid
  let part_all := partAll szMsg iLen
  (do
    let (mem, buf) ← splitLoop msg_id part_all iLen part_all 0 out 0 szMsg
    write mem buf [0], msg_id)

def sentParts : Nat → List UInt8 → List (List UInt8)
  | 0, _ => []
  | n + 1, buf =>
    if buf.headD 0 = 0 then
      []
    else
      buf.takeWhile (· ≠ 0) :: sentParts n (buf.drop ((buf.takeWhile (· ≠ 0)).length + 1))

structure partitionMessage where
  id : Int
  message : List (Option (List UInt8))
deriving DecidableEq

inductive Fault where
  | written
  | read
  | badLength
deriving DecidableEq

def parsePart (szMsg : List UInt8) : Option (Int × Int × Int) := do
  let (msg_id, s) ← scanHex 4 szMsg
  let (part_num, s) ← scanHex 2 s
  let (part_all, _) ← scanHex 2 s
  pure (msg_id, part_num, part_all)

def joinParts (message : List (Option (List UInt8))) : Nat → Nat → Except Fault (Option (List UInt8))
  | 0, _ => .ok (some [])
  | n + 1, i =>
    match message[i]? with
    | none => .error .read
    | some none => .ok none
    | some (some s) => (joinParts message n (i + 1)).map fun tmp => tmp.map (s ++ ·)

def findMessage (msgPart : List partitionMessage) (msg_id : Int) : Nat := msgPart.findIdx (·.id = msg_id)

def openMessage (msgPart : List partitionMessage) (msg_id part_all : Int) : Except Fault (List partitionMessage) :=
  if findMessage msgPart msg_id < msgPart.length then
    .ok msgPart
  else if part_all < 0 then
    .error .badLength
  else
    .ok (msgPart ++ [{ id := msg_id, message := List.replicate part_all.toNat none }])

-- Numbers that are not in the text are not initialized, and a part begins behind eight characters.
def combineMessage (msgPart : List partitionMessage) (szMsg : List UInt8)
    : Except Fault (Option (List UInt8) × List partitionMessage) :=
  match parsePart szMsg with
  | none => .error .written
  | some (msg_id, part_num, part_all) =>
    match openMessage msgPart msg_id part_all with
    | .error e => .error e
    | .ok msgPart =>
      let i := findMessage msgPart msg_id
      match msgPart[i]? with
      | none => .error .read
      | some pm =>
        if part_num < 0 ∨ part_num ≥ pm.message.length ∨ szMsg.length < 8 then
          .error .written
        else
          let pm := { pm with message := pm.message.set part_num.toNat (some (szMsg.drop 8)) }
          match if part_all < 0 then .ok none else joinParts pm.message part_all.toNat 0 with
          | .error e => .error e
          | .ok none => .ok (none, msgPart.set i pm)
          | .ok (some tmp) => .ok (some tmp, msgPart.eraseIdx i)

def combineAll : List partitionMessage → List (List UInt8) → Except Fault (List (Option (List UInt8)))
  | _, [] => .ok []
  | msgPart, szMsg :: texts =>
    match combineMessage msgPart szMsg with
    | .error e => .error e
    | .ok (result, msgPart) => (combineAll msgPart texts).map (result :: ·)

end SecureIM

namespace SecureIM

open BinBuffer.Heap (overwrite)
open Netlib (hexDigit? hexValue isSpace)

variable {k n w : Nat} {c : UInt8} {rest s text mem mem' bytes : List UInt8} {off : Nat}

theorem hexDigit_spec {d : Nat} (h : d < 16)
    : hexDigit? (hexDigit d) = some d ∧ isSpace (hexDigit d) = false ∧ hexDigit d ≠ 45 ∧ hexDigit d ≠ 43 ∧
      hexDigit d ≠ 120 ∧ hexDigit d ≠ 88 ∧ hexDigit d ≠ 0 := by
  interval_cases d <;> decide

theorem length_hexDigits (k n : Nat) : (hexDigits k n).length = k := by
  induction k generalizing n with
  | zero => rfl
  | succ k ih => rw [hexDigits, List.length_append, ih, List.length_singleton]

theorem mem_hexDigits (h : c ∈ hexDigits k n) : ∃ d < 16, c = hexDigit d := by
  induction k generalizing n with
  | zero => cases h
  | succ k ih =>
    rw [hexDigits, List.mem_append, List.mem_singleton] at h
    rcases h with h | rfl
    . exact ih h
    . exact ⟨n % 16, Nat.mod_lt _ (by decide), rfl⟩

theorem hexValue_append_digit (value : Nat) (h : ∀ c ∈ s, (hexDigit? c).isSome) {d : Nat} (hd : d < 16)
    : hexValue value (s ++ [hexDigit d]) = 16 * hexValue value s + d := by
  induction s generalizing value with
  | nil => simp only [List.nil_append, hexValue, (hexDigit_spec hd).1]
  | cons c s ih =>
    obtain ⟨digit, hdigit⟩ := Option.isSome_iff_exists.1 (h c List.mem_cons_self)
    simp only [List.cons_append, hexValue, hdigit]
    exact ih _ fun c hc => h c (List.mem_cons_of_mem _ hc)

theorem isSome_hexDigits : ∀ c ∈ hexDigits k n, (hexDigit? c).isSome := by
  intro c hc
  obtain ⟨d, hd, rfl⟩ := mem_hexDigits hc
  rw [(hexDigit_spec hd).1]
  rfl

theorem hexValue_hexDigits (k n : Nat) : hexValue 0 (hexDigits k n) = n % 16 ^ k := by
  induction k generalizing n with
  | zero => exact (Nat.mod_one n).symm
  | succ k ih =>
    rw [hexDigits, hexValue_append_digit 0 isSome_hexDigits (Nat.mod_lt _ (by decide)), ih, Nat.pow_succ']
    rw [Nat.mod_mul]
    omega

theorem hexDigits_add (k j n : Nat) : hexDigits (k + j) n = hexDigits k (n / 16 ^ j) ++ hexDigits j n := by
  induction j generalizing n with
  | zero =>
    rw [Nat.pow_zero, Nat.div_one]
    exact (List.append_nil _).symm
  | succ j ih =>
    rw [← Nat.add_assoc, hexDigits, ih, hexDigits, List.append_assoc, Nat.div_div_eq_div_mul, Nat.pow_succ']

theorem scanHex_hexDigits (hw : 0 < w) (n : Nat) (rest : List UInt8)
    : scanHex w (hexDigits w n ++ rest) = some (((n % 16 ^ w : Nat) : Int), rest) := by
  have hlength := length_hexDigits w n
  have hfield : (hexDigits w n ++ rest).take w = hexDigits w n := List.take_left' hlength
  have hnot : ∀ c ∈ hexDigits w n, isSpace c = false ∧ c ≠ 45 ∧ c ≠ 43 ∧ c ≠ 120 ∧ c ≠ 88 := by
    intro c hc
    obtain ⟨d, hd, rfl⟩ := mem_hexDigits hc
    obtain ⟨-, hspace, hminus, hplus, hx, hX, -⟩ := hexDigit_spec hd
    exact ⟨hspace, hminus, hplus, hx, hX⟩
  have hvalue := hexValue_hexDigits w n
  have hisSome := @isSome_hexDigits w n
  generalize hexDigits w n = digits at *
  cases digits with
  | nil =>
    rw [List.length_nil] at hlength
    omega
  | cons c digits =>
    obtain ⟨hspace, hminus, hplus, -, -⟩ := hnot c List.mem_cons_self
    have hdrop : (c :: digits ++ rest).dropWhile isSpace = c :: digits ++ rest := by
      rw [List.cons_append, List.dropWhile_cons, hspace, if_neg Bool.false_ne_true]
    have hpre : ¬((c :: digits).take 2 = [48, 120] ∨ (c :: digits).take 2 = [48, 88]) := by
      rintro (h | h)
      . have hmem : (120 : UInt8) ∈ (c :: digits).take 2 := by rw [h]; decide
        exact (hnot 120 (List.mem_of_mem_take hmem)).2.2.2.1 rfl
      . have hmem : (88 : UInt8) ∈ (c :: digits).take 2 := by rw [h]; decide
        exact (hnot 88 (List.mem_of_mem_take hmem)).2.2.2.2 rfl
    have hhead : ¬(some c = some (45 : UInt8) ∨ some c = some (43 : UInt8)) := by
      rintro (h | h)
      . exact hminus (Option.some_inj.1 h)
      . exact hplus (Option.some_inj.1 h)
    have hwhole : (c :: digits).takeWhile (fun c => (hexDigit? c).isSome) = c :: digits :=
      List.takeWhile_eq_self_iff.2 hisSome
    unfold scanHex
    simp only [hdrop, hfield, List.head?_cons, if_neg hhead, List.drop_zero, if_neg hpre, Nat.add_zero, hwhole]
    rw [if_neg (List.cons_ne_nil _ _), if_neg (fun h => hhead (.inl h)), hvalue, Nat.zero_add,
      List.drop_left]

theorem log2_div_lt {n j : Nat} (h : n < 16 ^ (j + 1)) : Nat.log2 n / 4 + 1 ≤ j + 1 := by
  by_cases hzero : n = 0
  . rw [hzero]
    exact Nat.succ_le_succ (Nat.zero_le _)
  . have hlt : Nat.log2 n < 4 * (j + 1) := by
      rw [Nat.log2_lt hzero, Nat.pow_mul]
      exact h
    omega

theorem printHex_of_lt {width : Nat} (hwidth : 0 < width) (h : n < 16 ^ width) (hint : n < 2 ^ 32)
    : printHex width n = hexDigits width n := by
  obtain ⟨j, rfl⟩ : ∃ j, width = j + 1 := ⟨width - 1, by omega⟩
  unfold printHex
  rw [Nat.mod_eq_of_lt hint, Nat.max_eq_left (log2_div_lt h)]

theorem printHex_two (n : Nat) : ∃ q tail, printHex 2 n = hexDigits 2 q ++ tail ∧ (n < 16 ^ 2 → q = n) := by
  by_cases hn : n < 16 ^ 2
  . exact ⟨n, [], by rw [printHex_of_lt (by decide) hn (by omega), List.append_nil], fun _ => rfl⟩
  . unfold printHex
    obtain ⟨j, hj⟩ : ∃ j, max 2 (Nat.log2 (n % 2 ^ 32) / 4 + 1) = 2 + j :=
      ⟨_, (Nat.add_sub_cancel' (Nat.le_max_left _ _)).symm⟩
    rw [hj, hexDigits_add]
    exact ⟨_, _, rfl, fun hlt => absurd hlt hn⟩

theorem parsePart_hexDigits (a b q : Nat) (rest : List UInt8)
    : parsePart (hexDigits 4 a ++ (hexDigits 2 b ++ (hexDigits 2 q ++ rest))) =
        some (((a % 16 ^ 4 : Nat) : Int), ((b % 16 ^ 2 : Nat) : Int), ((q % 16 ^ 2 : Nat) : Int)) := by
  unfold parsePart
  rw [scanHex_hexDigits (by decide)]
  dsimp only [Option.bind_eq_bind, Option.bind_some]
  rw [scanHex_hexDigits (by decide)]
  dsimp only [Option.bind_some]
  rw [scanHex_hexDigits (by decide)]
  rfl

theorem write_spec (h : write mem off bytes = some mem')
    : off + bytes.length ≤ mem.length ∧ mem'.length = mem.length ∧
      mem'.take (off + bytes.length) = mem.take off ++ bytes := by
  unfold write at h
  split at h
  . next hle =>
    cases h
    unfold overwrite
    refine ⟨hle, ?_, ?_⟩
    . simp only [List.length_append, List.length_take, List.length_drop]
      omega
    . rw [← List.append_assoc]
      apply List.take_left'
      rw [List.length_append, List.length_take, Nat.min_eq_left (by omega)]
  . cases h

theorem write_of_le (h : off + bytes.length ≤ mem.length) : ∃ mem', write mem off bytes = some mem' :=
  ⟨_, if_pos h⟩

theorem length_vsnprintf (text : List UInt8)
    : (_vsnprintf k text).length ≤ k ∧ min text.length k ≤ (_vsnprintf k text).length := by
  unfold _vsnprintf
  split
  . next hlt =>
    rw [List.length_append, List.length_singleton]
    omega
  . next hlt =>
    rw [List.length_take]
    omega

theorem take_vsnprintf (h : n ≤ text.length) (hn : n ≤ k) : (_vsnprintf k text).take n = text.take n := by
  unfold _vsnprintf
  split
  . exact List.take_append_of_le_length h
  . rw [List.take_take, Nat.min_eq_left hn]

theorem mir_snprintf_spec (h : mir_snprintf mem off 32 text = some mem') (hn : n ≤ text.length) (hlt : n ≤ 31)
    : off + 32 ≤ mem.length ∧ mem'.length = mem.length ∧ mem'.take (off + n) = mem.take off ++ text.take n := by
  unfold mir_snprintf at h
  obtain ⟨mem₁, h₁, h₂⟩ := Option.bind_eq_some_iff.1 h
  obtain ⟨hle₁, hlength₁, htake₁⟩ := write_spec h₁
  obtain ⟨hle₂, hlength₂, htake₂⟩ := write_spec h₂
  rw [List.length_singleton] at hle₂ htake₂
  obtain ⟨hmax, hmin⟩ := @length_vsnprintf (32 - 1) text
  refine ⟨by omega, hlength₂.trans hlength₁, ?_⟩
  calc mem'.take (off + n)
    _ = (mem'.take (off + (32 - 1) + 1)).take (off + n) := by rw [List.take_take, Nat.min_eq_left (by omega)]
    _ = mem₁.take (off + n) := by
      rw [htake₂, List.take_append_of_le_length (by rw [List.length_take]; omega), List.take_take,
        Nat.min_eq_left (by omega)]
    _ = (mem₁.take (off + (_vsnprintf (32 - 1) text).length)).take (off + n) := by
      rw [List.take_take, Nat.min_eq_left (by omega)]
    _ = mem.take off ++ text.take n := by
      have hoff : (mem.take off).length = off := by rw [List.length_take]; omega
      rw [htake₁, List.take_append, hoff, List.take_of_length_le (by omega), Nat.add_sub_cancel_left,
        take_vsnprintf hn hlt]

theorem mir_snprintf_of_le (h : off + 32 ≤ mem.length) (text : List UInt8)
    : ∃ mem', mir_snprintf mem off 32 text = some mem' := by
  obtain ⟨hmax, -⟩ := @length_vsnprintf (32 - 1) text
  obtain ⟨mem₁, h₁⟩ := write_of_le (show off + (_vsnprintf (32 - 1) text).length ≤ mem.length by omega)
  obtain ⟨-, hlength₁, -⟩ := write_spec h₁
  obtain ⟨mem₂, h₂⟩ := write_of_le (show off + (32 - 1) + [(0 : UInt8)].length ≤ mem₁.length by
    rw [hlength₁, List.length_singleton]
    omega)
  refine ⟨mem₂, ?_⟩
  unfold mir_snprintf
  rw [h₁]
  exact h₂

end SecureIM

namespace SecureIM

variable {msg_id part_num part_all iLen n j k buf buf' : Nat} {s part mem mem' : List UInt8}

def partText (msg_id part_num part_all : Nat) (part : List UInt8) : List UInt8 :=
  (partHeader msg_id part_num part_all).take 16 ++ part

theorem length_printHex (width n : Nat) : width ≤ (printHex width n).length := by
  unfold printHex
  rw [length_hexDigits]
  exact Nat.le_max_left _ _

theorem length_partHeader (msg_id part_num part_all : Nat) : 16 ≤ (partHeader msg_id part_num part_all).length := by
  have hid := length_printHex 4 msg_id
  have hnum := length_printHex 2 part_num
  have hall := length_printHex 2 part_all
  unfold partHeader SIG_SECP
  simp only [List.length_append, List.length_cons, List.length_nil]
  omega

theorem zero_not_mem_partHeader (msg_id part_num part_all : Nat) : 0 ∉ partHeader msg_id part_num part_all := by
  have hdigits : ∀ width n, 0 ∉ printHex width n := by
    intro width n hzero
    obtain ⟨d, hd, heq⟩ := mem_hexDigits hzero
    exact (hexDigit_spec hd).2.2.2.2.2.2 heq.symm
  unfold partHeader
  simp only [List.mem_append, hdigits, or_false]
  decide

theorem length_partText (msg_id part_num part_all : Nat) (part : List UInt8)
    : (partText msg_id part_num part_all part).length = 16 + part.length := by
  have hheader := length_partHeader msg_id part_num part_all
  unfold partText
  rw [List.length_append, List.length_take]
  omega

theorem drop_partText (hid : msg_id < 16 ^ 4) (hnum : part_num < 16 ^ 2) (part_all : Nat) (part : List UInt8)
    : ∃ q, (part_all < 16 ^ 2 → q = part_all) ∧
      (partText msg_id part_num part_all part).drop LEN_SECP =
        hexDigits 4 msg_id ++ (hexDigits 2 part_num ++ (hexDigits 2 q ++ part)) := by
  obtain ⟨q, tail, hall, hq⟩ := printHex_two part_all
  refine ⟨q, hq, ?_⟩
  have hheader : partHeader msg_id part_num part_all =
      SIG_SECP ++ (hexDigits 4 msg_id ++ (hexDigits 2 part_num ++ hexDigits 2 q)) ++ tail := by
    unfold partHeader
    rw [printHex_of_lt (by decide) hid (by omega), printHex_of_lt (by decide) hnum (by omega), hall]
    simp only [List.append_assoc]
  have hlength : (SIG_SECP ++ (hexDigits 4 msg_id ++ (hexDigits 2 part_num ++ hexDigits 2 q))).length = 16 := by
    simp only [List.length_append, length_hexDigits]
    rfl
  unfold partText
  rw [hheader, List.take_left' hlength, List.append_assoc, List.drop_left' (show SIG_SECP.length = LEN_SECP from rfl)]
  simp only [List.append_assoc]

theorem putPart_spec (h : putPart msg_id part_num part_all mem buf part = some mem')
    : buf + 32 ≤ mem.length ∧ buf + (17 + part.length) ≤ mem.length ∧ mem'.length = mem.length ∧
      mem'.take (buf + (17 + part.length)) = mem.take buf ++ (partText msg_id part_num part_all part ++ [0]) := by
  unfold putPart LEN_SECP at h
  obtain ⟨mem₁, h₁, h⟩ := Option.bind_eq_some_iff.1 h
  obtain ⟨mem₂, h₂, h₃⟩ := Option.bind_eq_some_iff.1 h
  obtain ⟨hle₁, hlength₁, htake₁⟩ := mir_snprintf_spec h₁ (length_partHeader msg_id part_num part_all) (by decide)
  obtain ⟨hle₂, hlength₂, htake₂⟩ := write_spec h₂
  obtain ⟨hle₃, hlength₃, htake₃⟩ := write_spec h₃
  rw [List.length_singleton] at hle₃ htake₃
  refine ⟨hle₁, by omega, by omega, ?_⟩
  calc mem'.take (buf + (17 + part.length))
    _ = mem'.take (buf + 8 + 8 + part.length + 1) := congrArg (mem'.take ·) (by omega)
    _ = mem.take buf ++ ((partHeader msg_id part_num part_all).take 16 ++ part ++ [0]) := by
      rw [htake₃, htake₂, show buf + 8 + 8 = buf + 16 from rfl, htake₁]
      simp only [List.append_assoc]

theorem putPart_of_le (h₁ : buf + 32 ≤ mem.length) (h₂ : buf + (17 + part.length) ≤ mem.length)
    : ∃ mem', putPart msg_id part_num part_all mem buf part = some mem' := by
  obtain ⟨mem₁, hw₁⟩ := mir_snprintf_of_le h₁ (partHeader msg_id part_num part_all)
  obtain ⟨-, hlength₁, -⟩ := mir_snprintf_spec hw₁ (length_partHeader msg_id part_num part_all) (by decide)
  obtain ⟨mem₂, hw₂⟩ := write_of_le (show buf + LEN_SECP + 8 + part.length ≤ mem₁.length by unfold LEN_SECP; omega)
  obtain ⟨-, hlength₂, -⟩ := write_spec hw₂
  obtain ⟨mem₃, hw₃⟩ := write_of_le (show buf + LEN_SECP + 8 + part.length + [(0 : UInt8)].length ≤ mem₂.length by
    unfold LEN_SECP
    rw [List.length_singleton]
    omega)
  refine ⟨mem₃, ?_⟩
  unfold putPart
  exact Option.bind_eq_some_iff.2 ⟨mem₁, hw₁, Option.bind_eq_some_iff.2 ⟨mem₂, hw₂, hw₃⟩⟩

def partTexts (msg_id part_all iLen : Nat) : Nat → Nat → List UInt8 → List (List UInt8)
  | 0, _, _ => []
  | n + 1, part_num, s =>
    partText msg_id part_num part_all (s.take iLen) :: partTexts msg_id part_all iLen n (part_num + 1) (s.drop iLen)

def terminated (texts : List (List UInt8)) : List UInt8 := texts.flatMap (· ++ [0])

def partOffset (iLen length n : Nat) : Nat := 17 * n + min (n * iLen) length

theorem partOffset_succ (iLen length n : Nat)
    : partOffset iLen length (n + 1) = 17 + min iLen length + partOffset iLen (length - iLen) n := by
  unfold partOffset
  rw [Nat.succ_mul n iLen]
  omega

theorem length_partTexts (msg_id part_all iLen n part_num : Nat) (s : List UInt8)
    : (partTexts msg_id part_all iLen n part_num s).length = n := by
  induction n generalizing part_num s with
  | zero => rfl
  | succ n ih => exact congrArg Nat.succ (ih _ _)

theorem getElem?_partTexts (h : j < n)
    : (partTexts msg_id part_all iLen n part_num s)[j]? =
        some (partText msg_id (part_num + j) part_all ((s.drop (j * iLen)).take iLen)) := by
  induction n generalizing j part_num s with
  | zero => omega
  | succ n ih =>
    cases j with
    | zero =>
      rw [Nat.zero_mul]
      rfl
    | succ j =>
      rw [partTexts, List.getElem?_cons_succ, ih (by omega), List.drop_drop, Nat.succ_mul j iLen,
        Nat.add_comm iLen, Nat.add_assoc part_num, Nat.add_comm 1 j]

theorem zero_not_mem_partTexts (h : 0 ∉ s) {text : List UInt8}
    (htext : text ∈ partTexts msg_id part_all iLen n part_num s) : text ≠ [] ∧ 0 ∉ text := by
  induction n generalizing part_num s with
  | zero => cases htext
  | succ n ih =>
    rw [partTexts, List.mem_cons] at htext
    rcases htext with rfl | htext
    . constructor
      . intro hnil
        have hlength := congrArg List.length hnil
        rw [length_partText, List.length_nil] at hlength
        omega
      . intro hzero
        rcases List.mem_append.1 hzero with hzero | hzero
        . exact zero_not_mem_partHeader _ _ _ (List.mem_of_mem_take hzero)
        . exact h (List.mem_of_mem_take hzero)
    . exact ih (fun hzero => h (List.mem_of_mem_drop hzero)) htext

theorem splitLoop_succ (msg_id part_all iLen n part_num buf : Nat) (mem s : List UInt8)
    : splitLoop msg_id part_all iLen (n + 1) part_num mem buf s =
        (putPart msg_id part_num part_all mem buf (s.take iLen)).bind fun mem =>
          splitLoop msg_id part_all iLen n (part_num + 1) mem (buf + (17 + min iLen s.length)) (s.drop iLen) := by
  have hsize : (if s.length > iLen then iLen else s.length) = min iLen s.length := by
    split <;> omega
  have htake : s.take (min iLen s.length) = s.take iLen := by
    rw [Nat.min_comm]
    exact List.take_eq_take_iff.2 (by omega)
  have hdrop : s.drop (min iLen s.length) = s.drop iLen := by
    rcases Nat.le_total iLen s.length with hle | hle
    . rw [Nat.min_eq_left hle]
    . rw [Nat.min_eq_right hle, List.drop_length, List.drop_of_length_le hle]
  rw [splitLoop]
  simp only [hsize, htake, hdrop, LEN_SECP, Option.bind_eq_bind]
  congr 1
  funext mem
  congr 1
  omega

theorem splitLoop_spec (hbuf : buf ≤ mem.length)
    (h : splitLoop msg_id part_all iLen n part_num mem buf s = some (mem', buf'))
    : mem'.length = mem.length ∧ buf' = buf + partOffset iLen s.length n ∧ buf' ≤ mem.length ∧
      mem'.take buf' = mem.take buf ++ terminated (partTexts msg_id part_all iLen n part_num s) ∧
      ∀ j < n, buf + partOffset iLen s.length j + 32 ≤ mem.length := by
  induction n generalizing part_num mem buf s with
  | zero =>
    cases h
    refine ⟨rfl, ?_, hbuf, (List.append_nil _).symm, fun j hj => absurd hj (Nat.not_lt_zero j)⟩
    unfold partOffset
    rw [Nat.zero_mul, Nat.zero_min]
    rfl
  | succ n ih =>
    rw [splitLoop_succ] at h
    obtain ⟨mem₁, hput, hloop⟩ := Option.bind_eq_some_iff.1 h
    obtain ⟨hroom, hle, hlength, htake⟩ := putPart_spec hput
    rw [List.length_take] at hle htake
    obtain ⟨hlength', hbuf', hle', htake', hall⟩ := ih (by omega) hloop
    rw [List.length_drop] at hbuf' hall
    refine ⟨by omega, ?_, by omega, ?_, ?_⟩
    . rw [partOffset_succ, hbuf']
      omega
    . rw [htake', htake, partTexts]
      unfold terminated
      rw [List.flatMap_cons]
      simp only [List.append_assoc]
    . intro j hj
      cases j with
      | zero =>
        unfold partOffset
        rw [Nat.zero_mul, Nat.zero_min]
        omega
      | succ j =>
        have hnext := hall j (by omega)
        rw [partOffset_succ]
        omega

theorem splitLoop_of_le (hall : ∀ j < n, buf + partOffset iLen s.length j + 32 ≤ mem.length)
    (hend : buf + partOffset iLen s.length n ≤ mem.length)
    : (splitLoop msg_id part_all iLen n part_num mem buf s).isSome := by
  induction n generalizing part_num mem buf s with
  | zero => rfl
  | succ n ih =>
    have hfirst := hall 0 (by omega)
    rw [partOffset_succ] at hend
    obtain ⟨mem₁, hput⟩ : ∃ mem₁, putPart msg_id part_num part_all mem buf (s.take iLen) = some mem₁ := by
      apply putPart_of_le
      . omega
      . rw [List.length_take]
        omega
    obtain ⟨-, -, hlength, -⟩ := putPart_spec hput
    rw [splitLoop_succ, hput]
    apply ih
    . intro j hj
      have hnext := hall (j + 1) (by omega)
      rw [partOffset_succ] at hnext
      rw [List.length_drop]
      omega
    . rw [List.length_drop]
      omega

end SecureIM
