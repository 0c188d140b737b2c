import MirandaNG.Data.Base64
import MirandaNG.Data.Bytes

/-!
This module contains the loops of the base64 functions together with the memory they touch, and proves
for which strings the decoder stays inside it, and for which buffers it gives back what `mir_base64_encodebuf`, whose counter is
an `unsigned`, made of them.
-/

namespace Base64

variable {memory : UInt8 → UInt8} {input rest values : List UInt8} {n pos start N : Nat} {c : UInt8}

inductive Access where
  | input (pos : Nat)
  | table (index : Int)
  | output (pos : Nat)

def tableIndex (c : UInt8) : Int := if c < 0x80 then c.toNat else (c.toNat : Int) - 256

-- One of the four values: line ends are skipped, and the terminator is not gone past. The input is given
-- from `pos` on, and so is the input behind the value.
def readValue (memory : UInt8 → UInt8) : Nat → List UInt8 → UInt8 × List Access × Nat × List UInt8
  | pos, [] => (0xFF, [.input pos], pos, [])
  | pos, c :: input =>
    if isNewline c then
      let (e, accesses, pos', input) := readValue memory (pos + 1) input
      (e, .input pos :: accesses, pos', input)
    else
      (Base64DecodeTable memory c, [.input pos, .table (tableIndex c)], pos + 1, input)

def readGroup (memory : UInt8 → UInt8) : Nat → Nat → List UInt8 → List UInt8 × List Access × Nat × List UInt8
  | 0, pos, input => ([], [], pos, input)
  | n + 1, pos, input =>
    let (e, accesses, pos, input) := readValue memory pos input
    let (values, accesses', pos, input) := readGroup memory n pos input
    (e :: values, accesses ++ accesses', pos, input)

def writes (start count : Nat) : List Access := (List.range count).map fun i => .output (start + i)

structure Decoding where
  output : List UInt8
  accesses : List Access

def decodeLoop (memory : UInt8 → UInt8) : Nat → Nat → Nat → List UInt8 → Option Decoding
  | 0, _, _, _ => none
  | n + 1, pos, start, input =>
    if input = [] then
      some ⟨[], [.output start]⟩
    else
      let (values, accesses, pos, input) := readGroup memory 4 pos input
      if (values.take 2).contains 0xFF then
        some ⟨[], accesses ++ [.output start]⟩
      else
        let bytes := decodeValues values
        (decodeLoop memory n pos (start + bytes.length) input).map fun run =>
          ⟨bytes ++ run.output, accesses ++ writes start bytes.length ++ run.accesses⟩

def allocated (length : Nat) : Nat := (length + 3) / 4 * 3 + 1

def decodeRun (memory : UInt8 → UInt8) (input : CStr) : Option Decoding :=
  decodeLoop memory (input.strlen + 1) 0 0 input.bytes

def Decoding.outputLen (run : Decoding) : Nat := run.output.length

def Access.Inside (length : Nat) : Access → Prop
  | .input pos => pos ≤ length
  | .table index => 0 ≤ index ∧ index ≤ 255
  | .output pos => pos < allocated length

structure Decoding.Safe (run : Decoding) (length : Nat) : Prop where
  inside : ∀ a ∈ run.accesses, a.Inside length
  reported : ∀ i < run.outputLen, .output i ∈ run.accesses

def isBase64 (c : UInt8) : Bool :=
  c = 43 || c = 47 || (48 ≤ c && c ≤ 57) || (65 ≤ c && c ≤ 90) || (97 ≤ c && c ≤ 122)

def text (input : List UInt8) : List UInt8 := input.filter fun c => !isNewline c

def LooksUpAscii : List UInt8 → Prop
  | a :: b :: c :: d :: rest =>
    (∀ e ∈ [a, b, c, d], e < 0x80) ∧ (isBase64 a → isBase64 b → LooksUpAscii rest)
  | rest => ∀ c ∈ rest, c < 0x80

theorem Base64DecodeTable_of_lt (hc : c < 0x80) : Base64DecodeTable memory c = Base64DecodeTable (fun _ => 0) c := by
  unfold Base64DecodeTable
  rw [if_neg (UInt8.not_le.2 hc), if_neg (UInt8.not_le.2 hc)]

theorem Base64DecodeTable_eq_iff (hc : c < 0x80) : Base64DecodeTable memory c = 0xFF ↔ isBase64 c = false := by
  rw [Base64DecodeTable_of_lt hc]
  revert hc
  revert c
  apply forall_halves
  decide

theorem inside_table_iff : (Access.table (tableIndex c)).Inside N ↔ c < 0x80 := by
  have hlt := UInt8.toNat_lt c
  change 0 ≤ tableIndex c ∧ tableIndex c ≤ 255 ↔ c < 0x80
  have hascii : c < 0x80 ↔ c.toNat < 128 := UInt8.lt_iff_toNat_lt
  unfold tableIndex
  split
  . next hc => exact iff_of_true (by omega) hc
  . next hc =>
    rw [hascii] at hc
    exact iff_of_false (by omega) (mt hascii.1 hc)

theorem text_nil : text [] = [] := rfl

theorem text_cons : text (c :: input) = if isNewline c then text input else c :: text input := by
  unfold text
  rw [List.filter_cons]
  cases isNewline c <;> rfl

theorem readValue_spec (hpos : pos + input.length = N)
    : ∃ accesses pos' rest, readValue memory pos input =
          (((text input).head?.map (Base64DecodeTable memory)).getD 0xFF, accesses, pos', rest) ∧
        text rest = (text input).tail ∧ pos' + rest.length = N ∧
        (text input ≠ [] → rest.length < input.length) ∧ (text input = [] → rest = []) ∧
        ((∀ a ∈ accesses, a.Inside N) ↔ ∀ c ∈ (text input).head?, c < 0x80) := by
  induction input generalizing pos with
  | nil =>
    refine ⟨_, _, _, rfl, rfl, hpos, fun h => absurd rfl h, fun _ => rfl, ?_⟩
    refine iff_of_true ?_ nofun
    intro a ha
    rw [List.mem_singleton] at ha
    rw [ha]
    exact Nat.le_of_eq hpos
  | cons c input ih =>
    rw [List.length_cons] at hpos
    rw [text_cons, readValue]
    cases hnewline : isNewline c with
    | true =>
      obtain ⟨accesses, pos', rest, hread, htext, hpos', hlt, hnil, hinside⟩ := @ih (pos + 1) (by omega)
      refine ⟨.input pos :: accesses, pos', rest, ?_, htext, hpos', ?_, hnil, ?_⟩
      . rw [if_pos rfl, hread]
        rfl
      . intro hne
        exact Nat.lt_succ_of_lt (hlt hne)
      . rw [List.forall_mem_cons, hinside]
        exact and_iff_right (Nat.le_of_add_right_le (show pos + (input.length + 1) ≤ N by omega))
    | false =>
      refine ⟨_, _, input, if_neg Bool.false_ne_true, rfl, by omega, ?_, ?_, ?_⟩
      . intro _
        exact Nat.lt_succ_self _
      . intro hnil
        cases hnil
      . rw [List.forall_mem_cons, List.forall_mem_singleton, inside_table_iff, if_neg Bool.false_ne_true,
          List.head?_cons]
        refine (and_iff_right ?_).trans ?_
        . exact Nat.le_of_add_right_le (show pos + (input.length + 1) ≤ N by omega)
        . simp

theorem readGroup_spec (n : Nat) (hpos : pos + input.length = N)
    : ∃ accesses pos' rest, readGroup memory n pos input =
          (((text input).take n).map (Base64DecodeTable memory) ++ List.replicate (n - (text input).length) 0xFF,
            accesses, pos', rest) ∧
        text rest = (text input).drop n ∧ pos' + rest.length = N ∧
        (n ≤ (text input).length → rest.length + n ≤ input.length) ∧ ((text input).length < n → rest = []) ∧
        ((∀ a ∈ accesses, a.Inside N) ↔ ∀ c ∈ (text input).take n, c < 0x80) := by
  induction n generalizing pos input with
  | zero =>
    refine ⟨[], pos, input, by simp [readGroup], rfl, hpos, fun _ => Nat.le_refl _, nofun, ?_⟩
    exact iff_of_true nofun nofun
  | succ n ih =>
    obtain ⟨accesses, pos₁, rest₁, hvalue, htext₁, hpos₁, hlt, hnil, hinside⟩ := @readValue_spec memory _ _ _ hpos
    obtain ⟨accesses', pos₂, rest₂, hgroup, htext₂, hpos₂, hle, hnil', hinside'⟩ := ih hpos₁
    refine ⟨accesses ++ accesses', pos₂, rest₂, ?_, ?_, hpos₂, ?_, ?_, ?_⟩
    . rw [readGroup, hvalue]
      dsimp only
      rw [hgroup, htext₁]
      cases text input with
      | nil => simp [List.replicate_succ]
      | cons c cs => simp
    . rw [htext₂, htext₁, List.drop_tail]
    . intro hn
      have hne : text input ≠ [] := by
        intro heq
        rw [heq] at hn
        cases hn
      rw [htext₁, List.length_tail] at hle
      have := hlt hne
      have := hle (by omega)
      omega
    . intro hn
      rw [htext₁, List.length_tail] at hnil'
      by_cases hne : text input = []
      . rw [hnil hne, text_nil] at hle
        rw [hne] at hnil'
        by_cases hzero : n = 0
        . apply List.length_eq_zero_iff.1
          exact Nat.le_zero.1 (Nat.le_of_add_right_le (hle (Nat.le_of_eq hzero)))
        . exact hnil' (Nat.pos_of_ne_zero hzero)
      . have := List.length_pos_iff.2 hne
        exact hnil' (by omega)
    . rw [List.forall_mem_append, hinside, hinside', htext₁]
      cases text input with
      | nil => simp
      | cons c cs => simp

theorem length_decodeValues_le (values : List UInt8) : (decodeValues values).length ≤ 3 := by
  unfold decodeValues
  split
  . split <;> split <;> simp
  . exact Nat.zero_le _

theorem inside_writes {count : Nat} (hcount : start + count < allocated N) : ∀ a ∈ writes start count, a.Inside N := by
  intro a ha
  obtain ⟨i, hi, rfl⟩ := List.mem_map.1 ha
  rw [List.mem_range] at hi
  exact (Nat.add_lt_add_left hi start).trans hcount

theorem mem_writes {count i : Nat} (hi : i < count) : Access.output (start + i) ∈ writes start count :=
  List.mem_map.2 ⟨i, List.mem_range.2 hi, rfl⟩

theorem readValue_eq (memory : UInt8 → UInt8) (pos : Nat) (input : List UInt8)
    : (readValue memory pos input).1 = ((input.dropWhile isNewline).head?.map (Base64DecodeTable memory)).getD 0xFF ∧
        (readValue memory pos input).2.2.2 = (input.dropWhile isNewline).tail := by
  induction input generalizing pos with
  | nil => exact ⟨rfl, rfl⟩
  | cons c input ih =>
    rw [readValue, List.dropWhile_cons]
    cases isNewline c with
    | true =>
      rw [if_pos rfl, if_pos rfl]
      exact ih (pos + 1)
    | false => exact ⟨rfl, rfl⟩

theorem readGroup_eq (memory : UInt8 → UInt8) (n pos : Nat) (input : List UInt8)
    : ((readGroup memory n pos input).1, (readGroup memory n pos input).2.2.2) = readValues memory n input := by
  induction n generalizing pos input with
  | zero => rfl
  | succ n ih =>
    obtain ⟨hvalue, hrest⟩ := readValue_eq memory pos input
    rw [readGroup, readValues]
    generalize readValue memory pos input = result at hvalue hrest
    obtain ⟨e, accesses, pos', rest⟩ := result
    dsimp only at hvalue hrest ⊢
    have hgroup := ih pos' rest
    generalize readGroup memory n pos' rest = result at hgroup
    obtain ⟨values, accesses', pos'', rest'⟩ := result
    dsimp only at hgroup ⊢
    rw [hvalue]
    rw [hrest] at hgroup
    cases hdrop : input.dropWhile isNewline with
    | nil =>
      rw [hdrop, List.tail_nil] at hgroup
      have hnil : (readValues memory n []).2 = [] := by cases n <;> rfl
      rw [← hgroup] at hnil
      dsimp only at hnil ⊢
      rw [← hgroup, hnil]
      rfl
    | cons c input =>
      rw [hdrop, List.tail_cons] at hgroup
      dsimp only
      rw [← hgroup]
      rfl

theorem looksUpAscii_iff (memory : UInt8 → UInt8) (input : List UInt8)
    : LooksUpAscii input ↔
        (∀ c ∈ input.take 4, c < 0x80) ∧
        ((((input.take 4).map (Base64DecodeTable memory) ++ List.replicate (4 - input.length) 0xFF).take 2).contains 0xFF =
            false →
          LooksUpAscii (input.drop 4)) := by
  match input with
  | [] | [_] | [_, _] | [_, _, _] => exact (and_iff_left fun _ => nofun).symm
  | a :: b :: c :: d :: rest =>
    have hcontains : (((((a :: b :: c :: d :: rest).take 4).map (Base64DecodeTable memory) ++
        List.replicate (4 - (a :: b :: c :: d :: rest).length) 0xFF).take 2).contains 0xFF = false) ↔
        Base64DecodeTable memory a ≠ 0xFF ∧ Base64DecodeTable memory b ≠ 0xFF := by
      rw [← Bool.not_eq_true, List.contains_iff_mem]
      change 0xFF ∉ [Base64DecodeTable memory a, Base64DecodeTable memory b] ↔ _
      rw [List.mem_cons, List.mem_singleton, not_or, eq_comm, @eq_comm _ 0xFF]
    rw [hcontains, LooksUpAscii]
    apply and_congr_right
    intro hascii
    have ha := hascii a List.mem_cons_self
    have hb := hascii b (List.mem_cons_of_mem a List.mem_cons_self)
    rw [ne_eq, ne_eq, Base64DecodeTable_eq_iff ha, Base64DecodeTable_eq_iff hb, Bool.not_eq_false, Bool.not_eq_false,
      and_imp]
    rfl

theorem decodeLoop_spec (hn : input.length < n) (hpos : pos + input.length = N)
    (hstart : start + (input.length + 3) / 4 * 3 < allocated N)
    : ∃ run, decodeLoop memory n pos start input = some run ∧
        run.output = decodeBytes memory n input ∧
        (∀ i < run.output.length, .output (start + i) ∈ run.accesses) ∧
        ((∀ a ∈ run.accesses, a.Inside N) ↔ LooksUpAscii (text input)) := by
  induction n generalizing pos start input with
  | zero => exact absurd hn (Nat.not_lt_zero _)
  | succ n ih =>
    have hend : (Access.output start).Inside N := Nat.lt_of_le_of_lt (Nat.le_add_right _ _) hstart
    cases input with
    | nil =>
      refine ⟨_, rfl, rfl, fun i hi => absurd hi (Nat.not_lt_zero i), ?_⟩
      rw [List.forall_mem_singleton]
      exact iff_of_true hend nofun
    | cons c cs =>
      generalize hinput : c :: cs = input at *
      have hne : input ≠ [] := by
        rw [← hinput]
        exact List.cons_ne_nil c cs
      have hlength := List.length_pos_iff.2 hne
      obtain ⟨accesses, pos', rest, hgroup, htext, hpos', hle, hnil, hinside⟩ := @readGroup_spec memory _ _ _ 4 hpos
      have hvalues := readGroup_eq memory 4 pos input
      have hbytes : decodeBytes memory (n + 1) input =
          if ((readValues memory 4 input).1.take 2).contains 0xFF then []
          else decodeValues (readValues memory 4 input).1 ++ decodeBytes memory n (readValues memory 4 input).2 := by
        rw [← hinput]
        rfl
      rw [hgroup] at hvalues
      rw [decodeLoop, if_neg hne, hgroup, hbytes, ← hvalues, looksUpAscii_iff memory, ← hinside]
      dsimp only
      generalize hgroup' : (((text input).take 4).map (Base64DecodeTable memory) ++
        List.replicate (4 - (text input).length) 0xFF) = values
      cases hstop : (values.take 2).contains 0xFF with
      | true =>
        rw [if_pos rfl, if_pos rfl]
        refine ⟨_, rfl, rfl, fun i hi => absurd hi (Nat.not_lt_zero i), ?_⟩
        rw [List.forall_mem_append, List.forall_mem_singleton]
        exact and_congr_right fun _ => iff_of_true hend nofun
      | false =>
        have hcount := length_decodeValues_le values
        have hrest : rest.length < n ∧
            (decodeValues values).length + (rest.length + 3) / 4 * 3 ≤ (input.length + 3) / 4 * 3 := by
          by_cases hfour : 4 ≤ (text input).length
          . have := hle hfour
            omega
          . rw [hnil (by omega)]
            rw [List.length_nil]
            omega
        obtain ⟨run, hrun, houtput, hwritten, hsafe⟩ :=
          @ih rest pos' (start + (decodeValues values).length) hrest.1 hpos' (by omega)
        rw [if_neg Bool.false_ne_true, if_neg Bool.false_ne_true, hrun]
        refine ⟨_, rfl, ?_, ?_, ?_⟩
        . dsimp only
          rw [houtput]
        . intro i hi
          dsimp only at hi ⊢
          rw [List.length_append] at hi
          rw [List.append_assoc, List.mem_append, List.mem_append]
          right
          by_cases hi' : i < (decodeValues values).length
          . exact .inl (mem_writes hi')
          . right
            have hwrite := hwritten (i - (decodeValues values).length) (by omega)
            rwa [Nat.add_assoc, Nat.add_sub_cancel' (Nat.le_of_not_lt hi')] at hwrite
        . dsimp only
          rw [List.forall_mem_append, List.forall_mem_append, hsafe, htext, and_assoc]
          apply and_congr_right
          intro _
          rw [and_iff_right (inside_writes (by omega))]
          exact ⟨fun h _ => h, fun h => h rfl⟩

theorem decodeRun_spec (memory : UInt8 → UInt8) (input : CStr)
    : ∃ run, decodeRun memory input = some run ∧ run.output = mir_base64_decode memory input ∧
        (run.Safe input.strlen ↔ LooksUpAscii (text input.bytes)) := by
  obtain ⟨run, hrun, houtput, hwritten, hsafe⟩ := @decodeLoop_spec memory input.bytes (input.strlen + 1) 0 0 input.strlen
    (Nat.lt_succ_self _) (Nat.zero_add _) (by unfold allocated CStr.strlen; omega)
  refine ⟨run, hrun, houtput, ?_⟩
  rw [← hsafe]
  constructor
  . exact fun h => h.inside
  . intro h
    refine ⟨h, ?_⟩
    intro i hi
    have hwrite := hwritten i hi
    rwa [Nat.zero_add] at hwrite

theorem decode_safe_iff (memory : UInt8 → UInt8) (input : CStr)
    : (∃ run, decodeRun memory input = some run ∧ run.Safe input.strlen) ↔ LooksUpAscii (text input.bytes) := by
  obtain ⟨run, hrun, -, hsafe⟩ := decodeRun_spec memory input
  rw [← hsafe]
  constructor
  . rintro ⟨run', hrun', hsafe'⟩
    rw [hrun] at hrun'
    cases hrun'
    exact hsafe'
  . exact fun h => ⟨run, hrun, h⟩

-- One character that is not ASCII
theorem not_decode_safe
    : ¬∀ (memory : UInt8 → UInt8) (input : CStr), ∃ run, decodeRun memory input = some run ∧ run.Safe input.strlen := by
  intro h
  obtain ⟨run, hrun, hsafe⟩ := h (fun _ => 0) ⟨[0xE9], by decide⟩
  cases hrun
  exact absurd (hsafe.inside (.table (-23)) (by simp [tableIndex])) (by unfold Access.Inside; omega)

end Base64

/-! ## The round trip -/

namespace Base64

variable {memory : UInt8 → UInt8} {input output chars : List UInt8} {n i outputLen : Nat} {a b c : UInt8}

def mir_base64_encode_bufsize (inputLen : Nat) : Nat := 4 * ((inputLen + 2) / 3) + 1

def next (i : Nat) : Nat := (i + 1) % 2 ^ 32

def encodeGroup (input : List UInt8) (i : Nat) : List UInt8 × Nat :=
  let chr0 := input.getD i 0
  let i := next i
  let (chr1, rest, i) := if i < input.length then (input.getD i 0, 0, next i) else (0, 1, i)
  let (chr2, rest, i) :=
    if i < input.length then (input.getD i 0, rest, next i) else (UInt8.ofNat rest, rest + 1, i)
  let b2 := (chr1 &&& 0x0F) <<< 2 ||| chr2 >>> 6
  let b3 := chr2 &&& 0x3F
  let ending :=
    if rest = 2 then [padding, padding] else if rest = 1 then [cb64 b2, padding] else [cb64 b2, cb64 b3]
  (cb64 (chr0 >>> 2) :: cb64 ((chr0 &&& 0x03) <<< 4 ||| chr1 >>> 4) :: ending, i)

-- There is no result when the buffer of `outputLen` bytes is written past; every round writes to it.
def encodeLoop (input : List UInt8) (outputLen : Nat) : Nat → Nat → List UInt8 → Option (List UInt8)
  | 0, _, _ => none
  | n + 1, i, output =>
    if i < input.length then
      let (chars, i) := encodeGroup input i
      if output.length + chars.length ≤ outputLen then
        encodeLoop input outputLen n i (output ++ chars)
      else
        none
    else if output.length < outputLen then
      some output
    else
      none

def mir_base64_encodebuf (input : List UInt8) (outputLen : Nat) : Option CStr :=
  if outputLen < mir_base64_encode_bufsize input.length then
    none
  else
    (encodeLoop input outputLen (outputLen + 1) 0 []).map CStr.ofMem

theorem length_encodeGroup (input : List UInt8) (i : Nat) : (encodeGroup input i).1.length = 4 := by
  unfold encodeGroup
  dsimp only
  split_ifs <;> rfl

theorem encodeGroup_lt (input : List UInt8) (i : Nat) : (encodeGroup input i).2 < 2 ^ 32 := by
  have hnext : ∀ i, next i < 2 ^ 32 := fun i => Nat.mod_lt _ (Nat.two_pow_pos 32)
  unfold encodeGroup
  dsimp only
  split_ifs <;> exact hnext _

theorem encodeLoop_of_le (hle : 2 ^ 32 ≤ input.length) (hi : i < 2 ^ 32)
    : encodeLoop input outputLen n i output = none := by
  induction n generalizing i output with
  | zero => rfl
  | succ n ih =>
    rw [encodeLoop, if_pos (Nat.lt_of_lt_of_le hi hle)]
    dsimp only
    split
    . exact ih (encodeGroup_lt input i)
    . rfl

theorem getD_of_drop {l rest : List UInt8} {x : UInt8} (h : l.drop i = x :: rest) : l.getD i 0 = x := by
  have hget := congrArg (·[0]?) h
  rw [List.getElem?_drop, Nat.add_zero] at hget
  rw [List.getD_eq_getElem?_getD, hget]
  rfl

theorem encodeGroup_spec (hlt : input.length < 2 ^ 32) (hi : i < input.length)
    : encodeBytes (input.drop i) = (encodeGroup input i).1 ++ encodeBytes (input.drop (encodeGroup input i).2) ∧
        ((input.drop i).length + 2) / 3 = ((input.drop (encodeGroup input i).2).length + 2) / 3 + 1 := by
  have hlength := @List.length_drop _ i input
  have hnext : ∀ {k}, k < input.length → next k = k + 1 := fun h => Nat.mod_eq_of_lt (by omega)
  have hget : ∀ {k x rest}, input.drop i = x ++ rest → x.length = k → input.drop (i + k) = rest := by
    intro k x rest hdrop hk
    rw [← List.drop_drop, hdrop, ← hk, List.drop_left]
  match hdrop : input.drop i with
  | [] =>
    rw [hdrop, List.length_nil] at hlength
    omega
  | [a] =>
    rw [hdrop, List.length_singleton] at hlength
    have hgroup : encodeGroup input i = ([cb64 (a >>> 2), cb64 ((a &&& 0x03) <<< 4), padding, padding], i + 1) := by
      unfold encodeGroup
      rw [hnext hi, getD_of_drop hdrop]
      simp only [if_neg (show ¬i + 1 < input.length by omega)]
      simp
    rw [hgroup, @hget 1 [a] [] hdrop rfl]
    exact ⟨rfl, by simp⟩
  | [a, b] =>
    rw [hdrop, List.length_cons, List.length_singleton] at hlength
    have hsecond : i + 1 < input.length := by omega
    have hgroup : encodeGroup input i =
        ([cb64 (a >>> 2), cb64 ((a &&& 0x03) <<< 4 ||| b >>> 4), cb64 ((b &&& 0x0F) <<< 2), padding], i + 2) := by
      unfold encodeGroup
      simp only [hnext hi, getD_of_drop hdrop, getD_of_drop (@hget 1 [a] [b] hdrop rfl), if_pos hsecond,
        hnext hsecond, if_neg (show ¬i + 1 + 1 < input.length by omega)]
      simp
    rw [hgroup, @hget 2 [a, b] [] hdrop rfl]
    exact ⟨rfl, by simp⟩
  | a :: b :: c :: rest =>
    rw [hdrop, List.length_cons, List.length_cons, List.length_cons] at hlength
    have hsecond : i + 1 < input.length := by omega
    have hthird : i + 1 + 1 < input.length := by omega
    have hgroup : encodeGroup input i =
        ([cb64 (a >>> 2), cb64 ((a &&& 0x03) <<< 4 ||| b >>> 4), cb64 ((b &&& 0x0F) <<< 2 ||| c >>> 6),
          cb64 (c &&& 0x3F)], i + 3) := by
      unfold encodeGroup
      simp only [hnext hi, getD_of_drop hdrop, getD_of_drop (@hget 1 [a] (b :: c :: rest) hdrop rfl), if_pos hsecond,
        hnext hsecond, if_pos hthird, hnext hthird, getD_of_drop (@hget 2 [a, b] (c :: rest) hdrop rfl)]
      simp
    rw [hgroup, @hget 3 [a, b, c] rest hdrop rfl]
    refine ⟨rfl, ?_⟩
    rw [List.length_cons, List.length_cons, List.length_cons]
    omega

theorem encodeLoop_spec (hlt : input.length < 2 ^ 32) (hn : ((input.drop i).length + 2) / 3 < n)
    (hfits : output.length + 4 * (((input.drop i).length + 2) / 3) < outputLen)
    : encodeLoop input outputLen n i output = some (output ++ encodeBytes (input.drop i)) := by
  induction n generalizing i output with
  | zero => exact absurd hn (Nat.not_lt_zero _)
  | succ n ih =>
    rw [encodeLoop]
    split
    . next hi =>
      obtain ⟨hbytes, hcount⟩ := encodeGroup_spec hlt hi
      have hlength := length_encodeGroup input i
      rw [hcount] at hn hfits
      dsimp only
      rw [if_pos (by omega), ih (Nat.lt_of_succ_lt_succ hn), hbytes, List.append_assoc]
      rw [List.length_append]
      omega
    . next hi =>
      rw [List.drop_of_length_le (Nat.le_of_not_lt hi), if_pos (by omega), encodeBytes, List.append_nil]

theorem encodebuf_eq_some (hlt : input.length < 2 ^ 32)
    : mir_base64_encodebuf input (mir_base64_encode_bufsize input.length) = some (mir_base64_encode input) := by
  have hspec := @encodeLoop_spec input [] (mir_base64_encode_bufsize input.length + 1) 0
    (mir_base64_encode_bufsize input.length) hlt
  unfold mir_base64_encodebuf
  rw [if_neg (Nat.lt_irrefl _), hspec, List.nil_append, List.drop_zero]
  . rfl
  . unfold mir_base64_encode_bufsize
    rw [List.drop_zero]
    omega
  . unfold mir_base64_encode_bufsize
    rw [List.drop_zero, List.length_nil]
    omega

theorem encodebuf_eq_none (hle : 2 ^ 32 ≤ input.length) (outputLen : Nat)
    : mir_base64_encodebuf input outputLen = none := by
  unfold mir_base64_encodebuf
  split
  . rfl
  . rw [encodeLoop_of_le hle (Nat.two_pow_pos 32)]
    rfl

theorem lt_of_and_eq {v : UInt8} (h : v &&& 0x3F = v) : v < 64 := by
  rw [UInt8.lt_iff_toNat_lt, ← h, UInt8.toNat_and]
  exact Nat.lt_succ_of_le Nat.and_le_right

theorem sextet₀_lt (a : UInt8) : a >>> 2 < 64 := by
  apply lt_of_and_eq
  apply UInt8.eq_of_toBitVec_eq
  ext i hi
  interval_cases i <;> simp

theorem sextet₁_lt (a b : UInt8) : (a &&& 0x03) <<< 4 ||| b >>> 4 < 64 := by
  apply lt_of_and_eq
  apply UInt8.eq_of_toBitVec_eq
  ext i hi
  interval_cases i <;> simp

theorem sextet₂_lt (b c : UInt8) : (b &&& 0x0F) <<< 2 ||| c >>> 6 < 64 := by
  apply lt_of_and_eq
  apply UInt8.eq_of_toBitVec_eq
  ext i hi
  interval_cases i <;> simp

theorem sextet₃_lt (c : UInt8) : c &&& 0x3F < 64 := by
  rw [UInt8.lt_iff_toNat_lt, UInt8.toNat_and]
  exact Nat.lt_succ_of_le Nat.and_le_right

theorem byte₀_eq (a b : UInt8) : (a >>> 2) <<< 2 ||| ((a &&& 0x03) <<< 4 ||| b >>> 4) >>> 4 = a := by
  apply UInt8.eq_of_toBitVec_eq
  ext i hi
  interval_cases i <;> simp

theorem byte₁_eq (a b c : UInt8)
    : (((a &&& 0x03) <<< 4 ||| b >>> 4) &&& 15) <<< 4 ||| ((b &&& 0x0F) <<< 2 ||| c >>> 6) >>> 2 = b := by
  apply UInt8.eq_of_toBitVec_eq
  ext i hi
  interval_cases i <;> simp

theorem byte₂_eq (b c : UInt8) : (((b &&& 0x0F) <<< 2 ||| c >>> 6) &&& 3) <<< 6 ||| c &&& 0x3F = c := by
  apply UInt8.eq_of_toBitVec_eq
  ext i hi
  interval_cases i <;> simp

theorem cb64_spec {v : UInt8}
    : v < 64 → cb64 v < 0x80 ∧ cb64 v ≠ 0 ∧ isNewline (cb64 v) = false ∧ Base64DecodeTable (fun _ => 0) (cb64 v) = v := by
  revert v
  apply forall_halves
  decide

theorem Base64DecodeTable_cb64 {v : UInt8} (hv : v < 64) : Base64DecodeTable memory (cb64 v) = v := by
  obtain ⟨hascii, -, -, htable⟩ := cb64_spec hv
  exact (Base64DecodeTable_of_lt hascii).trans htable

def IsChar (c v : UInt8) : Prop := (v < 64 ∧ c = cb64 v) ∨ (v = 0xFF ∧ c = padding)

theorem readValues_cons {v : UInt8} {rest : List UInt8} (h : IsChar c v)
    : readValues memory (n + 1) (c :: rest) = (v :: (readValues memory n rest).1, (readValues memory n rest).2) := by
  have hnewline : isNewline c = false := by
    rcases h with ⟨hv, rfl⟩ | ⟨-, rfl⟩
    . exact (cb64_spec hv).2.2.1
    . rfl
  have htable : Base64DecodeTable memory c = v := by
    rcases h with ⟨hv, rfl⟩ | ⟨rfl, rfl⟩
    . exact Base64DecodeTable_cb64 hv
    . rfl
  rw [readValues, List.dropWhile_cons, hnewline, if_neg Bool.false_ne_true]
  dsimp only
  rw [htable]

theorem ne_ff_of_lt {v : UInt8} (hv : v < 64) : v ≠ 0xFF := by
  rintro rfl
  exact absurd hv (by decide)

theorem decodeBytes_group {v0 v1 v2 v3 c2 c3 : UInt8} {rest : List UInt8} (hv0 : v0 < 64) (hv1 : v1 < 64)
    (hc2 : IsChar c2 v2) (hc3 : IsChar c3 v3)
    : decodeBytes memory (n + 1) (cb64 v0 :: cb64 v1 :: c2 :: c3 :: rest) =
        decodeValues [v0, v1, v2, v3] ++ decodeBytes memory n rest := by
  have hread : readValues memory 4 (cb64 v0 :: cb64 v1 :: c2 :: c3 :: rest) = ([v0, v1, v2, v3], rest) := by
    rw [readValues_cons (.inl ⟨hv0, rfl⟩), readValues_cons (.inl ⟨hv1, rfl⟩), readValues_cons hc2, readValues_cons hc3]
    rfl
  have hvalid : ([v0, v1, v2, v3].take 2).contains 0xFF = false := by
    rw [← Bool.not_eq_true, List.contains_iff_mem]
    change 0xFF ∉ [v0, v1]
    rw [List.mem_cons, List.mem_singleton, not_or]
    exact ⟨(ne_ff_of_lt hv0).symm, (ne_ff_of_lt hv1).symm⟩
  rw [decodeBytes]
  . rw [hread]
    dsimp only
    rw [hvalid, if_neg Bool.false_ne_true]
  . exact nofun

theorem decodeBytes_nil : decodeBytes memory n [] = [] := by
  cases n <;> rfl

theorem decodeBytes_encodeBytes (hn : (encodeBytes input).length < n)
    : decodeBytes memory n (encodeBytes input) = input := by
  induction input using encodeBytes.induct generalizing n with
  | case1 =>
    cases n with
    | zero => exact absurd hn (Nat.not_lt_zero _)
    | succ n => rfl
  | case2 a =>
    obtain ⟨n, rfl⟩ := Nat.exists_eq_add_of_le' (Nat.one_le_of_lt hn)
    have hv1 := sextet₁_lt a 0
    have hbyte := byte₀_eq a 0
    rw [UInt8.zero_shiftRight, UInt8.or_zero] at hv1 hbyte
    rw [encodeBytes, decodeBytes_group (sextet₀_lt a) hv1 (.inr ⟨rfl, rfl⟩) (.inr ⟨rfl, rfl⟩)]
    rw [decodeValues, if_neg (not_not_intro rfl), if_neg (not_not_intro rfl), hbyte, decodeBytes_nil]
    rfl
  | case3 a b =>
    obtain ⟨n, rfl⟩ := Nat.exists_eq_add_of_le' (Nat.one_le_of_lt hn)
    have hv2 := sextet₂_lt b 0
    have hbyte := byte₁_eq a b 0
    rw [UInt8.zero_shiftRight, UInt8.or_zero] at hv2 hbyte
    rw [encodeBytes, decodeBytes_group (sextet₀_lt a) (sextet₁_lt a b) (.inl ⟨hv2, rfl⟩) (.inr ⟨rfl, rfl⟩)]
    rw [decodeValues, if_pos (ne_ff_of_lt hv2), if_neg (not_not_intro rfl), byte₀_eq, hbyte, decodeBytes_nil]
    rfl
  | case4 a b c rest ih =>
    obtain ⟨n, rfl⟩ := Nat.exists_eq_add_of_le' (Nat.one_le_of_lt hn)
    rw [encodeBytes,
      decodeBytes_group (sextet₀_lt a) (sextet₁_lt a b) (.inl ⟨sextet₂_lt b c, rfl⟩) (.inl ⟨sextet₃_lt c, rfl⟩)]
    rw [ih, decodeValues, if_pos (ne_ff_of_lt (sextet₂_lt b c)), if_pos (ne_ff_of_lt (sextet₃_lt c)), byte₀_eq, byte₁_eq,
      byte₂_eq]
    . rfl
    . rw [encodeBytes, List.length_cons, List.length_cons, List.length_cons, List.length_cons] at hn
      omega

theorem encodeBytes_ne_zero (input : List UInt8) : ∀ c ∈ encodeBytes input, c ≠ 0 := by
  have hcb64 : ∀ {v : UInt8}, v < 64 → cb64 v ≠ 0 := fun hv => (cb64_spec hv).2.1
  have hpadding : padding ≠ 0 := by decide
  induction input using encodeBytes.induct with
  | case1 => exact nofun
  | case2 a =>
    have hv1 := sextet₁_lt a 0
    rw [UInt8.zero_shiftRight, UInt8.or_zero] at hv1
    rw [encodeBytes]
    simp only [List.forall_mem_cons]
    exact ⟨hcb64 (sextet₀_lt a), hcb64 hv1, hpadding, hpadding, nofun⟩
  | case3 a b =>
    have hv2 := sextet₂_lt b 0
    rw [UInt8.zero_shiftRight, UInt8.or_zero] at hv2
    rw [encodeBytes]
    simp only [List.forall_mem_cons]
    exact ⟨hcb64 (sextet₀_lt a), hcb64 (sextet₁_lt a b), hcb64 hv2, hpadding, nofun⟩
  | case4 a b c rest ih =>
    rw [encodeBytes]
    simp only [List.forall_mem_cons]
    exact ⟨hcb64 (sextet₀_lt a), hcb64 (sextet₁_lt a b), hcb64 (sextet₂_lt b c), hcb64 (sextet₃_lt c), ih⟩

theorem decode_mir_base64_encode (memory : UInt8 → UInt8) (input : List UInt8)
    : mir_base64_decode memory (mir_base64_encode input) = input := by
  have hbytes : (mir_base64_encode input).bytes = encodeBytes input := by
    unfold mir_base64_encode CStr.ofMem
    rw [List.takeWhile_eq_self_iff]
    intro c hc
    exact decide_eq_true (encodeBytes_ne_zero input c hc)
  unfold mir_base64_decode
  rw [hbytes, decodeBytes_encodeBytes]
  unfold CStr.strlen
  rw [hbytes]
  exact Nat.lt_succ_self _

def RoundTrips (memory : UInt8 → UInt8) (input : List UInt8) : Prop :=
  ∃ s run, mir_base64_encodebuf input (mir_base64_encode_bufsize input.length) = some s ∧
    decodeRun memory s = some run ∧ run.output = input ∧ run.outputLen = input.length

theorem roundTrips_iff (memory : UInt8 → UInt8) (input : List UInt8)
    : RoundTrips memory input ↔ input.length < 2 ^ 32 := by
  constructor
  . rintro ⟨s, run, hencode, -⟩
    by_contra hle
    rw [encodebuf_eq_none (Nat.le_of_not_lt hle)] at hencode
    cases hencode
  . intro hlt
    obtain ⟨run, hrun, houtput, -⟩ := decodeRun_spec memory (mir_base64_encode input)
    rw [decode_mir_base64_encode] at houtput
    refine ⟨mir_base64_encode input, run, encodebuf_eq_some hlt, hrun, houtput, ?_⟩
    unfold Decoding.outputLen
    rw [houtput]

-- 4 GB of zeros
theorem not_roundTrips : ¬∀ memory input, RoundTrips memory input := by
  intro h
  obtain ⟨s, run, hencode, -⟩ := h (fun _ => 0) (List.replicate (2 ^ 32) 0)
  rw [encodebuf_eq_none (Nat.le_of_eq List.length_replicate.symm)] at hencode
  cases hencode

end Base64
