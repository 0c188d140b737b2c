import MirandaNG.Memory.Block

/-!
This module contains the variables of path strings: `ReplaceVariables` measures the text with the values put in, and then
writes it into a block of that size.
-/

namespace PathVariables

inductive XCHAR where
  | CHAR
  | wchar_t

abbrev XCHAR.bits : XCHAR → Nat
  | CHAR => 8
  | wchar_t => 16

def XCHAR.size : XCHAR → Nat
  | CHAR => 1
  | wchar_t => 2

abbrev Str (X : XCHAR) := List (BitVec X.bits)

variable {X : XCHAR}

def percent : BitVec X.bits := 0x25#X.bits

structure REPLACEVARSDATA (X : XCHAR) where
  key : Str X
  value : Option (Str X)

def xcsncmp (s t : Str X) (n : Nat) : Bool := s.take n != t.take n

def GetVariableFromArray (GetInternalVariable : Str X → UInt32 → Option (Str X))
    (key : Str X) (keyLength : Nat) (hContact : UInt32)
    : List (REPLACEVARSDATA X) → Option (Str X)
  | [] => GetInternalVariable (key.take keyLength) hContact
  | var :: vars =>
    if var.key.length = keyLength ∧ !xcsncmp key var.key keyLength then
      var.value
    else
      GetVariableFromArray GetInternalVariable key keyLength hContact vars

variable (lookup : Str X → Nat → Option (Str X)) (str : Str X)

def measure : Str X → Nat → Option Nat → Nat → Nat
  | [], _, none, length => length
  | [], p, some varStart, length => length + (p - varStart + 1)
  | c :: rest, p, none, length =>
    if c = percent then
      measure rest (p + 1) (some (p + 1)) length
    else
      measure rest (p + 1) none (length + 1)
  | c :: rest, p, some varStart, length =>
    if c = percent then
      if p = varStart then
        measure rest (p + 1) none (length + 1)
      else
        match lookup (str.drop varStart) (p - varStart) with
        | some value => measure rest (p + 1) none (length + value.length)
        | none => measure rest (p + 1) none (length + (p - varStart + 2))
    else
      measure rest (p + 1) (some varStart) length

def fill : Str X → Nat → Option Nat → List (Option (BitVec X.bits)) → Nat → Option (List (Option (BitVec X.bits)))
  | [], _, none, result, q => Block.write result q [0#X.bits]
  | [], p, some varStart, result, q => do
    let len := p - varStart + 1
    let result ← Block.write result q ((str.drop (varStart - 1)).take len)
    Block.write result (q + len) [0#X.bits]
  | c :: rest, p, none, result, q => do
    if c = percent then
      fill rest (p + 1) (some (p + 1)) result q
    else
      let result ← Block.write result q [c]
      fill rest (p + 1) none result (q + 1)
  | c :: rest, p, some varStart, result, q => do
    if c = percent then
      if p = varStart then
        let result ← Block.write result q [percent]
        fill rest (p + 1) none result (q + 1)
      else
        match lookup (str.drop varStart) (p - varStart) with
        | some value =>
          let result ← Block.write result q (value ++ [0#X.bits])
          fill rest (p + 1) none result (q + value.length)
        | none =>
          let result ← Block.write result q ((str.drop (varStart - 1)).take (p - varStart + 2))
          fill rest (p + 1) none result (q + (p - varStart + 2))
    else
      fill rest (p + 1) (some varStart) result q

def length (W : Nat) : Nat := measure lookup str str 0 none 0 % 2 ^ W

-- `none` if something is written outside of the block, and `some none` for the null pointer
def ReplaceVariables (W : Nat) (GetInternalVariable : Str X → UInt32 → Option (Str X))
    (str : Option (Str X)) (hContact : UInt32) (vars : List (REPLACEVARSDATA X))
    : Option (Option (List (Option (BitVec X.bits)))) :=
  match str with
  | none => some none
  | some str =>
    let lookup key keyLength := GetVariableFromArray GetInternalVariable key keyLength hContact vars
    let result := Block.alloc (BitVec X.bits) (X.size * (length lookup str W + 1) % 2 ^ W / X.size)
    (fill lookup str str 0 none result 0).map some

section
variable (value : Str X → Option (Str X))

def replacement (name : Str X) : Str X :=
  if name = [] then
    [percent]
  else
    (value name).getD (percent :: (name ++ [percent]))

def substitute : Str X → Str X
  | [] => []
  | c :: s =>
    if c = percent then
      match _h : s.dropWhile (· ≠ percent) with
      | [] => percent :: s
      | _ :: rest => replacement value (s.takeWhile (· ≠ percent)) ++ substitute rest
    else
      c :: substitute s
termination_by s => s.length
decreasing_by
  . have := (List.dropWhile_sublist (p := (· ≠ percent)) (l := s)).length_le
    rw [_h, List.length_cons] at this
    rw [List.length_cons]
    omega
  . exact Nat.lt_succ_self _

variable {value} {name rest s : Str X} {c : BitVec X.bits}

theorem replacement_nil : replacement value [] = [percent] := if_pos rfl

theorem replacement_some (hne : name ≠ []) (h : value name = some s) : replacement value name = s := by
  rw [replacement, if_neg hne, h]
  rfl

theorem replacement_none (hne : name ≠ []) (h : value name = none)
    : replacement value name = percent :: (name ++ [percent]) := by
  rw [replacement, if_neg hne, h]
  rfl

theorem substitute_other (h : c ≠ percent) : substitute value (c :: s) = c :: substitute value s := by
  rw [substitute, if_neg h]

theorem dropWhile_name (hname : percent ∉ name)
    : (name ++ rest).dropWhile (fun c => decide (c ≠ percent)) = rest.dropWhile (fun c => decide (c ≠ percent)) := by
  refine List.dropWhile_append_of_pos fun c hc => decide_eq_true ?_
  rintro rfl
  exact hname hc

theorem substitute_unclosed (hname : percent ∉ name) : substitute value (percent :: name) = percent :: name := by
  have hdrop : name.dropWhile (fun c => decide (c ≠ percent)) = [] := by
    have h := (dropWhile_name hname : (name ++ []).dropWhile _ = _)
    rwa [List.append_nil] at h
  rw [substitute, if_pos rfl]
  split
  next => rfl
  next heq =>
    rw [hdrop] at heq
    cases heq

theorem substitute_closed (hname : percent ∉ name)
    : substitute value (percent :: (name ++ percent :: rest)) = replacement value name ++ substitute value rest := by
  have hdrop : (name ++ percent :: rest).dropWhile (fun c => decide (c ≠ percent)) = percent :: rest := by
    rw [dropWhile_name hname, List.dropWhile_cons_of_neg (by simp)]
  have htake : (name ++ percent :: rest).takeWhile (fun c => decide (c ≠ percent)) = name := by
    rw [List.takeWhile_append_of_pos, List.takeWhile_cons_of_neg (by simp), List.append_nil]
    intro c hc
    refine decide_eq_true ?_
    rintro rfl
    exact hname hc
  rw [substitute, if_pos rfl, htake]
  split
  next heq =>
    rw [hdrop] at heq
    cases heq
  next heq =>
    rw [hdrop] at heq
    cases heq
    rfl

end

section
variable {lookup : Str X → Nat → Option (Str X)} {value : Str X → Option (Str X)}
variable {str rest name : Str X} {c : BitVec X.bits} {p v : Nat}

def Scanned (str rest : Str X) (p : Nat) : Option Nat → Prop
  | none => str.drop p = rest
  | some v =>
    0 < v ∧ ∃ name, percent ∉ name ∧ p = v + name.length ∧ str.drop (v - 1) = percent :: (name ++ rest)

def due (value : Str X → Option (Str X)) (str rest : Str X) : Option Nat → Str X
  | none => substitute value rest
  | some v => substitute value (str.drop (v - 1))

theorem Scanned.start (str : Str X) : Scanned str str 0 none := List.drop_zero

theorem Scanned.other (h : Scanned str (c :: rest) p none) : Scanned str rest (p + 1) none := by
  rw [Scanned] at h ⊢
  rw [← List.drop_drop, h]
  rfl

theorem Scanned.opened (h : Scanned str (percent :: rest) p none) : Scanned str rest (p + 1) (some (p + 1)) :=
  ⟨Nat.succ_pos p, [], List.not_mem_nil, rfl, h⟩

theorem Scanned.inside (h : Scanned str (c :: rest) p (some v)) (hc : c ≠ percent) : Scanned str rest (p + 1) (some v) := by
  obtain ⟨hv, name, hname, rfl, hdrop⟩ := h
  refine ⟨hv, name ++ [c], ?_, ?_, ?_⟩
  . rw [List.mem_append, List.mem_singleton]
    rintro (h | h)
    . exact hname h
    . exact hc h.symm
  . rw [List.length_append, List.length_singleton, Nat.add_assoc]
  . rw [hdrop, List.append_assoc]
    rfl

theorem Scanned.drop_eq (h : Scanned str rest p (some v)) : ∃ name, percent ∉ name ∧ p = v + name.length ∧
    str.drop (v - 1) = percent :: (name ++ rest) ∧ str.drop v = name ++ rest ∧ str.drop p = rest := by
  obtain ⟨hv, name, hname, rfl, hdrop⟩ := h
  have hv' : str.drop v = name ++ rest := by
    rw [show v = v - 1 + 1 by omega, ← List.drop_drop, hdrop]
    rfl
  refine ⟨name, hname, rfl, hdrop, hv', ?_⟩
  rw [← List.drop_drop, hv', List.drop_left]

theorem Scanned.closed (h : Scanned str (c :: rest) p (some v)) : Scanned str rest (p + 1) none := by
  obtain ⟨_, _, _, _, _, hp⟩ := h.drop_eq
  exact Scanned.other (c := c) hp

def AsksFor (lookup : Str X → Nat → Option (Str X))
    (value : Str X → Option (Str X)) : Prop :=
  ∀ name rest, lookup (name ++ rest) name.length = value name

theorem measure_eq (hask : AsksFor lookup value) (rest : Str X) {p n : Nat} {varStart : Option Nat}
    (h : Scanned str rest p varStart) : measure lookup str rest p varStart n = n + (due value str rest varStart).length := by
  induction rest generalizing p n varStart with
  | nil =>
    cases varStart with
    | none => rw [measure, due, substitute]; rfl
    | some v =>
      obtain ⟨name, hname, rfl, hdrop, -, -⟩ := h.drop_eq
      rw [List.append_nil] at hdrop
      rw [measure, due, hdrop, substitute_unclosed hname, Nat.add_sub_cancel_left, List.length_cons]
  | cons c rest ih =>
    have hcounted {p : Nat} (s : Str X) (hscan : Scanned str rest p none)
        : measure lookup str rest p none (n + s.length) = n + (s ++ substitute value rest).length := by
      rw [ih hscan, due, List.length_append, Nat.add_assoc]
    cases varStart with
    | none =>
      by_cases hc : c = percent
      . subst hc
        rw [measure, if_pos rfl, ih h.opened, due, due, Nat.add_sub_cancel, h]
      . rw [measure, if_neg hc, due, substitute_other hc]
        exact hcounted [c] h.other
    | some v =>
      by_cases hc : c = percent
      . subst hc
        obtain ⟨name, hname, rfl, hdrop, hdrop', -⟩ := h.drop_eq
        rw [measure, if_pos rfl, Nat.add_sub_cancel_left, hdrop', hask, due, hdrop, substitute_closed hname]
        by_cases hnil : name = []
        . subst hnil
          rw [if_pos (by rfl), replacement_nil]
          exact hcounted [percent] h.closed
        . rw [if_neg (by simpa using hnil)]
          cases hvalue : value name with
          | none =>
            have hsize : (percent :: (name ++ [percent])).length = name.length + 2 := by
              rw [List.length_cons, List.length_append, List.length_singleton]
            rw [replacement_none hnil hvalue]
            dsimp only
            rw [← hsize]
            exact hcounted _ h.closed
          | some s =>
            rw [replacement_some hnil hvalue]
            exact hcounted s h.closed
      . rw [measure, if_neg hc, ih (h.inside hc)]
        rfl

theorem fill_eq (hask : AsksFor lookup value) (rest : Str X) {p : Nat} {varStart : Option Nat}
    (h : Scanned str rest p varStart) (done : Str X) (r : List (Option (BitVec X.bits)))
    (hlen : r.length = (due value str rest varStart).length + 1)
    : fill lookup str rest p varStart (done.map some ++ r) done.length
        = some ((done ++ due value str rest varStart ++ [0#X.bits]).map some) := by
  induction rest generalizing p varStart done r with
  | nil =>
    cases varStart with
    | none =>
      rw [due, substitute] at hlen ⊢
      rw [fill, Block.write_last done _ hlen, List.append_nil]
    | some v =>
      obtain ⟨name, hname, rfl, hdrop, -, -⟩ := h.drop_eq
      rw [List.append_nil] at hdrop
      rw [due, hdrop, substitute_unclosed hname] at hlen ⊢
      rw [fill, Nat.add_sub_cancel_left, hdrop, List.take_of_length_le (by rfl), Option.bind_eq_bind,
        Block.write_append done _ (by omega), Option.bind_some, ← List.length_cons (a := percent), ← List.length_append]
      exact Block.write_last _ _ (by rw [List.length_drop]; omega)
  | cons c rest ih =>
    have hwritten {p : Nat} {t : List (Option (BitVec X.bits))} (s : Str X) (hscan : Scanned str rest p none)
        (ht : t.length = (substitute value rest).length + 1)
        : fill lookup str rest p none ((done ++ s).map some ++ t) (done.length + s.length)
            = some ((done ++ (s ++ substitute value rest) ++ [0#X.bits]).map some) := by
      rw [← List.length_append, ih hscan (done ++ s) t ht, due, List.append_assoc done]
    cases varStart with
    | none =>
      by_cases hc : c = percent
      . subst hc
        have hdue : due value str rest (some (p + 1)) = due value str (percent :: rest) none := by
          rw [due, due, Nat.add_sub_cancel, h]
        rw [fill, if_pos rfl, ← hdue]
        exact ih h.opened done r (hdue ▸ hlen)
      . rw [due, substitute_other hc] at hlen ⊢
        rw [List.length_cons] at hlen
        have hone : [c].length ≤ r.length := by rw [List.length_singleton]; omega
        rw [fill, if_neg hc, Option.bind_eq_bind, Block.write_append done [c] hone, Option.bind_some]
        exact hwritten [c] h.other (by rw [List.length_drop, List.length_singleton]; omega)
    | some v =>
      by_cases hc : c = percent
      . subst hc
        obtain ⟨name, hname, rfl, hdrop, hdrop', -⟩ := h.drop_eq
        rw [due, hdrop, substitute_closed hname] at hlen ⊢
        rw [List.length_append] at hlen
        rw [fill, if_pos rfl, Nat.add_sub_cancel_left, hdrop', hask]
        by_cases hnil : name = []
        . subst hnil
          rw [replacement_nil] at hlen ⊢
          rw [List.length_singleton] at hlen
          rw [if_pos (by rfl), Option.bind_eq_bind, Block.write_append done [percent] (by rw [List.length_singleton]; omega),
            Option.bind_some]
          exact hwritten [percent] h.closed (by rw [List.length_drop, List.length_singleton]; omega)
        . rw [if_neg (by simpa using hnil)]
          cases hvalue : value name with
          | none =>
            have hsize : (percent :: (name ++ [percent])).length = name.length + 2 := by
              rw [List.length_cons, List.length_append, List.length_singleton]
            have htake : (percent :: (name ++ percent :: rest)).take (name.length + 2) = percent :: (name ++ [percent]) := by
              rw [← List.singleton_append (x := percent) (l := rest), ← List.append_assoc, ← List.cons_append, ← hsize,
                List.take_left]
            rw [replacement_none hnil hvalue] at hlen ⊢
            dsimp only
            rw [hdrop, htake, Option.bind_eq_bind, Block.write_append done _ (by omega), Option.bind_some, ← hsize]
            exact hwritten _ h.closed (by rw [List.length_drop]; omega)
          | some s =>
            rw [replacement_some hnil hvalue] at hlen ⊢
            have hnul : (s ++ [0#X.bits]).length ≤ r.length := by
              rw [List.length_append, List.length_singleton]
              omega
            dsimp only
            rw [Option.bind_eq_bind, Block.write_append done _ hnul, Option.bind_some, ← List.append_assoc, List.map_append,
              List.append_assoc]
            refine hwritten s h.closed ?_
            simp only [List.length_append, List.length_map, List.length_drop, List.length_singleton]
            omega
      . rw [fill, if_neg hc]
        exact ih (h.inside hc) done r hlen

theorem fill_bound (hask : AsksFor lookup value) (rest : Str X) {p q : Nat} {varStart : Option Nat}
    {result mem : List (Option (BitVec X.bits))} (h : Scanned str rest p varStart)
    (hfill : fill lookup str rest p varStart result q = some mem)
    : q + (due value str rest varStart).length + 1 ≤ result.length := by
  induction rest generalizing p q varStart result with
  | nil =>
    cases varStart with
    | none =>
      rw [due, substitute]
      exact Block.le_length_of_write hfill
    | some v =>
      obtain ⟨name, hname, rfl, hdrop, -, -⟩ := h.drop_eq
      rw [List.append_nil] at hdrop
      rw [fill, Option.bind_eq_bind, Option.bind_eq_some_iff] at hfill
      obtain ⟨mem', hmem, hlast⟩ := hfill
      have hle := Block.le_length_of_write hlast
      rw [Block.length_write hmem, Nat.add_sub_cancel_left] at hle
      rw [due, hdrop, substitute_unclosed hname]
      exact hle
  | cons c rest ih =>
    have hwritten {p q k : Nat} {s : Str X} {result} (hscan : Scanned str rest p none)
        (hstep : (Block.write result q s).bind (fun r => fill lookup str rest p none r (q + k)) = some mem)
        : q + (k + (substitute value rest).length) + 1 ≤ result.length := by
      obtain ⟨mem', hmem, hrest⟩ := Option.bind_eq_some_iff.1 hstep
      have hle := ih hscan hrest
      rw [Block.length_write hmem, due] at hle
      omega
    cases varStart with
    | none =>
      by_cases hc : c = percent
      . subst hc
        rw [fill, if_pos rfl] at hfill
        have hle := ih h.opened hfill
        rwa [due, Nat.add_sub_cancel, h] at hle
      . rw [fill, if_neg hc, Option.bind_eq_bind] at hfill
        have hle := hwritten h.other hfill
        rw [due, substitute_other hc, List.length_cons]
        omega
    | some v =>
      by_cases hc : c = percent
      . subst hc
        obtain ⟨name, hname, rfl, hdrop, hdrop', -⟩ := h.drop_eq
        rw [fill, if_pos rfl, Nat.add_sub_cancel_left, hdrop', hask, hdrop] at hfill
        rw [due, hdrop, substitute_closed hname, List.length_append]
        by_cases hnil : name = []
        . subst hnil
          rw [if_pos (by rfl), Option.bind_eq_bind] at hfill
          rw [replacement_nil]
          exact hwritten h.closed hfill
        . rw [if_neg (by simpa using hnil)] at hfill
          cases hvalue : value name with
          | none =>
            have hsize : (percent :: (name ++ [percent])).length = name.length + 2 := by
              rw [List.length_cons, List.length_append, List.length_singleton]
            rw [hvalue, Option.bind_eq_bind] at hfill
            rw [replacement_none hnil hvalue, hsize]
            exact hwritten h.closed hfill
          | some s =>
            rw [hvalue, Option.bind_eq_bind] at hfill
            rw [replacement_some hnil hvalue]
            exact hwritten h.closed hfill
      . rw [fill, if_neg hc] at hfill
        exact ih (h.inside hc) hfill

end

section
variable (GetInternalVariable : Str X → UInt32 → Option (Str X))
variable (hContact : UInt32) (vars : List (REPLACEVARSDATA X))

def valueOf (name : Str X) : Option (Str X) :=
  GetVariableFromArray GetInternalVariable name name.length hContact vars

theorem asksFor_valueOf
    : AsksFor (fun key keyLength => GetVariableFromArray GetInternalVariable key keyLength hContact vars)
        (valueOf GetInternalVariable hContact vars) := by
  intro name rest
  unfold valueOf
  dsimp only
  induction vars with
  | nil => simp only [GetVariableFromArray, List.take_left, List.take_length]
  | cons var vars ih => simp only [GetVariableFromArray, xcsncmp, List.take_left, List.take_length, ih]

def Substitutes (W : Nat) (str : Str X) : Prop :=
  length (fun key keyLength => GetVariableFromArray GetInternalVariable key keyLength hContact vars) str W
      = (substitute (valueOf GetInternalVariable hContact vars) str).length ∧
    ReplaceVariables W GetInternalVariable (some str) hContact vars
      = some (some ((substitute (valueOf GetInternalVariable hContact vars) str ++ [0#X.bits]).map some))

variable {GetInternalVariable hContact vars} {W : Nat} {str : Str X}

theorem XCHAR.size_pos (X : XCHAR) : 0 < X.size := by
  cases X <;> decide

variable (GetInternalVariable hContact vars W str) in
theorem length_eq
    : length (fun key keyLength => GetVariableFromArray GetInternalVariable key keyLength hContact vars) str W
        = (substitute (valueOf GetInternalVariable hContact vars) str).length % 2 ^ W := by
  rw [length, measure_eq (asksFor_valueOf GetInternalVariable hContact vars) str (Scanned.start str), due, Nat.zero_add]

theorem Substitutes.size_lt (h : Substitutes GetInternalVariable hContact vars W str)
    : X.size * ((substitute (valueOf GetInternalVariable hContact vars) str).length + 1) < 2 ^ W := by
  obtain ⟨hlength, hreplace⟩ := h
  dsimp only [ReplaceVariables] at hreplace
  obtain ⟨mem, hmem, -⟩ := Option.map_eq_some_iff.1 hreplace
  have hle := fill_bound (asksFor_valueOf GetInternalVariable hContact vars) str (Scanned.start str) hmem
  rw [Block.length_alloc, hlength, due, Nat.zero_add, Nat.le_div_iff_mul_le X.size_pos, Nat.mul_comm] at hle
  exact hle.trans_lt (Nat.mod_lt _ (Nat.two_pow_pos W))

theorem substitutes_of_size_lt
    (h : X.size * ((substitute (valueOf GetInternalVariable hContact vars) str).length + 1) < 2 ^ W)
    : Substitutes GetInternalVariable hContact vars W str := by
  have hlt : (substitute (valueOf GetInternalVariable hContact vars) str).length < 2 ^ W := by
    have := Nat.le_mul_of_pos_left ((substitute (valueOf GetInternalVariable hContact vars) str).length + 1) X.size_pos
    omega
  have hlength := length_eq GetInternalVariable hContact vars W str
  rw [Nat.mod_eq_of_lt hlt] at hlength
  refine ⟨hlength, ?_⟩
  have hfill := fill_eq (asksFor_valueOf GetInternalVariable hContact vars) str (Scanned.start str) []
    (Block.alloc (BitVec X.bits) ((substitute (valueOf GetInternalVariable hContact vars) str).length + 1))
    (by rw [Block.length_alloc, due])
  rw [List.map_nil, List.nil_append, List.nil_append, List.length_nil] at hfill
  dsimp only [ReplaceVariables]
  rw [hlength, Nat.mod_eq_of_lt h, Nat.mul_div_cancel_left _ X.size_pos, hfill]
  rfl

variable (GetInternalVariable hContact vars W str)

theorem substitutes_iff_size_lt
    : Substitutes GetInternalVariable hContact vars W str ↔
        X.size * ((substitute (valueOf GetInternalVariable hContact vars) str).length + 1) < 2 ^ W :=
  ⟨Substitutes.size_lt, substitutes_of_size_lt⟩

end

def repeated (n : Nat) : List (BitVec XCHAR.CHAR.bits) := (List.replicate n [0x25, 0x61, 0x25]).flatten

theorem length_substitute_repeated {value : List (BitVec XCHAR.CHAR.bits) → Option (List (BitVec XCHAR.CHAR.bits))}
    {v : List (BitVec XCHAR.CHAR.bits)} (hvalue : value [0x61] = some v) (n : Nat)
    : (substitute value (repeated n)).length = n * v.length := by
  induction n with
  | zero => rw [repeated, List.replicate_zero, List.flatten_nil, substitute, Nat.zero_mul]; rfl
  | succ n ih =>
    have hname : percent ∉ [(0x61 : BitVec XCHAR.CHAR.bits)] := by decide
    have hrep : repeated (n + 1) = percent :: ([0x61] ++ percent :: repeated n) := by
      rw [repeated, List.replicate_succ, List.flatten_cons]
      rfl
    rw [hrep, substitute_closed hname, replacement_some (List.cons_ne_nil _ _) hvalue, List.length_append, ih]
    ring

-- A variable of 65536 characters that is asked for as often: 2 ^ 32 characters
theorem not_substitutes_repeated
    : ¬Substitutes (fun _ _ => none) 0 [⟨[0x61], some (List.replicate 65536 0x62)⟩] 32 (repeated 65536) := by
  intro h
  have hvalue : valueOf (fun _ _ => none) 0 [⟨[0x61], some (List.replicate 65536 0x62)⟩] [0x61]
      = some (List.replicate 65536 (0x62 : BitVec XCHAR.CHAR.bits)) := rfl
  have hlt := h.size_lt
  rw [length_substitute_repeated hvalue, List.length_replicate] at hlt
  exact absurd hlt (by decide)

example : ReplaceVariables (X := .CHAR) 64 (fun _ _ => none) (some [0x25, 0x61, 0x25, 0x25, 0x25, 0x25, 0x62]) 0
    [⟨[0x61#8], some [0x25, 0x78, 0x25]⟩]
      = some (some ([0x25#8, 0x78, 0x25, 0x25, 0x25, 0x62, 0].map some)) := by decide

end PathVariables
