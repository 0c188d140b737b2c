import Mathlib.Tactic
import MirandaNG.Data.WStr

/-!
This module contains the functions of the Variables plugin that change line ends, and proves for which texts they
agree on what a line is: a line feed ends it, together with a carriage return in front of it.
-/

namespace Variables.LineEnds

def CR : UInt16 := 0x0D
def LF : UInt16 := 0x0A

def eolToCrlf : Nat → List UInt16 → Nat → Option (List UInt16)
  | 0, _, _ => none
  | fuel + 1, res, cur =>
    match (res.drop cur).findIdx? (· = LF) with
    | none => some res
    | some i =>
      if 0 < cur + i ∧ res[cur + i - 1]? = some CR then
        eolToCrlf fuel res (cur + i)
      else
        eolToCrlf fuel (res.take (cur + i) ++ CR :: LF :: res.drop (cur + i + 1)) (cur + i + 2)

def parseEolToCrlf (fuel : Nat) (x : WStr) : Option (List UInt16) := eolToCrlf fuel x.chars 0

def fixeolEnd : List UInt16 → Nat
  | [] => 0
  | c :: s => if c :: s = [CR, LF] ∨ c = LF then 0 else fixeolEnd s + 1

-- `none` when `cur` is decremented in front of the text, and `wcsncpy` gets a negative length.
def parseFixeol (x : WStr) (y : Option WStr) : Option (List UInt16) :=
  let szReplacement := y.getD (.lit "(...)")
  let cur := fixeolEnd x.chars
  if cur = x.chars.length then some x.chars
  else if cur = 0 then none
  else some (x.chars.take (cur - 1) ++ szReplacement.chars)

def szEol (cur : List UInt16) : Option Nat :=
  if cur.head? = some LF then some 1
  else if cur.take 2 = [CR, LF] then some 2
  else none

def fixeol2 (szReplacement : List UInt16) : Nat → List UInt16 → Nat → Option (List UInt16)
  | 0, _, _ => none
  | fuel + 1, res, pos =>
    if pos < res.length then
      match szEol (res.drop pos) with
      | some eol =>
        fixeol2 szReplacement fuel (res.take pos ++ szReplacement ++ res.drop (pos + eol)) (pos + szReplacement.length)
      | none => fixeol2 szReplacement fuel res (pos + 1)
    else
      some res

def parseFixeol2 (fuel : Nat) (x : WStr) (y : Option WStr) : Option (List UInt16) :=
  fixeol2 (y.getD (.lit " ")).chars fuel x.chars 0

def crlf (before : Option UInt16) : List UInt16 → List UInt16
  | [] => []
  | c :: s => (if c = LF ∧ before ≠ some CR then [CR, LF] else [c]) ++ crlf (some c) s

def firstLine : List UInt16 → Option (List UInt16)
  | [] => none
  | c :: s => if c = LF ∨ (c :: s).take 2 = [CR, LF] then some [] else (firstLine s).map (c :: ·)

def replaceEols (replacement : List UInt16) : List UInt16 → List UInt16
  | [] => []
  | [c] => if c = LF then replacement else [c]
  | c :: c' :: s =>
    if c = LF then replacement ++ replaceEols replacement (c' :: s)
    else if c = CR ∧ c' = LF then replacement ++ replaceEols replacement s
    else c :: replaceEols replacement (c' :: s)

def Returns (f : Nat → Option (List UInt16)) (res : List UInt16) : Prop := ∃ fuel, f fuel = some res

def EolToCrlfOk (x : WStr) : Prop := Returns (parseEolToCrlf · x) (crlf none x.chars)

def FixeolOk (x : WStr) (y : Option WStr) : Prop :=
  parseFixeol x y = some ((firstLine x.chars).elim x.chars (· ++ (y.getD (.lit "(...)")).chars))

def Fixeol2Ok (x : WStr) (y : Option WStr) : Prop :=
  Returns (parseFixeol2 · x y) (replaceEols (y.getD (.lit " ")).chars x.chars)

def Lines (x : WStr) (y : Option WStr) : Prop := EolToCrlfOk x ∧ FixeolOk x y ∧ Fixeol2Ok x y

theorem eolToCrlf_end {done rest : List UInt16} (hlf : LF ∉ rest) (fuel : Nat)
    : eolToCrlf (fuel + 1) (done ++ rest) done.length = some (done ++ rest) := by
  have hnone : rest.findIdx? (· = LF) = none := by
    rw [List.findIdx?_eq_none_iff]
    intro c hc
    rw [decide_eq_false_iff_not]
    intro heq
    exact hlf (heq ▸ hc)
  unfold eolToCrlf
  rw [List.drop_left, hnone]

theorem eolToCrlf_found {done a b : List UInt16} (hlf : LF ∉ a) (fuel : Nat)
    : eolToCrlf (fuel + 1) (done ++ (a ++ LF :: b)) done.length
        =
      if (done ++ a).getLast? = some CR then eolToCrlf fuel (done ++ a ++ LF :: b) (done ++ a).length
      else eolToCrlf fuel (done ++ a ++ [CR, LF] ++ b) (done ++ a ++ [CR, LF]).length := by
  have hfound : (a ++ LF :: b).findIdx? (· = LF) = some a.length := by
    have hnone : a.findIdx? (· = LF) = none := by
      rw [List.findIdx?_eq_none_iff]
      intro c hc
      rw [decide_eq_false_iff_not]
      intro heq
      exact hlf (heq ▸ hc)
    rw [List.findIdx?_append, hnone, List.findIdx?_cons]
    simp
  have hlength : done.length + a.length = (done ++ a).length := List.length_append.symm
  have hlast : (0 < (done ++ a).length ∧ (done ++ a ++ LF :: b)[(done ++ a).length - 1]? = some CR) ↔
      (done ++ a).getLast? = some CR := by
    rw [List.getLast?_eq_getElem?]
    constructor
    . rintro ⟨hpos, hcr⟩
      rwa [List.getElem?_append_left (by omega)] at hcr
    . intro hcr
      have hpos : 0 < (done ++ a).length := by
        by_contra hzero
        rw [List.getElem?_eq_none (by omega)] at hcr
        exact absurd hcr (by simp)
      exact ⟨hpos, by rwa [List.getElem?_append_left (by omega)]⟩
  conv_lhs => unfold eolToCrlf
  rw [List.drop_left, hfound]
  simp only []
  rw [hlength, ← List.append_assoc]
  simp only [hlast]
  rw [List.take_left, List.drop_length_add_append]
  simp [Nat.add_assoc]

theorem eolToCrlf_stuck {done rest : List UInt16} (hlast : done.getLast? = some CR) (fuel : Nat)
    : eolToCrlf fuel (done ++ LF :: rest) done.length = none := by
  induction fuel with
  | zero => rfl
  | succ fuel ih =>
    have hfound := @eolToCrlf_found done [] rest (by simp) fuel
    rw [List.append_nil, if_pos hlast, ih] at hfound
    exact hfound

theorem crlf_append {a b : List UInt16} (before : Option UInt16) (hlf : LF ∉ a)
    : crlf before (a ++ b) = a ++ crlf (a.getLast?.or before) b := by
  induction a generalizing before with
  | nil => rfl
  | cons c a ih =>
    have hc : c ≠ LF := fun heq => hlf (heq ▸ List.mem_cons_self)
    rw [List.cons_append, crlf, if_neg (fun h => hc h.1), ih _ (fun hmem => hlf (List.mem_cons_of_mem _ hmem)),
      List.getLast?_cons]
    cases a.getLast? <;> rfl

theorem crlf_of_notMem {s : List UInt16} (before : Option UInt16) (hlf : LF ∉ s) : crlf before s = s := by
  have happend := crlf_append (b := []) before hlf
  rwa [List.append_nil, crlf, List.append_nil] at happend

theorem lf_cases (s : List UInt16) : LF ∉ s ∨ ∃ a b, s = a ++ LF :: b ∧ LF ∉ a := by
  by_cases hmem : LF ∈ s
  . obtain ⟨a, b, hs, ha⟩ := List.eq_append_cons_of_mem hmem
    exact .inr ⟨a, b, hs, ha⟩
  . exact .inl hmem

theorem eolToCrlf_returns {done rest : List UInt16} (hlast : done.getLast? ≠ some CR) (hno : ¬[CR, LF] <:+: rest)
    : ∃ fuel, eolToCrlf fuel (done ++ rest) done.length = some (done ++ crlf done.getLast? rest) := by
  rcases lf_cases rest with hlf | ⟨a, b, hrest, hlf⟩
  . exact ⟨1, by rw [eolToCrlf_end hlf, crlf_of_notMem _ hlf]⟩
  . subst hrest
    have hlast' : (done ++ a).getLast? ≠ some CR := by
      rw [List.getLast?_append]
      cases ha : a.getLast? with
      | none => exact hlast
      | some c =>
        intro heq
        obtain ⟨a', hcr⟩ := List.getLast?_eq_some_iff.mp (ha.trans heq)
        refine hno ⟨a', b, ?_⟩
        rw [hcr]
        simp
    have hno' : ¬[CR, LF] <:+: b := fun hinner => hno (hinner.trans ⟨a ++ [LF], [], by simp⟩)
    have hdone : (done ++ a ++ [CR, LF]).getLast? = some LF := by simp
    obtain ⟨fuel, hfuel⟩ := @eolToCrlf_returns (done ++ a ++ [CR, LF]) b
      (by rw [hdone]; decide) hno'
    refine ⟨fuel + 1, ?_⟩
    rw [List.getLast?_append] at hlast'
    rw [eolToCrlf_found hlf, if_neg (by rwa [List.getLast?_append]), hfuel, hdone, crlf_append _ hlf, crlf,
      if_pos ⟨rfl, hlast'⟩]
    simp
termination_by rest.length

theorem infix_behind {a b : List UInt16} (hlf : LF ∉ a) (hlast : a.getLast? ≠ some CR) (hcrlf : [CR, LF] <:+: a ++ LF :: b)
    : [CR, LF] <:+: b := by
  obtain ⟨s, t, hst⟩ := hcrlf
  rw [List.append_assoc, List.cons_append, List.cons_append, List.nil_append] at hst
  induction a generalizing s with
  | nil =>
    match s with
    | [] =>
      rw [List.nil_append, List.nil_append, List.cons_eq_cons] at hst
      exact absurd hst.1 (by decide)
    | c :: s =>
      rw [List.cons_append, List.nil_append, List.cons_eq_cons] at hst
      exact ⟨s, t, by rw [← hst.2]; simp⟩
  | cons c a ih =>
    match s with
    | [] =>
      rw [List.nil_append, List.cons_append, List.cons_eq_cons] at hst
      match a with
      | [] => exact absurd (by rw [← hst.1]; rfl) hlast
      | c' :: a =>
        rw [List.cons_append, List.cons_eq_cons] at hst
        exact absurd (hst.2.1 ▸ List.mem_cons_of_mem _ List.mem_cons_self) hlf
    | c' :: s =>
      rw [List.cons_append, List.cons_append, List.cons_eq_cons] at hst
      refine ih (fun hmem => hlf (List.mem_cons_of_mem _ hmem)) (fun ha => hlast ?_) s hst.2
      rw [List.getLast?_cons, ha]
      rfl

theorem eolToCrlf_never {done rest : List UInt16} (hlast : done.getLast? ≠ some CR) (hcrlf : [CR, LF] <:+: rest)
    (fuel : Nat) : eolToCrlf fuel (done ++ rest) done.length = none := by
  induction fuel generalizing done rest with
  | zero => rfl
  | succ fuel ih =>
    rcases lf_cases rest with hlf | ⟨a, b, hrest, hlf⟩
    . exact absurd (hcrlf.subset (by simp)) hlf
    . subst hrest
      rw [eolToCrlf_found hlf]
      split
      . next hcr => exact eolToCrlf_stuck hcr fuel
      . next hnot =>
        apply ih
        . simp [LF, CR]
        . exact infix_behind hlf (fun ha => hnot (by rw [List.getLast?_append, ha]; rfl)) hcrlf

theorem eolToCrlfOk_iff (x : WStr) : EolToCrlfOk x ↔ ¬[CR, LF] <:+: x.chars := by
  constructor
  . rintro ⟨fuel, hfuel⟩ hcrlf
    have hnever := @eolToCrlf_never [] _ (by simp) hcrlf fuel
    exact absurd (hfuel.symm.trans hnever) (by simp)
  . intro hno
    exact @eolToCrlf_returns [] _ (by simp) hno

theorem fixeolEnd_of_notMem {s : List UInt16} (hlf : LF ∉ s) : fixeolEnd s = s.length ∧ firstLine s = none := by
  induction s with
  | nil => exact ⟨rfl, rfl⟩
  | cons c s ih =>
    obtain ⟨hend, hline⟩ := ih (fun hmem => hlf (List.mem_cons_of_mem _ hmem))
    have hc : c ≠ LF := fun heq => hlf (heq ▸ List.mem_cons_self)
    have hwhole : c :: s ≠ [CR, LF] := by
      intro heq
      exact hlf (heq ▸ by simp)
    have htwo : (c :: s).take 2 ≠ [CR, LF] := by
      intro heq
      exact hlf (List.mem_of_mem_take (heq ▸ (by simp : LF ∈ [CR, LF])))
    unfold fixeolEnd firstLine
    rw [if_neg (not_or_intro hwhole hc), if_neg (not_or_intro hc htwo), hend, hline]
    exact ⟨rfl, rfl⟩

theorem fixeolEnd_append {a : List UInt16} (b : List UInt16) (hlf : LF ∉ a)
    : fixeolEnd (a ++ LF :: b) = if a.getLast? = some CR ∧ b = [] then a.length - 1 else a.length := by
  induction a with
  | nil =>
    rw [List.nil_append, fixeolEnd, if_pos (.inr rfl)]
    simp
  | cons c a ih =>
    have hc : c ≠ LF := fun heq => hlf (heq ▸ List.mem_cons_self)
    rw [List.cons_append, fixeolEnd, ih (fun hmem => hlf (List.mem_cons_of_mem _ hmem))]
    match a with
    | [] =>
      by_cases hend : c = CR ∧ b = []
      . simp [hend.1, hend.2]
      . rw [if_neg, if_neg (by simp), if_neg (by simpa using hend)]
        . rfl
        . simp only [List.nil_append, List.cons_eq_cons, true_and, hc, or_false]
          exact hend
    | c' :: a =>
      have hc' : c' ≠ LF := fun heq => hlf (heq ▸ List.mem_cons_of_mem _ List.mem_cons_self)
      rw [if_neg (by simp [hc, hc']), List.getLast?_cons_cons]
      split
      . simp
      . rfl

theorem firstLine_append {a : List UInt16} (b : List UInt16) (hlf : LF ∉ a)
    : firstLine (a ++ LF :: b) = some (if a.getLast? = some CR then a.dropLast else a) := by
  induction a with
  | nil =>
    rw [List.nil_append, firstLine, if_pos (.inl rfl)]
    simp
  | cons c a ih =>
    have hc : c ≠ LF := fun heq => hlf (heq ▸ List.mem_cons_self)
    rw [List.cons_append, firstLine, ih (fun hmem => hlf (List.mem_cons_of_mem _ hmem))]
    match a with
    | [] =>
      by_cases hcr : c = CR
      . simp [hcr]
      . rw [if_neg (by simp [hc, hcr]), if_neg (by simp), if_neg (by simpa using hcr)]
        rfl
    | c' :: a =>
      have hc' : c' ≠ LF := fun heq => hlf (heq ▸ List.mem_cons_of_mem _ List.mem_cons_self)
      rw [if_neg (by simp [hc, hc']), List.getLast?_cons_cons]
      split
      . simp
      . rfl

theorem append_lf_inj {a a' b b' : List UInt16} (hlf : LF ∉ a) (hlf' : LF ∉ a') (h : a ++ LF :: b = a' ++ LF :: b')
    : a = a' ∧ b = b' := by
  induction a generalizing a' with
  | nil =>
    match a' with
    | [] => exact ⟨rfl, (List.cons_eq_cons.mp h).2⟩
    | c :: a' => exact absurd ((List.cons_eq_cons.mp h).1 ▸ List.mem_cons_self) hlf'
  | cons c a ih =>
    match a' with
    | [] => exact absurd ((List.cons_eq_cons.mp h).1 ▸ List.mem_cons_self) hlf
    | c' :: a' =>
      obtain ⟨hc, hrest⟩ := List.cons_eq_cons.mp h
      obtain ⟨ha, hb⟩ := ih (fun hmem => hlf (List.mem_cons_of_mem _ hmem)) (fun hmem => hlf' (List.mem_cons_of_mem _ hmem)) hrest
      exact ⟨by rw [hc, ha], hb⟩

def FirstEndsInCrlf (s : List UInt16) : Prop :=
  ∀ a b, s = a ++ LF :: b → LF ∉ a → a.getLast? = some CR ∧ b ≠ []

theorem fixeolOk_iff (x : WStr) (y : Option WStr) : FixeolOk x y ↔ FirstEndsInCrlf x.chars := by
  unfold FixeolOk parseFixeol
  simp only []
  rcases lf_cases x.chars with hlf | ⟨a, b, hx, hlf⟩
  . obtain ⟨hend, hline⟩ := fixeolEnd_of_notMem hlf
    rw [hend, hline, if_pos rfl]
    refine ⟨fun _ a b hx _ => absurd (hx ▸ by simp) hlf, fun _ => rfl⟩
  . have hfirst : FirstEndsInCrlf x.chars ↔ a.getLast? = some CR ∧ b ≠ [] := by
      refine ⟨fun h => h a b hx hlf, fun h a' b' hx' hlf' => ?_⟩
      rw [hx] at hx'
      obtain ⟨ha, hb⟩ := append_lf_inj hlf hlf' hx'
      rw [← ha, ← hb]
      exact h
    have htake : ∀ n ≤ a.length, (a ++ LF :: b).take n = a.take n := fun n hn => List.take_append_of_le_length hn
    have hlength : (a ++ LF :: b).length = a.length + (b.length + 1) := List.length_append
    have hend := fixeolEnd_append b hlf
    rw [hfirst, hx, firstLine_append b hlf, hlength, Option.elim_some]
    by_cases hcr : a.getLast? = some CR
    . have hpos : 0 < a.length := by
        by_contra hzero
        have hnil : a = [] := List.length_eq_zero_iff.mp (by omega)
        rw [hnil] at hcr
        exact absurd hcr (by simp)
      rw [if_pos hcr]
      by_cases hb : b = []
      . -- the line end is all that is left
        rw [if_pos ⟨hcr, hb⟩] at hend
        rw [hend, if_neg (by omega)]
        refine ⟨fun h => ?_, fun h => absurd hb h.2⟩
        split at h
        . exact absurd h (by simp)
        . have hlen := congrArg List.length (Option.some.inj h)
          rw [htake _ (by omega), List.length_append, List.length_append, List.length_take, List.length_dropLast] at hlen
          omega
      . rw [if_neg (fun h => hb h.2)] at hend
        rw [hend, if_neg (by omega), if_neg (by omega), htake _ (by omega), ← List.dropLast_eq_take]
        exact ⟨fun _ => ⟨hcr, hb⟩, fun _ => rfl⟩
    . rw [if_neg (fun h => hcr h.1)] at hend
      rw [hend, if_neg hcr, if_neg (by omega)]
      refine ⟨fun h => ?_, fun h => absurd h.1 hcr⟩
      split at h
      . exact absurd h (by simp)
      . have hlen := congrArg List.length (Option.some.inj h)
        rw [htake _ (by omega), List.length_append, List.length_append, List.length_take] at hlen
        omega

theorem fixeol2_returns (r : List UInt16) (rest done : List UInt16) (fuel : Nat) (hfuel : rest.length < fuel)
    : fixeol2 r fuel (done ++ rest) done.length = some (done ++ replaceEols r rest) := by
  match fuel with
  | fuel + 1 =>
    have hdrop : ∀ k, (done ++ rest).drop (done.length + k) = rest.drop k := fun k => List.drop_length_add_append k
    unfold fixeol2
    rw [List.drop_left, List.take_left]
    match rest with
    | [] =>
      rw [if_neg (by simp)]
      simp [replaceEols]
    | c :: s =>
      rw [if_pos (by simp)]
      rw [List.length_cons] at hfuel
      by_cases hlf : c = LF
      . have heol : szEol (c :: s) = some 1 := by
          unfold szEol
          rw [if_pos (by rw [hlf]; rfl)]
        have hrest : replaceEols r (c :: s) = r ++ replaceEols r s := by
          cases s <;> simp [replaceEols, hlf]
        rw [heol, hrest]
        simp only []
        rw [hdrop 1, List.drop_one, List.tail_cons, ← List.length_append, fixeol2_returns r s _ fuel (by omega),
          List.append_assoc]
      . match s with
        | [] =>
          have heol : szEol [c] = none := by simp [szEol, hlf]
          rw [heol]
          simp only []
          have hnext := fixeol2_returns r [] (done ++ [c]) fuel (by simpa using hfuel)
          rw [List.append_nil, List.length_append, List.length_singleton] at hnext
          rw [hnext]
          simp [replaceEols, hlf]
        | c' :: s =>
          by_cases hcrlf : c = CR ∧ c' = LF
          . have heol : szEol (c :: c' :: s) = some 2 := by simp [szEol, hcrlf.1, hcrlf.2, CR, LF]
            have hrest : replaceEols r (c :: c' :: s) = r ++ replaceEols r s := by
              rw [replaceEols, if_neg hlf, if_pos hcrlf]
            rw [List.length_cons] at hfuel
            rw [heol, hrest]
            simp only []
            rw [hdrop 2, ← List.length_append, List.drop_succ_cons, List.drop_one, List.tail_cons,
              fixeol2_returns r s _ fuel (by omega), List.append_assoc]
          . have heol : szEol (c :: c' :: s) = none := by
              unfold szEol
              rw [if_neg (by simpa using hlf), if_neg (by simpa using hcrlf)]
            have hrest : replaceEols r (c :: c' :: s) = c :: replaceEols r (c' :: s) := by
              rw [replaceEols, if_neg hlf, if_neg hcrlf]
            have hnext := fixeol2_returns r (c' :: s) (done ++ [c]) fuel (by omega)
            rw [List.length_append, List.length_singleton, List.append_assoc, List.singleton_append] at hnext
            rw [heol, hrest]
            simp only []
            rw [hnext]
            simp
termination_by fuel

theorem fixeol2Ok (x : WStr) (y : Option WStr) : Fixeol2Ok x y :=
  ⟨x.chars.length + 1, fixeol2_returns _ x.chars [] _ (Nat.lt_succ_self _)⟩

/--
The three functions agree where the first of them comes back, and what the second one cuts off is a line end.
-/
theorem lines_iff (x : WStr) (y : Option WStr)
    : (EolToCrlfOk x ↔ ¬[CR, LF] <:+: x.chars) ∧ (FixeolOk x y ↔ FirstEndsInCrlf x.chars) ∧ Fixeol2Ok x y :=
  ⟨eolToCrlfOk_iff x, fixeolOk_iff x y, fixeol2Ok x y⟩

def dosLine : WStr := ⟨[0x61, CR, LF], by decide⟩

theorem not_lines_dosLine : ¬∀ x y, Lines x y := by
  intro hall
  exact (eolToCrlfOk_iff dosLine).mp (hall dosLine none).1 ⟨[0x61], [], rfl⟩

end Variables.LineEnds
