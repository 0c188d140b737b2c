import Mathlib.Data.List.Basic
import MirandaNG.Data.WStr

/-!
This module contains the aliases of the Variables plugin, and proves for which translations and arguments a call of an
alias is its translation with all parameters replaced at once.
-/

namespace Variables.Aliases

def isOpen (c : UInt16) : Bool := c = 0x28 || c = 0x2C

def isClose (c : UInt16) : Bool := c = 0x29 || c = 0x2C

def argument (s : List UInt16) : List UInt16 := s.takeWhile fun c => !isClose c

def behind (s : List UInt16) : List UInt16 := s.dropWhile fun c => !isClose c

-- The loop of `replaceArguments` on the text from `cur` on: it does not come back to what is in front of that. `none`
-- when `ecur` goes past the end of the text.
def replaceLoop (tArg rArg : List UInt16) : Nat → List UInt16 → Option (List UInt16)
  | 0, _ => none
  | _ + 1, [] => some []
  | fuel + 1, c :: res =>
    if isOpen c then
      if behind res = [] then
        none
      else
        let res := if argument res = tArg then rArg ++ behind res else res
        -- `cur` goes on behind the next character, which is not looked at.
        (replaceLoop tArg rArg fuel (res.drop 1)).map fun rest => c :: (res.take 1 ++ rest)
    else
      (replaceLoop tArg rArg fuel res).map (c :: ·)

def replaceArguments (fuel : Nat) (res tArg rArg : List UInt16) : Option (List UInt16) :=
  if tArg = [] then some res else replaceLoop tArg rArg fuel res

structure ALIASREGISTER where
  szAlias : WStr
  argv : List WStr
  szTranslation : WStr
deriving DecidableEq

def searchAliasRegister (arAliases : List ALIASREGISTER) (szAlias : WStr) : Option ALIASREGISTER :=
  if szAlias.chars = [] then none else arAliases.find? fun it => it.szAlias = szAlias

def replaceParameters (fuel : Nat) : List (WStr × WStr) → List UInt16 → Option (List UInt16)
  | [], res => some res
  | (tArg, rArg) :: params, res =>
    (replaceArguments fuel res tArg.chars rArg.chars).bind (replaceParameters fuel params)

def parseTranslateAlias (fuel : Nat) (arAliases : List ALIASREGISTER) (szAlias : WStr) (argv : List WStr)
    : Option (Option (List UInt16)) :=
  match searchAliasRegister arAliases szAlias with
  | none => some none
  | some areg =>
    if areg.argv.length = argv.length then
      (replaceParameters fuel (areg.argv.zip argv) areg.szTranslation.chars).map some
    else
      some none

def substitute (actual : List UInt16 → Option (List UInt16)) : Nat → List UInt16 → List UInt16
  | _, [] => []
  | skip + 1, _ :: s => substitute actual skip s
  | 0, c :: s =>
    if isOpen c && behind s != [] then
      match actual (argument s) with
      | some rArg => c :: (rArg ++ substitute actual (argument s).length s)
      | none => c :: substitute actual 0 s
    else
      c :: substitute actual 0 s

def actual (params : List (WStr × WStr)) (arg : List UInt16) : Option (List UInt16) :=
  (params.find? fun param => param.1.chars = arg && param.1.chars != []).map fun param => param.2.chars

def Translates (arAliases : List ALIASREGISTER) (szAlias : WStr) (areg : ALIASREGISTER) (argv : List WStr) : Prop :=
  ∃ fuel, parseTranslateAlias fuel arAliases szAlias argv =
    some (some (substitute (actual (areg.argv.zip argv)) 0 areg.szTranslation.chars))

def EveryOpen (P : List UInt16 → Prop) : List UInt16 → Prop
  | [] => True
  | c :: s => (isOpen c → P s) ∧ EveryOpen P s

def Lacks (tArg s : List UInt16) : Prop := EveryOpen (fun rest => argument rest ≠ tArg) s

def Quiet (tArg rArg : List UInt16) : Prop := EveryOpen (fun rest => rest ≠ [] ∧ argument rest ≠ tArg) rArg.tail

def FirstOpen (P : List UInt16 → Prop) : List UInt16 → Prop
  | [] => True
  | c :: s => isOpen c → P s

structure Seen (tArg rArg s : List UInt16) : Prop where
  next : EveryOpen (FirstOpen fun rest => argument rest ≠ tArg) s
  replaced : rArg = [] → EveryOpen (fun rest => argument rest = tArg →
    FirstOpen (fun rest => argument rest ≠ tArg) (behind rest)) s

structure Replaceable (tArg rArg s : List UInt16) : Prop where
  quiet : ¬Lacks tArg s → Quiet tArg rArg
  seen : Seen tArg rArg s

-- What the round for a parameter needs when those in `ps` are replaced in the translation
structure Fits (ps : List (WStr × WStr)) (tArg rArg translation : List UInt16) : Prop where
  paren : 0x28 ∉ tArg
  closed : EveryOpen (fun rest => behind rest ≠ []) translation
  apart : EveryOpen (fun rest => ∀ arg ∈ actual ps (argument rest), argument arg ≠ tArg ∧ Lacks tArg arg) translation
  replaceable : Replaceable tArg rArg (substitute (actual ps) 0 translation)

def AllFit (translation : List UInt16) : List (WStr × WStr) → List (WStr × WStr) → Prop
  | _, [] => True
  | ps, (tArg, rArg) :: params =>
    (tArg.chars ≠ [] → Fits ps tArg.chars rArg.chars translation) ∧ AllFit translation (ps ++ [(tArg, rArg)]) params

instance decidableEveryOpen (P : List UInt16 → Prop) [DecidablePred P] : ∀ s, Decidable (EveryOpen P s)
  | [] => isTrue trivial
  | c :: s =>
    have := decidableEveryOpen P s
    inferInstanceAs (Decidable ((isOpen c → P s) ∧ EveryOpen P s))

instance decidableFirstOpen (P : List UInt16 → Prop) [DecidablePred P] : ∀ s, Decidable (FirstOpen P s)
  | [] => isTrue trivial
  | c :: s => inferInstanceAs (Decidable (isOpen c → P s))

instance (tArg s : List UInt16) : Decidable (Lacks tArg s) := inferInstanceAs (Decidable (EveryOpen _ s))

instance (tArg rArg : List UInt16) : Decidable (Quiet tArg rArg) := inferInstanceAs (Decidable (EveryOpen _ rArg.tail))

variable {P : List UInt16 → Prop} {s t u : List UInt16} {c : UInt16}
variable {σ : List UInt16 → Option (List UInt16)} {tArg rArg : List UInt16}

theorem EveryOpen.of_suffix (h : EveryOpen P s) (hsuffix : t <:+ s) : EveryOpen P t := by
  induction s with
  | nil => rwa [List.suffix_nil.1 hsuffix]
  | cons c s ih =>
    rcases List.suffix_cons_iff.1 hsuffix with rfl | hsuffix
    . exact h
    . exact ih h.2 hsuffix

theorem Replaceable.of_suffix (h : Replaceable tArg rArg s) (hsuffix : t <:+ s) : Replaceable tArg rArg t where
  quiet hlacks := h.quiet fun hall => hlacks (hall.of_suffix hsuffix)
  seen := {
    next := h.seen.next.of_suffix hsuffix
    replaced := fun hempty => (h.seen.replaced hempty).of_suffix hsuffix
  }

theorem suffix_induction {motive : List UInt16 → Prop} (nil : motive [])
    (cons : ∀ c s, (∀ t, t <:+ s → motive t) → motive (c :: s))
    : ∀ s, motive s := by
  have hall : ∀ s, ∀ t, t <:+ s → motive t := by
    intro s
    induction s with
    | nil =>
      intro t ht
      rw [List.suffix_nil.1 ht]
      exact nil
    | cons c s ih =>
      intro t ht
      rcases List.suffix_cons_iff.1 ht with rfl | ht
      . exact cons c s ih
      . exact ih t ht
  exact fun s => hall s s List.suffix_rfl

theorem argument_append_behind (s : List UInt16) : argument s ++ behind s = s := List.takeWhile_append_dropWhile

theorem behind_suffix (s : List UInt16) : behind s <:+ s := List.dropWhile_suffix _

theorem drop_argument (s : List UInt16) : s.drop (argument s).length = behind s := by
  have hsplit := congrArg (List.drop (argument s).length) (argument_append_behind s)
  rwa [List.drop_left, eq_comm] at hsplit

theorem behind_cases (s : List UInt16) : behind s = [] ∨ ∃ c rest, behind s = c :: rest ∧ isClose c := by
  cases hbehind : behind s with
  | nil => exact .inl rfl
  | cons c rest =>
    have hhead := List.head?_dropWhile_not (fun c => !isClose c) s
    unfold behind at hbehind
    rw [hbehind] at hhead
    exact .inr ⟨c, rest, rfl, by simpa using hhead⟩

@[simp]
theorem argument_cons (c : UInt16) (s : List UInt16) : argument (c :: s) = if isClose c then [] else c :: argument s := by
  unfold argument
  cases hclose : isClose c <;> simp [hclose]

@[simp]
theorem behind_cons (c : UInt16) (s : List UInt16) : behind (c :: s) = if isClose c then c :: s else behind s := by
  unfold behind
  cases hclose : isClose c <;> simp [hclose]

theorem argument_append (u : List UInt16) (hc : isClose c) : argument (u ++ c :: s) = argument u := by
  induction u with
  | nil =>
    rw [List.nil_append, argument_cons, if_pos hc]
    rfl
  | cons d u ih => rw [List.cons_append, argument_cons, argument_cons, ih]

theorem behind_append_ne_nil (u : List UInt16) (hc : isClose c) : behind (u ++ c :: s) ≠ [] := by
  induction u with
  | nil =>
    rw [List.nil_append, behind_cons, if_pos hc]
    exact List.cons_ne_nil _ _
  | cons d u ih =>
    rw [List.cons_append, behind_cons]
    split
    . exact List.cons_ne_nil _ _
    . exact ih

/-! ### The substitution -/

theorem substitute_skip (σ : List UInt16 → Option (List UInt16)) (n : Nat) (s : List UInt16)
    : substitute σ n s = substitute σ 0 (s.drop n) := by
  induction s generalizing n with
  | nil => cases n <;> simp [substitute]
  | cons c s ih =>
    cases n with
    | zero => rfl
    | succ n =>
      rw [substitute, ih, List.drop_succ_cons]

theorem substitute_replaced (hc : isOpen c) (hbehind : behind s ≠ []) (hσ : σ (argument s) = some rArg)
    : substitute σ 0 (c :: s) = c :: (rArg ++ substitute σ 0 (behind s)) := by
  rw [substitute, if_pos (by simp [hc, hbehind]), hσ]
  simp only []
  rw [substitute_skip, drop_argument]

theorem substitute_kept (h : isOpen c → behind s ≠ [] → σ (argument s) = none)
    : substitute σ 0 (c :: s) = c :: substitute σ 0 s := by
  rw [substitute]
  split
  . next hopen =>
    rw [Bool.and_eq_true, bne_iff_ne] at hopen
    rw [h hopen.1 hopen.2]
  . rfl

def only (tArg rArg arg : List UInt16) : Option (List UInt16) := if arg = tArg then some rArg else none

theorem substitute_open_of_ne (hne : argument s ≠ tArg)
    : substitute (only tArg rArg) 0 (c :: s) = c :: substitute (only tArg rArg) 0 s :=
  substitute_kept fun _ _ => if_neg hne

theorem substitute_append_of_lacks (hlacks : Lacks tArg u) (hc : isClose c)
    : substitute (only tArg rArg) 0 (u ++ c :: s) = u ++ substitute (only tArg rArg) 0 (c :: s) := by
  induction u with
  | nil => rfl
  | cons d u ih =>
    rw [List.cons_append, substitute_kept, ih hlacks.2]
    . rfl
    . intro hopen _
      refine if_neg ?_
      rw [argument_append u hc]
      exact hlacks.1 hopen

/-! ### The loop -/

theorem replaceLoop_mono {fuel fuel' : Nat} {res : List UInt16} (hle : fuel ≤ fuel')
    (h : replaceLoop tArg rArg fuel s = some res)
    : replaceLoop tArg rArg fuel' s = some res := by
  induction fuel generalizing fuel' s res with
  | zero => cases h
  | succ fuel ih =>
    obtain ⟨fuel', rfl⟩ := Nat.exists_eq_succ_of_ne_zero (show fuel' ≠ 0 by omega)
    cases s with
    | nil => exact h
    | cons c s =>
      rw [replaceLoop] at h ⊢
      split at h
      . next hopen =>
        rw [if_pos hopen]
        split at h
        . cases h
        . next hbehind =>
          rw [if_neg hbehind]
          dsimp only at h ⊢
          obtain ⟨rest, hrest, hres⟩ := Option.map_eq_some_iff.1 h
          rw [ih (Nat.le_of_succ_le_succ hle) hrest, ← hres]
          rfl
      . next hopen =>
        rw [if_neg hopen]
        obtain ⟨rest, hrest, hres⟩ := Option.map_eq_some_iff.1 h
        rw [ih (Nat.le_of_succ_le_succ hle) hrest, ← hres]
        rfl

def Returns (tArg rArg s res : List UInt16) : Prop := ∃ fuel, replaceLoop tArg rArg fuel s = some res

theorem Returns.nil (tArg rArg : List UInt16) : Returns tArg rArg [] [] := ⟨1, rfl⟩

theorem Returns.plain {res : List UInt16} (hopen : ¬isOpen c) (h : Returns tArg rArg s res)
    : Returns tArg rArg (c :: s) (c :: res) := by
  obtain ⟨fuel, hfuel⟩ := h
  refine ⟨fuel + 1, ?_⟩
  rw [replaceLoop, if_neg hopen, hfuel]
  rfl

theorem Returns.kept {d : UInt16} {res : List UInt16} (hopen : isOpen c) (hbehind : behind (d :: s) ≠ [])
    (hne : argument (d :: s) ≠ tArg) (h : Returns tArg rArg s res)
    : Returns tArg rArg (c :: d :: s) (c :: d :: res) := by
  obtain ⟨fuel, hfuel⟩ := h
  refine ⟨fuel + 1, ?_⟩
  rw [replaceLoop, if_pos hopen, if_neg hbehind, if_neg hne]
  simp only [List.drop_succ_cons, List.drop_zero, hfuel, Option.map_some]
  rfl

theorem Returns.replaced {res : List UInt16} (hopen : isOpen c) (hbehind : behind s ≠ []) (heq : argument s = tArg)
    (h : Returns tArg rArg ((rArg ++ behind s).drop 1) res)
    : Returns tArg rArg (c :: s) (c :: ((rArg ++ behind s).take 1 ++ res)) := by
  obtain ⟨fuel, hfuel⟩ := h
  refine ⟨fuel + 1, ?_⟩
  rw [replaceLoop, if_pos hopen, if_neg hbehind, if_pos heq]
  dsimp only
  rw [hfuel]
  rfl

theorem Returns.append {res : List UInt16} (hc : isClose c) (h : Returns tArg rArg (c :: s) res)
    : ∀ u, EveryOpen (fun rest => rest ≠ [] ∧ argument rest ≠ tArg) u → Returns tArg rArg (u ++ c :: s) (u ++ res)
  | [], _ => h
  | d :: u, hquiet => by
    by_cases hopen : isOpen d
    . obtain ⟨hne, harg⟩ := hquiet.1 hopen
      cases u with
      | nil => exact absurd rfl hne
      | cons e u =>
        refine .kept hopen (behind_append_ne_nil (e :: u) hc) ?_ (Returns.append hc h u hquiet.2.2)
        have happend := @argument_append s c (e :: u) hc
        exact fun heq => harg (happend.symm.trans heq)
    . exact .plain hopen (Returns.append hc h u hquiet.2)

theorem returns_of_replaceable (hclosed : EveryOpen (fun rest => behind rest ≠ []) s)
    (hreplaceable : Replaceable tArg rArg s)
    : Returns tArg rArg s (substitute (only tArg rArg) 0 s) := by
  induction s using suffix_induction with
  | nil => exact .nil tArg rArg
  | cons c s ih =>
    have hrest : ∀ t, t <:+ s → Returns tArg rArg t (substitute (only tArg rArg) 0 t) := by
      intro t ht
      have ht' := ht.trans (List.suffix_cons c s)
      exact ih t ht (hclosed.of_suffix ht') (hreplaceable.of_suffix ht')
    by_cases hopen : isOpen c
    . have hbehind := hclosed.1 hopen
      by_cases heq : argument s = tArg
      . rw [substitute_replaced hopen hbehind (if_pos heq)]
        have hlacks : ¬Lacks tArg (c :: s) := fun hlacks => hlacks.1 hopen heq
        obtain hnil | ⟨e, rest, hend, he⟩ := behind_cases s
        . exact absurd hnil hbehind
        have hsuffix := behind_suffix s
        rw [hend] at hsuffix ⊢
        cases rArg with
        | nil =>
          have he' : substitute (only tArg []) 0 (e :: rest) = e :: substitute (only tArg []) 0 rest := by
            have hne := (hreplaceable.seen.replaced rfl).1 hopen heq
            rw [hend] at hne
            exact substitute_kept fun heopen _ => if_neg (hne heopen)
          have hround := hrest rest ((List.suffix_cons e rest).trans hsuffix)
          have hreturns := @Returns.replaced s c tArg [] _ hopen hbehind heq (by rw [hend]; exact hround)
          rw [hend] at hreturns
          rw [he']
          exact hreturns
        | cons d r =>
          have hround := Returns.append he (hrest (e :: rest) hsuffix) r (hreplaceable.quiet hlacks)
          have hreturns := @Returns.replaced s c tArg (d :: r) _ hopen hbehind heq (by rw [hend]; exact hround)
          rw [hend] at hreturns
          exact hreturns
      . rw [substitute_open_of_ne heq]
        cases s with
        | nil => exact absurd rfl hbehind
        | cons d s =>
          have hnext := hreplaceable.seen.next.1 hopen
          rw [substitute_kept fun hd _ => if_neg (hnext hd)]
          exact .kept hopen hbehind heq (hrest s (List.suffix_cons d s))
    . rw [substitute_kept fun h => absurd h hopen]
      exact .plain hopen (hrest s List.suffix_rfl)

/-! ### Parameter after parameter -/

theorem substitute_cons (σ : List UInt16 → Option (List UInt16)) (c : UInt16) (s : List UInt16)
    : ∃ rest, substitute σ 0 (c :: s) = c :: rest := by
  rw [substitute]
  split
  . split
    . exact ⟨_, rfl⟩
    . exact ⟨_, rfl⟩
  . exact ⟨_, rfl⟩

theorem isOpen_of_not_close (hclose : ¬isClose c) : isOpen c ↔ c = 0x28 := by
  unfold isOpen isClose at *
  rw [Bool.or_eq_true, decide_eq_true_iff, decide_eq_true_iff] at *
  exact or_iff_left fun h => hclose (.inr h)

theorem argument_substitute (ht : 0x28 ∉ t) : argument (substitute σ 0 s) = t ↔ argument s = t := by
  induction s generalizing t with
  | nil => rfl
  | cons c s ih =>
    by_cases hclose : isClose c
    . obtain ⟨rest, hrest⟩ := substitute_cons σ c s
      rw [hrest, argument_cons, argument_cons, if_pos hclose, if_pos hclose]
    . by_cases hparen : c = 0x28
      . obtain ⟨rest, hrest⟩ := substitute_cons σ c s
        rw [hrest, argument_cons, argument_cons, if_neg hclose, if_neg hclose]
        have hne : ∀ args, c :: args ≠ t := by
          rintro args rfl
          exact ht (hparen ▸ List.mem_cons_self)
        exact iff_of_false (hne _) (hne _)
      . rw [substitute_kept fun hopen => absurd ((isOpen_of_not_close hclose).1 hopen) hparen, argument_cons, argument_cons,
          if_neg hclose, if_neg hclose]
        cases t with
        | nil => exact iff_of_false (List.cons_ne_nil _ _) (List.cons_ne_nil _ _)
        | cons d t =>
          rw [List.cons.injEq, List.cons.injEq, ih fun hmem => ht (List.mem_cons_of_mem _ hmem)]

theorem behind_substitute (hparen : 0x28 ∉ argument s) : behind (substitute σ 0 s) = substitute σ 0 (behind s) := by
  induction s with
  | nil => rfl
  | cons c s ih =>
    by_cases hclose : isClose c
    . obtain ⟨rest, hrest⟩ := substitute_cons σ c s
      rw [behind_cons, if_pos hclose, hrest, behind_cons, if_pos hclose]
    . rw [argument_cons, if_neg hclose, List.mem_cons, not_or] at hparen
      have hopen : ¬isOpen c := fun hopen => hparen.1 ((isOpen_of_not_close hclose).1 hopen).symm
      rw [substitute_kept fun h => absurd h hopen, behind_cons, behind_cons, if_neg hclose, if_neg hclose]
      exact ih hparen.2

theorem substitute_substitute (hparen : 0x28 ∉ tArg) (hclosed : EveryOpen (fun rest => behind rest ≠ []) s)
    (hapart : EveryOpen (fun rest => ∀ r ∈ σ (argument rest), argument r ≠ tArg ∧ Lacks tArg r) s)
    : substitute (only tArg rArg) 0 (substitute σ 0 s) =
        substitute (fun arg => (σ arg).or (only tArg rArg arg)) 0 s := by
  induction s using suffix_induction with
  | nil => rfl
  | cons c s ih =>
    have hrest : ∀ t, t <:+ s → substitute (only tArg rArg) 0 (substitute σ 0 t) =
        substitute (fun arg => (σ arg).or (only tArg rArg arg)) 0 t := by
      intro t ht
      have ht' := ht.trans (List.suffix_cons c s)
      exact ih t ht (hclosed.of_suffix ht') (hapart.of_suffix ht')
    by_cases hopen : isOpen c
    . have hbehind := hclosed.1 hopen
      have hround := hrest (behind s) (behind_suffix s)
      obtain hnil | ⟨e, rest, hend, he⟩ := behind_cases s
      . exact absurd hnil hbehind
      obtain ⟨rest', hrest'⟩ := substitute_cons σ e rest
      cases hσ : σ (argument s) with
      | some r =>
        obtain ⟨hne, hlacks⟩ := hapart.1 hopen r hσ
        rw [substitute_replaced hopen hbehind hσ, @substitute_replaced _ _ _ r hopen hbehind (by rw [hσ]; rfl), ← hround,
          hend, hrest', substitute_open_of_ne (by rwa [argument_append r he]), substitute_append_of_lacks hlacks he]
      | none =>
        rw [@substitute_kept _ _ σ fun _ _ => hσ]
        by_cases heq : argument s = tArg
        . have hbehind' : behind (substitute σ 0 s) = substitute σ 0 (behind s) := behind_substitute (heq ▸ hparen)
          have hne : behind (substitute σ 0 s) ≠ [] := by
            rw [hbehind', hend, hrest']
            exact List.cons_ne_nil _ _
          rw [substitute_replaced hopen hne (if_pos ((argument_substitute hparen).2 heq)), hbehind', hround,
            @substitute_replaced _ _ _ rArg hopen hbehind (by rw [hσ]; exact if_pos heq)]
        . rw [substitute_open_of_ne fun h => heq ((argument_substitute hparen).1 h), hrest s List.suffix_rfl]
          refine (substitute_kept fun _ _ => ?_).symm
          rw [hσ]
          exact if_neg heq
    . rw [substitute_kept fun h => absurd h hopen, substitute_kept fun h => absurd h hopen, hrest s List.suffix_rfl,
        substitute_kept fun h => absurd h hopen]

theorem closed_append (hc : isClose c) (h : EveryOpen (fun rest => behind rest ≠ []) (c :: s)) (u : List UInt16)
    : EveryOpen (fun rest => behind rest ≠ []) (u ++ c :: s) := by
  induction u with
  | nil => exact h
  | cons d u ih => exact ⟨fun _ => behind_append_ne_nil u hc, ih⟩

theorem behind_cons_ne_nil (c : UInt16) (h : behind s ≠ []) : behind (c :: s) ≠ [] := by
  rw [behind_cons]
  split
  . exact List.cons_ne_nil _ _
  . exact h

theorem closed_substitute (σ : List UInt16 → Option (List UInt16)) (hclosed : EveryOpen (fun rest => behind rest ≠ []) s)
    : EveryOpen (fun rest => behind rest ≠ []) (substitute σ 0 s) := by
  have hboth : EveryOpen (fun rest => behind rest ≠ []) (substitute σ 0 s) ∧
      (behind s ≠ [] → behind (substitute σ 0 s) ≠ []) := by
    induction s using suffix_induction with
    | nil => exact ⟨trivial, id⟩
    | cons c s ih =>
      have hround := ih s List.suffix_rfl hclosed.2
      by_cases hkept : isOpen c → behind s ≠ [] → σ (argument s) = none
      . rw [substitute_kept hkept]
        refine ⟨⟨fun hopen => hround.2 (hclosed.1 hopen), hround.1⟩, fun hbehind => ?_⟩
        rw [behind_cons] at hbehind ⊢
        split
        . exact List.cons_ne_nil _ _
        . next hclose =>
          rw [if_neg hclose] at hbehind
          exact hround.2 hbehind
      . push Not at hkept
        obtain ⟨hopen, hbehind, hσ⟩ := hkept
        obtain ⟨r, hr⟩ := Option.ne_none_iff_exists'.1 hσ
        have hlast := (ih (behind s) (behind_suffix s) (hclosed.2.of_suffix (behind_suffix s))).1
        obtain hnil | ⟨e, rest, hend, he⟩ := behind_cases s
        . exact absurd hnil hbehind
        obtain ⟨rest', hrest'⟩ := substitute_cons σ e rest
        rw [substitute_replaced hopen hbehind hr]
        rw [hend, hrest'] at hlast ⊢
        exact ⟨⟨fun _ => behind_append_ne_nil r he, closed_append he hlast r⟩,
          fun _ => behind_cons_ne_nil c (behind_append_ne_nil r he)⟩
  exact hboth.1

theorem substitute_nothing (hσ : ∀ arg, σ arg = none) (s : List UInt16) : substitute σ 0 s = s := by
  induction s with
  | nil => rfl
  | cons c s ih => rw [substitute_kept fun _ _ => hσ _, ih]

theorem actual_concat (ps : List (WStr × WStr)) (tArg rArg : WStr)
    : actual (ps ++ [(tArg, rArg)]) = if tArg.chars = [] then actual ps else
        fun arg => (actual ps arg).or (only tArg.chars rArg.chars arg) := by
  funext arg
  have hor : actual (ps ++ [(tArg, rArg)]) arg = (actual ps arg).or (actual [(tArg, rArg)] arg) := by
    unfold actual
    rw [List.find?_append, Option.map_or]
  rw [hor]
  split
  . next hempty =>
    have hnone : actual [(tArg, rArg)] arg = none := by simp [actual, hempty]
    rw [hnone, Option.or_none]
  . next hempty =>
    have hone : actual [(tArg, rArg)] arg = only tArg.chars rArg.chars arg := by
      unfold actual only
      by_cases heq : arg = tArg.chars
      . simp [heq, hempty]
      . simp [heq, Ne.symm heq]
    rw [hone]

theorem replaceParameters_mono {fuel fuel' : Nat} (hle : fuel ≤ fuel') (params : List (WStr × WStr))
    : ∀ {s res : List UInt16}, replaceParameters fuel params s = some res →
        replaceParameters fuel' params s = some res := by
  induction params with
  | nil => exact id
  | cons param params ih =>
    intro s res h
    rw [replaceParameters] at h ⊢
    obtain ⟨next, hnext, hres⟩ := Option.bind_eq_some_iff.1 h
    refine Option.bind_eq_some_iff.2 ⟨next, ?_, ih hres⟩
    unfold replaceArguments at hnext ⊢
    split
    . next hempty => rwa [if_pos hempty] at hnext
    . next hempty =>
      rw [if_neg hempty] at hnext
      exact replaceLoop_mono hle hnext

theorem replaceParameters_of_allFit {translation : List UInt16} (params : List (WStr × WStr))
    : ∀ ps, AllFit translation ps params → ∃ fuel, replaceParameters fuel params (substitute (actual ps) 0 translation) =
        some (substitute (actual (ps ++ params)) 0 translation) := by
  induction params with
  | nil =>
    intro ps _
    refine ⟨0, ?_⟩
    rw [List.append_nil]
    rfl
  | cons param params ih =>
    intro ps hfit
    obtain ⟨tArg, rArg⟩ := param
    obtain ⟨fuel, hfuel⟩ := ih _ hfit.2
    rw [List.append_assoc, List.singleton_append] at hfuel
    by_cases hempty : tArg.chars = []
    . refine ⟨fuel, ?_⟩
      rw [actual_concat, if_pos hempty] at hfuel
      rw [replaceParameters, replaceArguments, if_pos hempty]
      exact hfuel
    . have hfits := hfit.1 hempty
      obtain ⟨fuel', hfuel'⟩ := returns_of_replaceable (closed_substitute _ hfits.closed) hfits.replaceable
      rw [actual_concat, if_neg hempty, ← substitute_substitute hfits.paren hfits.closed hfits.apart] at hfuel
      refine ⟨max fuel fuel', ?_⟩
      rw [replaceParameters, replaceArguments, if_neg hempty, replaceLoop_mono (Nat.le_max_right _ _) hfuel']
      exact replaceParameters_mono (Nat.le_max_left _ _) params hfuel

theorem translates_of_allFit {arAliases : List ALIASREGISTER} {szAlias : WStr} {areg : ALIASREGISTER} {argv : List WStr}
    (hareg : searchAliasRegister arAliases szAlias = some areg) (hargc : areg.argv.length = argv.length)
    (hfit : AllFit areg.szTranslation.chars [] (areg.argv.zip argv))
    : Translates arAliases szAlias areg argv := by
  obtain ⟨fuel, hfuel⟩ := replaceParameters_of_allFit _ [] hfit
  have hnone : ∀ arg, actual [] arg = none := fun _ => rfl
  rw [substitute_nothing hnone, List.nil_append] at hfuel
  refine ⟨fuel, ?_⟩
  unfold parseTranslateAlias
  rw [hareg]
  dsimp only
  rw [if_pos hargc, hfuel]
  rfl

/-! ### A '(' without an end -/

theorem behind_append (u : List UInt16) (hv : behind s = []) : behind (u ++ s) = [] ∨
    ∃ d rest, behind (u ++ s) = d :: (rest ++ s) ∧ behind u = d :: rest := by
  induction u with
  | nil => exact .inl hv
  | cons c u ih =>
    rw [List.cons_append, behind_cons, behind_cons]
    split
    . exact .inr ⟨c, u, rfl, rfl⟩
    . exact ih

theorem replaceLoop_open (hv : behind s = []) (fuel : Nat)
    : ∀ u, replaceLoop tArg rArg fuel (u ++ 0x28 :: s) = none := by
  have hv' : behind (0x28 :: s) = [] := by
    rw [behind_cons, if_neg (by decide)]
    exact hv
  induction fuel with
  | zero => exact fun _ => rfl
  | succ fuel ih =>
    intro u
    cases u with
    | nil =>
      rw [List.nil_append, replaceLoop, if_pos (by decide), if_pos hv]
    | cons c u =>
      rw [List.cons_append, replaceLoop]
      split
      . rcases behind_append u hv' with hnil | ⟨d, rest, hrest, hu⟩
        . rw [if_pos hnil]
        . rw [if_neg (by rw [hrest]; exact List.cons_ne_nil _ _)]
          dsimp only
          rw [Option.map_eq_none_iff]
          split
          . rw [hrest]
            cases rArg with
            | nil => exact ih rest
            | cons e r =>
              have hdrop : ((e :: r) ++ d :: (rest ++ 0x28 :: s)).drop 1 = (r ++ d :: rest) ++ 0x28 :: s := by
                simp
              rw [hdrop]
              exact ih _
          . cases u with
            | nil => cases hu
            | cons e u => exact ih u
      . rw [ih u]
        rfl

theorem replaceParameters_open (hv : behind s = []) (u : List UInt16) (fuel : Nat) (params : List (WStr × WStr))
    (hparams : ∃ param ∈ params, param.1.chars ≠ [])
    : replaceParameters fuel params (u ++ 0x28 :: s) = none := by
  induction params with
  | nil =>
    obtain ⟨param, hmem, -⟩ := hparams
    cases hmem
  | cons param params ih =>
    rw [replaceParameters]
    unfold replaceArguments
    split
    . next hempty =>
      refine ih ?_
      obtain ⟨other, hmem, hother⟩ := hparams
      rcases List.mem_cons.1 hmem with rfl | hmem
      . exact absurd hempty hother
      . exact ⟨other, hmem, hother⟩
    . rw [replaceLoop_open hv fuel u]
      rfl

theorem closed_of_translates {arAliases : List ALIASREGISTER} {szAlias : WStr} {areg : ALIASREGISTER} {argv : List WStr}
    (hareg : searchAliasRegister arAliases szAlias = some areg) (hargc : areg.argv.length = argv.length)
    (hname : ∃ name ∈ areg.argv, name.chars ≠ []) (h : Translates arAliases szAlias areg argv)
    : ∀ u v, areg.szTranslation.chars = u ++ 0x28 :: v → behind v ≠ [] := by
  intro u v htext hv
  obtain ⟨fuel, hfuel⟩ := h
  obtain ⟨name, hmem, hne⟩ := hname
  have hparams : ∃ param ∈ areg.argv.zip argv, param.1.chars ≠ [] := by
    obtain ⟨i, hi, rfl⟩ := List.getElem_of_mem hmem
    have hi' : i < (areg.argv.zip argv).length := by
      rw [List.length_zip]
      omega
    refine ⟨(areg.argv.zip argv)[i], List.getElem_mem hi', ?_⟩
    rw [List.getElem_zip]
    exact hne
  unfold parseTranslateAlias at hfuel
  rw [hareg] at hfuel
  dsimp only at hfuel
  rw [if_pos hargc, htext, replaceParameters_open hv u fuel _ hparams] at hfuel
  cases hfuel

def twoParameters : ALIASREGISTER := ⟨.lit "foo", [.lit "x", .lit "y"], .lit "f(x,y)"⟩

theorem allFit_twoParameters
    : AllFit twoParameters.szTranslation.chars [] (twoParameters.argv.zip [.lit "a", .lit "g(b)"]) := by
  have hnone : ∀ arg, actual [] arg = none := fun _ => rfl
  have hx : substitute (actual [(.lit "x", .lit "a")]) 0 (WStr.lit "f(x,y)").chars = (WStr.lit "f(a,y)").chars := by
    decide
  refine ⟨fun _ => ⟨by decide, by decide, by decide, ?_⟩,
    fun _ => ⟨by decide, by decide, by decide, ?_⟩, trivial⟩
  . rw [substitute_nothing hnone]
    exact ⟨by decide, by decide, by decide⟩
  . have htext : substitute (actual ([] ++ [(.lit "x", .lit "a")])) 0 twoParameters.szTranslation.chars =
        (WStr.lit "f(a,y)").chars := hx
    rw [htext]
    exact ⟨by decide, by decide, by decide⟩

def oneParameter : ALIASREGISTER := ⟨.lit "foo", [.lit "x"], .lit "(x)"⟩

theorem replaceLoop_eq_none (fuel : Nat)
    : ∀ s, replaceLoop (WStr.lit "x").chars (WStr.lit "f(x)").chars fuel ((WStr.lit "(x)").chars ++ s) = none := by
  have hname : (WStr.lit "x").chars = [0x78] := by decide
  have hargument : (WStr.lit "f(x)").chars = [0x66, 0x28, 0x78, 0x29] := by decide
  have htext : (WStr.lit "(x)").chars = [0x28, 0x78, 0x29] := by decide
  rw [hname, hargument, htext]
  induction fuel with
  | zero => exact fun _ => rfl
  | succ fuel ih =>
    intro s
    have hround := ih (0x29 :: s)
    simpa [replaceLoop, isOpen, isClose] using hround

end Variables.Aliases
