import MirandaNG.Variables.Format

/-!
This module contains what the arguments of a call are: the parts between commas of the text up to the parenthesis that
matches the first one, where text in quotation marks counts neither for parentheses nor for commas. It proves when
`getArguments` finds them.
-/

namespace Variables

def bracket (c : UInt16) : Int := if c = 0x28 then 1 else if c = 0x29 then -1 else 0

def nestingStep (st : Bool × Int) (c : UInt16) : Bool × Int :=
  if c = DONTPARSE_CHAR then (!st.1, st.2) else if st.1 then st else (st.1, st.2 + bracket c)

def nesting (s : List UInt16) : Bool × Int := s.foldl nestingStep (false, 0)

structure Closes (inner : List UInt16) : Prop where
  settled : nesting inner = (false, 0)
  nested : ∀ p, p <+: inner → 0 ≤ (nesting p).2

structure Begun (arg : List UInt16) (q : Bool) (b : Nat) : Prop where
  scanned : nesting arg = (q, (b : Int))
  nested : ∀ p, p <+: arg → 0 ≤ (nesting p).2
  noComma : ∀ p, p ++ [0x2C] <+: arg → nesting p ≠ (false, 0)

def Argument (a : List UInt16) : Prop := Begun a false 0

inductive Arguments : List UInt16 → List (List UInt16) → Prop
  | last {a : List UInt16} : Argument a → Arguments a [a]
  | comma {a inner : List UInt16} {args : List (List UInt16)}
    : Argument a → Arguments inner args → Arguments (a ++ 0x2C :: inner) (a :: args)

variable {a a' arg inner inner' p rest rest' s : List UInt16} {args args' : List (List UInt16)} {c : UInt16} {q : Bool}
  {b : Nat}

theorem nesting_nil : nesting [] = (false, 0) := rfl

theorem nesting_snoc (s : List UInt16) (c : UInt16) : nesting (s ++ [c]) = nestingStep (nesting s) c := List.foldl_concat ..

theorem Begun.nil : Begun [] false 0 where
  scanned := rfl
  nested := by
    intro p hp
    rw [List.prefix_nil.1 hp, nesting_nil]
  noComma := by
    intro p hp
    cases p with
    | nil => exact absurd (List.prefix_nil.1 hp) nofun
    | cons c p => exact absurd (List.prefix_nil.1 hp) nofun

theorem Begun.snoc {q' : Bool} {b' : Nat} (h : Begun arg q b) (hstep : nestingStep (q, b) c = (q', (b' : Int)))
    (hc : c = 0x2C → (q, (b : Int)) ≠ (false, 0))
    : Begun (arg ++ [c]) q' b' where
  scanned := by rw [nesting_snoc, h.scanned, hstep]
  nested := by
    intro p hp
    rcases List.prefix_concat_iff.1 hp with rfl | hp
    . rw [nesting_snoc, h.scanned, hstep]
      exact Int.natCast_nonneg b'
    . exact h.nested p hp
  noComma := by
    intro p hp
    rcases List.prefix_concat_iff.1 hp with heq | hp
    . obtain ⟨rfl, hlast⟩ := List.append_inj' heq rfl
      cases hlast
      rw [h.scanned]
      exact hc rfl
    . exact h.noComma p hp

theorem Argument.closes (h : Argument a) : Closes a := ⟨h.scanned, h.nested⟩

theorem nesting_append (h : nesting a = (false, 0)) (s : List UInt16) : nesting (a ++ s) = nesting s := by
  unfold nesting at h ⊢
  rw [List.foldl_append, h]

theorem nesting_comma (h : nesting a = (false, 0)) (s : List UInt16) : nesting (a ++ 0x2C :: s) = nesting s := by
  have hcomma : nesting (a ++ [0x2C]) = (false, 0) := by
    rw [nesting_snoc, h]
    rfl
  rw [List.append_cons, nesting_append hcomma]

theorem Closes.comma_iff (h : Argument a) : Closes (a ++ 0x2C :: s) ↔ Closes s := by
  constructor
  . intro hcloses
    refine ⟨nesting_comma h.scanned s ▸ hcloses.settled, ?_⟩
    intro p hp
    rw [← nesting_comma h.scanned]
    apply hcloses.nested
    rw [List.prefix_append_right_inj, List.prefix_cons_inj]
    exact hp
  . intro hcloses
    refine ⟨(nesting_comma h.scanned s).trans hcloses.settled, ?_⟩
    intro p hp
    obtain ⟨r, hr⟩ := hp
    rcases List.append_eq_append_iff.1 hr with ⟨t, ha, -⟩ | ⟨t, rfl, ht⟩
    . exact h.nested p ⟨t, ha.symm⟩
    . cases t with
      | nil =>
        rw [List.append_nil]
        exact h.nested a List.prefix_rfl
      | cons d t =>
        obtain ⟨rfl, hs⟩ := List.cons.inj ht
        rw [nesting_comma h.scanned]
        exact hcloses.nested t ⟨r, hs.symm⟩

theorem Arguments.closes (h : Arguments inner args) : Closes inner := by
  induction h with
  | last ha => exact ha.closes
  | comma ha _ ih => exact (Closes.comma_iff ha).2 ih

theorem Closes.not_prefix (h : Closes inner) (h' : Closes inner') : ¬inner ++ [0x29] <+: inner' := by
  intro hp
  have hneg := h'.nested _ hp
  rw [nesting_snoc, h.settled] at hneg
  exact absurd hneg (by decide)

theorem Closes.unique (h : Closes inner) (h' : Closes inner') (heq : inner ++ 0x29 :: rest = inner' ++ 0x29 :: rest')
    : inner = inner' ∧ rest = rest' := by
  rcases List.append_eq_append_iff.1 heq with ⟨t, hinner, ht⟩ | ⟨t, hinner, ht⟩
  . cases t with
    | nil =>
      cases ht
      exact ⟨by rw [hinner, List.append_nil], rfl⟩
    | cons d t =>
      obtain ⟨rfl, -⟩ := List.cons.inj ht
      exact absurd ⟨t, by rw [hinner, List.append_assoc]; rfl⟩ (h.not_prefix h')
  . cases t with
    | nil =>
      cases ht
      exact ⟨by rw [hinner, List.append_nil], rfl⟩
    | cons d t =>
      obtain ⟨rfl, -⟩ := List.cons.inj ht
      exact absurd ⟨t, by rw [hinner, List.append_assoc]; rfl⟩ (h'.not_prefix h)

theorem Argument.not_prefix (h : Argument a) (h' : Argument a') : ¬a ++ [0x2C] <+: a' :=
  fun hp => h'.noComma a hp h.scanned

theorem Arguments.unique (h : Arguments inner args) (h' : Arguments inner args') : args = args' := by
  induction h generalizing args' with
  | @last a ha =>
    generalize hinner : a = inner' at h'
    cases h' with
    | last => rfl
    | @comma a' inner'' args' ha' =>
      exact absurd ⟨inner'', by rw [hinner, List.append_assoc]; rfl⟩ (ha'.not_prefix ha)
  | @comma a inner args ha hargs ih =>
    generalize hinner : a ++ 0x2C :: inner = inner' at h'
    cases h' with
    | @last a' ha' =>
      exact absurd ⟨inner, by rw [← hinner, List.append_assoc]; rfl⟩ (ha.not_prefix ha')
    | @comma a' inner'' args' ha' hargs' =>
      rcases List.append_eq_append_iff.1 hinner with ⟨t, ha'eq, ht⟩ | ⟨t, haeq, ht⟩
      . cases t with
        | nil =>
          cases ht
          rw [ha'eq, List.append_nil, ih hargs']
        | cons d t =>
          obtain ⟨rfl, -⟩ := List.cons.inj ht
          exact absurd ⟨t, by rw [ha'eq, List.append_assoc]; rfl⟩ (ha.not_prefix ha')
      . cases t with
        | nil =>
          cases ht
          rw [haeq, List.append_nil, ih hargs']
        | cons d t =>
          obtain ⟨rfl, -⟩ := List.cons.inj ht
          exact absurd ⟨t, by rw [haeq, List.append_assoc]; rfl⟩ (ha'.not_prefix ha)

def Parsed (last : UInt16) (arg : List UInt16) (argv : List WStr) (s : List UInt16)
    (result : Option (List WStr × List UInt16)) : Prop :=
  (∃ inner args rest, s = inner ++ 0x29 :: rest ∧ Arguments (arg ++ inner) args ∧
      result = some (argv ++ args.map WStr.ofMem, rest)) ∨
    (∀ inner rest, s = inner ++ 0x29 :: rest → ¬Closes (arg ++ inner)) ∧
      ∃ argv', result = if s.getLast?.getD last = 0x29 then some (argv', []) else none

theorem getLast?_cons_getD (c last : UInt16) (s : List UInt16) : (c :: s).getLast?.getD last = s.getLast?.getD c := by
  rw [List.getLast?_cons, Option.getD_some]

theorem Parsed.cons {last : UInt16} {argv : List WStr} {result : Option (List WStr × List UInt16)}
    (h : Parsed c (arg ++ [c]) argv s result) (hc : c = 0x29 → ¬Closes arg)
    : Parsed last arg argv (c :: s) result := by
  rcases h with ⟨inner, args, rest, rfl, hargs, hresult⟩ | ⟨hnone, argv', hresult⟩
  . refine .inl ⟨c :: inner, args, rest, rfl, ?_, hresult⟩
    rwa [List.append_cons]
  . refine .inr ⟨?_, argv', ?_⟩
    . intro inner rest heq
      cases inner with
      | nil =>
        obtain ⟨rfl, -⟩ := List.cons.inj heq
        rw [List.append_nil]
        exact hc rfl
      | cons d inner =>
        obtain ⟨rfl, hs⟩ := List.cons.inj heq
        rw [List.append_cons]
        exact hnone inner rest hs
    . rw [getLast?_cons_getD, hresult]

theorem Parsed.comma {last : UInt16} {argv : List WStr} {result : Option (List WStr × List UInt16)} (harg : Argument arg)
    (h : Parsed 0x2C [] (argv ++ [WStr.ofMem arg]) s result)
    : Parsed last arg argv (0x2C :: s) result := by
  rcases h with ⟨inner, args, rest, rfl, hargs, hresult⟩ | ⟨hnone, argv', hresult⟩
  . refine .inl ⟨0x2C :: inner, arg :: args, rest, rfl, .comma harg hargs, ?_⟩
    rw [hresult, List.append_assoc]
    rfl
  . refine .inr ⟨?_, argv', ?_⟩
    . intro inner rest heq
      cases inner with
      | nil => exact absurd (List.cons.inj heq).1 (by decide)
      | cons d inner =>
        obtain ⟨rfl, hs⟩ := List.cons.inj heq
        rw [Closes.comma_iff harg]
        exact hnone inner rest hs
    . rw [getLast?_cons_getD, hresult]

theorem Begun.not_closes (h : Begun arg q b) (hopen : (q, (b : Int)) ≠ (false, 0)) : ¬Closes arg :=
  fun hcloses => hopen (h.scanned.symm.trans hcloses.settled)

theorem argumentRounds_parsed (last : UInt16) (argv : List WStr) (h : Begun arg q b) (s : List UInt16)
    : Parsed last arg argv s (argumentRounds last b q arg argv s) := by
  induction s generalizing last arg q b argv with
  | nil => exact .inr ⟨fun inner rest heq => absurd heq (by simp), argv, rfl⟩
  | cons c s ih =>
    have hother : c ≠ 0x28 → c ≠ 0x29 → bracket c = 0 := by
      intro hopen hclose
      rw [bracket, if_neg hopen, if_neg hclose]
    rw [argumentRounds]
    by_cases hquote : c = DONTPARSE_CHAR
    . rw [if_pos hquote]
      refine (ih c argv (h.snoc (by rw [nestingStep, if_pos hquote]) ?_)).cons ?_
      . rw [hquote]
        exact fun hc => absurd hc (by decide)
      . rw [hquote]
        exact fun hc => absurd hc (by decide)
    rw [if_neg hquote]
    cases q with
    | true =>
      simp only [Bool.not_true, Bool.and_false, Bool.false_and, Bool.false_eq_true, if_false]
      have hstep : nestingStep (true, (b : Int)) c = (true, (b : Int)) := by rw [nestingStep, if_neg hquote]; rfl
      exact (ih c argv (h.snoc hstep fun _ => nofun)).cons fun _ => h.not_closes nofun
    | false =>
      have hstep : nestingStep (false, (b : Int)) c = (false, (b : Int) + bracket c) := by
        rw [nestingStep, if_neg hquote]
        rfl
      simp only [Bool.not_false, Bool.and_true, Bool.and_eq_true, decide_eq_true_eq]
      by_cases hcomma : c = 0x2C ∧ b = 0
      . rw [if_pos hcomma]
        obtain ⟨rfl, rfl⟩ := hcomma
        exact (ih 0x2C _ .nil).comma h
      rw [if_neg hcomma]
      by_cases hopen : c = 0x28
      . rw [if_pos hopen]
        subst hopen
        exact (ih 0x28 argv (h.snoc hstep nofun)).cons nofun
      rw [if_neg hopen]
      by_cases hclose : c = 0x29
      . subst hclose
        by_cases hb : b = 0
        . subst hb
          rw [if_pos ⟨rfl, rfl⟩]
          refine .inl ⟨[], [arg], s, rfl, ?_, rfl⟩
          rw [List.append_nil]
          exact .last h
        . rw [if_neg fun hand => hb hand.2, if_pos rfl]
          have hb' : ((b - 1 : Nat) : Int) = b - 1 := by omega
          have hstep' : nestingStep (false, (b : Int)) 0x29 = (false, ((b - 1 : Nat) : Int)) := by
            rw [hstep, hb']
            rfl
          refine (ih 0x29 argv (h.snoc hstep' nofun)).cons fun _ => h.not_closes ?_
          rw [Ne, Prod.mk.injEq]
          omega
      . rw [if_neg fun hand => hclose hand.1, if_neg hclose]
        rw [hother hopen hclose, add_zero] at hstep
        refine (ih c argv (h.snoc hstep ?_)).cons fun hc => absurd hc hclose
        exact fun hc heq => hcomma ⟨hc, Int.natCast_eq_zero.1 (Prod.mk.inj heq).2⟩

def ParsesArguments (spaces : Nat) (text : WStr) : Prop :=
  ∀ argv rest, getArguments (List.replicate spaces 0x20 ++ 0x28 :: text.chars) = some (argv, rest) ↔
    ∃ inner, text.chars = inner ++ 0x29 :: rest ∧ Closes inner ∧ Arguments inner (argv.map (·.chars))

def Matched (text : WStr) : Prop := ∃ inner rest, text.chars = inner ++ 0x29 :: rest ∧ Closes inner

theorem getArguments_eq (spaces : Nat) (s : List UInt16)
    : getArguments (List.replicate spaces 0x20 ++ 0x28 :: s) = argumentRounds 0x28 0 false [] [] s := by
  have hdrop : (List.replicate spaces 0x20 ++ 0x28 :: s).dropWhile (fun c => decide (c = 0x20)) = 0x28 :: s := by
    rw [List.dropWhile_append_of_pos fun c hc => decide_eq_true (List.eq_of_mem_replicate hc)]
    rfl
  unfold getArguments
  rw [hdrop]
  rfl

theorem chars_ofMem (h : 0 ∉ s) : (WStr.ofMem s).chars = s := by
  apply List.takeWhile_eq_self_iff.2
  intro c hc
  refine decide_eq_true ?_
  rintro rfl
  exact h hc

theorem map_chars_ofMem (h : ∀ a ∈ args, 0 ∉ a) : (args.map WStr.ofMem).map (·.chars) = args := by
  rw [List.map_map]
  exact (List.map_congr_left fun a ha => chars_ofMem (h a ha)).trans (List.map_id args)

theorem Arguments.nul_notMem (h : Arguments inner args) (hnul : 0 ∉ inner) : ∀ a ∈ args, 0 ∉ a := by
  induction h with
  | last => exact fun a ha => List.mem_singleton.1 ha ▸ hnul
  | comma _ _ ih =>
    rw [List.mem_append, List.mem_cons, not_or, not_or] at hnul
    exact List.forall_mem_cons.2 ⟨hnul.1, ih hnul.2.2⟩

theorem parsesArguments_iff (spaces : Nat) (text : WStr)
    : ParsesArguments spaces text ↔ Matched text ∨ text.chars.getLast? ≠ some 0x29 := by
  unfold ParsesArguments
  rw [getArguments_eq]
  rcases argumentRounds_parsed 0x28 [] .nil text.chars with
    ⟨inner, args, rest, hsplit, hargs, hresult⟩ | ⟨hnone, argv', hresult⟩
  . rw [List.nil_append] at hargs hresult
    rw [hresult]
    refine iff_of_true ?_ (.inl ⟨inner, rest, hsplit, hargs.closes⟩)
    have hnul : 0 ∉ inner := by
      intro hmem
      apply text.nul_notMem
      rw [hsplit]
      exact List.mem_append_left _ hmem
    intro argv rest'
    constructor
    . intro heq
      cases heq
      refine ⟨inner, hsplit, hargs.closes, ?_⟩
      rwa [map_chars_ofMem (hargs.nul_notMem hnul)]
    . rintro ⟨inner', hsplit', hcloses, hargs'⟩
      obtain ⟨rfl, rfl⟩ := hargs.closes.unique hcloses (hsplit.symm.trans hsplit')
      have hid : argv.map (WStr.ofMem ∘ WStr.chars) = argv :=
        (List.map_congr_left fun a _ => WStr.ext_chars (chars_ofMem a.nul_notMem)).trans (List.map_id argv)
      rw [hargs.unique hargs', List.map_map, hid]
  . have hunmatched : ¬Matched text := by
      rintro ⟨inner, rest, hsplit, hcloses⟩
      exact hnone inner rest hsplit hcloses
    rw [hresult]
    cases hlast : text.chars.getLast? with
    | none =>
      refine iff_of_true ?_ (.inr nofun)
      intro argv rest
      refine iff_of_false nofun ?_
      rintro ⟨inner, hsplit, hcloses, -⟩
      exact hunmatched ⟨inner, rest, hsplit, hcloses⟩
    | some c =>
      rw [Option.getD_some]
      by_cases hc : c = 0x29
      . rw [if_pos hc, hc]
        refine iff_of_false ?_ ?_
        . intro h
          obtain ⟨inner, hsplit, hcloses, -⟩ := (h argv' []).1 rfl
          exact hunmatched ⟨inner, [], hsplit, hcloses⟩
        . rintro (h | h)
          . exact hunmatched h
          . exact h rfl
      . rw [if_neg hc]
        refine iff_of_true ?_ (.inr fun h => hc (Option.some.inj h))
        intro argv rest
        refine iff_of_false nofun ?_
        rintro ⟨inner, hsplit, hcloses, -⟩
        exact hunmatched ⟨inner, rest, hsplit, hcloses⟩

theorem not_parsesArguments_quoted : ¬ParsesArguments 0 ⟨[0x60, 0x29], by decide⟩ := by
  intro h
  obtain ⟨inner, hsplit, hcloses, -⟩ := (h [] []).1 rfl
  have hinner : inner = [0x60] := (List.append_inj_left' hsplit rfl).symm
  rw [hinner] at hcloses
  exact absurd hcloses.settled (by decide)

end Variables
