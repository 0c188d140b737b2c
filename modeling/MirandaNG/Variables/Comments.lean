import MirandaNG.Variables.Format

/-!
This module contains the buffer in which `replaceDynVars` works: quotes, line ends, blanks and comments are cut out of it in
place. It follows the rounds of `skip`, which work on what is in front of the position.
-/

namespace Variables.Comments

def wcslen (buf : List UInt16) (i : Nat) : Option Nat :=
  if 0 ∈ buf.drop i then some ((buf.drop i).takeWhile (· ≠ 0)).length else none

def memmove (buf : List UInt16) (dst src n : Nat) : Option (List UInt16) :=
  if src + n ≤ buf.length ∧ dst + n ≤ buf.length then
    some (buf.take dst ++ ((buf.drop src).take n ++ buf.drop (dst + n)))
  else
    none

def cut (buf : List UInt16) (cur n : Nat) : Option (List UInt16) := do
  let len ← wcslen buf (cur + n)
  memmove buf cur (cur + n) (len + 1)

def wcsncmp (buf : List UInt16) (cur : Nat) : List UInt16 → Option Bool
  | [] => some false
  | c :: s => do
    let x ← buf[cur]?
    if x ≠ c then some true else if x = 0 then some false else wcsncmp buf (cur + 1) s

def CR : UInt16 := 0x0D
def LF : UInt16 := 0x0A

def sectionEnd (buf : List UInt16) : Nat → Nat → Option Nat
  | 0, _ => none
  | n + 1, cur => do
    let c ← buf[cur]?
    if c ≠ DONTPARSE_CHAR ∧ c ≠ 0 then sectionEnd buf n (cur + 1) else some cur

def commentEnd (buf : List UInt16) : Nat → Nat → Option Nat
  | 0, _ => none
  | n + 1, cur => do
    let differs ← wcsncmp buf cur [CR, LF]
    let c ← buf[cur]?
    if differs ∧ c ≠ LF ∧ c ≠ 0 then commentEnd buf n (cur + 1) else some cur

inductive Next where
  | again (string : List UInt16) (pos : Nat)
  | token
deriving DecidableEq

-- A position that is set to `cur - string - 1` (which wraps around at 0) is `cur` when it has been counted up. There is no
-- result if something outside of the block is read or written.
def round (gParseOpts : ParseOptions) (string : List UInt16) (cur : Nat) : Option Next := do
  let c ← string[cur]?
  if c = DONTPARSE_CHAR then
    let string ← cut string cur 1
    let c ← string[cur]?
    if c = DONTPARSE_CHAR then
      some (.again string (cur + 1))
    else
      let cur ← sectionEnd string string.length cur
      let string ← cut string cur 1
      some (.again string cur)
  else
    let differs ← wcsncmp string cur [CR, LF]
    if !differs ∧ gParseOpts.bStripEOL then
      let string ← cut string cur 2
      some (.again string cur)
    else if (c = LF ∧ gParseOpts.bStripEOL) ∨ (c = 0x20 ∧ gParseOpts.bStripWS) then
      let string ← cut string cur 1
      some (.again string cur)
    else
      -- `_countof(COMMENT_STRING)` counts the NUL.
      let differs ← wcsncmp string cur [COMMENT_CHAR, 0]
      if !differs then
        let stop ← commentEnd string string.length cur
        let c ← string[stop]?
        if c = 0 then
          let string := string.set cur 0
          let len ← wcslen string 0
          some (.again (string.take (len + 1)) (cur + 1))
        else
          let string ← cut string cur (stop - cur)
          some (.again string cur)
      else if c ≠ FIELD_CHAR ∧ c ≠ FUNC_CHAR ∧ c ≠ FUNC_ONCE_CHAR then
        if gParseOpts.bStripAll then
          let string ← cut string cur 1
          some (.again string cur)
        else
          some (.again string (cur + 1))
      else
        some .token

def rounds (gParseOpts : ParseOptions) : Nat → List UInt16 → Nat → Option (List UInt16)
  | 0, _, _ => none
  | n + 1, string, pos => do
    let len ← wcslen string 0
    if pos < len then
      match ← round gParseOpts string pos with
      | .again string pos => rounds gParseOpts n string pos
      | .token => none
    else
      some (string.take len)

def replaceDynVars (gParseOpts : ParseOptions) (n : Nat) (szFormat : WStr) : Option (List UInt16) :=
  rounds gParseOpts n (szFormat.chars ++ [0]) 0

section
variable {a s t x junk : List UInt16} {c : UInt16}

theorem wcslen_append (a : List UInt16) (ht : 0 ∉ t) (junk : List UInt16)
    : wcslen (a ++ (t ++ 0 :: junk)) a.length = some t.length := by
  have hpos : ∀ c ∈ t, decide (c ≠ 0) = true := by
    intro c hc
    refine decide_eq_true ?_
    rintro rfl
    exact ht hc
  rw [wcslen, List.drop_left, if_pos (List.mem_append_right t List.mem_cons_self), List.takeWhile_append_of_pos hpos,
    List.takeWhile_cons_of_neg (by simp), List.append_nil]

theorem cut_append (a x : List UInt16) (ht : 0 ∉ t) (junk : List UInt16)
    : cut (a ++ (x ++ (t ++ 0 :: junk))) a.length x.length
        = some (a ++ (t ++ 0 :: (x ++ (t ++ 0 :: junk)).drop (t.length + 1))) := by
  have hlen : wcslen (a ++ (x ++ (t ++ 0 :: junk))) (a.length + x.length) = some t.length := by
    rw [← List.append_assoc, ← List.length_append]
    exact wcslen_append (a ++ x) ht junk
  have hbehind : (a ++ (x ++ (t ++ 0 :: junk))).drop (a.length + x.length) = t ++ 0 :: junk := by
    rw [← List.drop_drop, List.drop_left, List.drop_left]
  have htake : (t ++ 0 :: junk).take (t.length + 1) = t ++ [0] := by
    rw [List.take_length_add_append]
    rfl
  have hle : a.length + x.length + (t.length + 1) ≤ (a ++ (x ++ (t ++ 0 :: junk))).length ∧
      a.length + (t.length + 1) ≤ (a ++ (x ++ (t ++ 0 :: junk))).length := by
    simp only [List.length_append, List.length_cons]
    omega
  rw [cut, hlen, Option.bind_eq_bind, Option.bind_some, memmove, if_pos hle, List.take_left, hbehind, htake,
    ← List.drop_drop, List.drop_left, List.append_assoc]
  rfl

theorem cut_one (a : List UInt16) (c : UInt16) (ht : 0 ∉ t) (junk : List UInt16)
    : cut (a ++ c :: (t ++ 0 :: junk)) a.length 1 = some (a ++ (t ++ 0 :: 0 :: junk)) := by
  have hcut := cut_append a [c] ht junk
  rwa [List.singleton_append, List.drop_succ_cons, List.drop_left] at hcut

theorem getElem?_at (a : List UInt16) (c : UInt16) (s : List UInt16) : (a ++ c :: s)[a.length]? = some c := by
  rw [List.getElem?_append_right (Nat.le_refl _), Nat.sub_self]
  rfl

theorem getElem?_next (a : List UInt16) (c d : UInt16) (s : List UInt16) : (a ++ c :: d :: s)[a.length + 1]? = some d := by
  rw [List.getElem?_append_right (Nat.le_add_right _ 1), Nat.add_sub_cancel_left]
  rfl

theorem wcsncmp_of_ne (a : List UInt16) {d : UInt16} (l : List UInt16) (s : List UInt16) (hc : c ≠ d)
    : wcsncmp (a ++ c :: s) a.length (d :: l) = some true := by
  rw [wcsncmp, getElem?_at, Option.bind_eq_bind, Option.bind_some, if_pos hc]

theorem wcsncmp_crlf (a : List UInt16) (c : UInt16) (s junk : List UInt16)
    : wcsncmp (a ++ c :: (s ++ 0 :: junk)) a.length [CR, LF] = some (decide ¬(c = CR ∧ s.head? = some LF)) := by
  by_cases hc : c = CR
  . subst hc
    have h0 : ¬CR = 0 := by decide
    rw [wcsncmp, getElem?_at, Option.bind_eq_bind, Option.bind_some, if_neg (not_not.2 rfl), if_neg h0, wcsncmp]
    cases s with
    | nil =>
      rw [List.nil_append, getElem?_next]
      rfl
    | cons d s =>
      rw [List.cons_append, getElem?_next, Option.bind_eq_bind, Option.bind_some]
      by_cases hd : d = LF
      . subst hd
        rw [if_neg (not_not.2 rfl), if_neg (by decide)]
        rfl
      . rw [if_pos hd]
        simp [hd]
  . rw [wcsncmp_of_ne a _ _ hc]
    simp [hc]

theorem wcsncmp_comment (a : List UInt16) (c : UInt16) (hs : 0 ∉ s) (junk : List UInt16)
    : wcsncmp (a ++ c :: (s ++ 0 :: junk)) a.length [COMMENT_CHAR, 0] = some (decide ¬(c = COMMENT_CHAR ∧ s = [])) := by
  by_cases hc : c = COMMENT_CHAR
  . subst hc
    have h0 : ¬COMMENT_CHAR = 0 := by decide
    rw [wcsncmp, getElem?_at, Option.bind_eq_bind, Option.bind_some, if_neg (not_not.2 rfl), if_neg h0, wcsncmp]
    cases s with
    | nil =>
      rw [List.nil_append, getElem?_next]
      rfl
    | cons d s =>
      have hd : d ≠ 0 := fun hd => hs (hd ▸ List.mem_cons_self)
      rw [List.cons_append, getElem?_next, Option.bind_eq_bind, Option.bind_some, if_pos hd]
      simp
  . rw [wcsncmp_of_ne a _ _ hc]
    simp [hc]

theorem sectionEnd_append (a : List UInt16) {q : List UInt16} (hq : DONTPARSE_CHAR ∉ q) (h0 : 0 ∉ q) {d : UInt16}
    (hd : d = DONTPARSE_CHAR ∨ d = 0) (s : List UInt16) {n : Nat} (hn : q.length < n)
    : sectionEnd (a ++ (q ++ d :: s)) n a.length = some (a ++ q).length := by
  induction q generalizing a n with
  | nil =>
    cases n with
    | zero => cases hn
    | succ n =>
      have hstop : ¬(d ≠ DONTPARSE_CHAR ∧ d ≠ 0) := by tauto
      rw [List.nil_append, sectionEnd, getElem?_at, Option.bind_eq_bind, Option.bind_some, if_neg hstop, List.append_nil]
  | cons c q ih =>
    cases n with
    | zero => cases hn
    | succ n =>
      obtain ⟨hc, hq⟩ := not_or.1 (mt List.mem_cons.2 hq)
      obtain ⟨hc0, h0⟩ := not_or.1 (mt List.mem_cons.2 h0)
      have hstep := ih (a ++ [c]) hq h0 (Nat.lt_of_succ_lt_succ hn)
      rw [List.append_assoc, List.append_assoc, List.singleton_append, List.singleton_append, List.length_append,
        List.length_singleton] at hstep
      rw [List.cons_append, sectionEnd, getElem?_at, Option.bind_eq_bind, Option.bind_some,
        if_pos ⟨Ne.symm hc, Ne.symm hc0⟩, hstep]

def Holds (string : List UInt16) (pos : Nat) (done rest : List UInt16) : Prop :=
  ∃ junk, string = done ++ (rest ++ 0 :: junk) ∧ (pos = done.length ∨ rest = [] ∧ done.length < pos)

section
variable (gParseOpts : ParseOptions) (done junk : List UInt16) {tail out rest : List UInt16} {cur : UInt16}

def Follows (cur : UInt16) (tail out rest : List UInt16) : Prop :=
  ∃ string pos, round gParseOpts (done ++ cur :: (tail ++ 0 :: junk)) done.length = some (.again string pos) ∧
    Holds string pos (done ++ out) rest

theorem round_section {q r s : List UInt16} {d : UInt16} (hq : DONTPARSE_CHAR ∉ q) (h0 : 0 ∉ q) (hr : 0 ∉ r)
    (hd : d = DONTPARSE_CHAR ∨ d = 0) (hcut : q ++ d :: (r ++ 0 :: s) = tail ++ 0 :: 0 :: junk) (htail : 0 ∉ tail)
    (hempty : tail.head? ≠ some DONTPARSE_CHAR)
    : Follows gParseOpts done junk DONTPARSE_CHAR tail q r := by
  have hend := sectionEnd_append done hq h0 hd (r ++ 0 :: s) (n := (done ++ (q ++ d :: (r ++ 0 :: s))).length)
    (by simp only [List.length_append, List.length_cons]; omega)
  obtain ⟨c, hc, hne⟩ : ∃ c, (done ++ (tail ++ 0 :: 0 :: junk))[done.length]? = some c ∧ c ≠ DONTPARSE_CHAR := by
    cases tail with
    | nil => exact ⟨0, getElem?_at done 0 _, by decide⟩
    | cons d tail => exact ⟨d, getElem?_at done d _, fun hd => hempty (by rw [hd]; rfl)⟩
  have hlast := cut_one (done ++ q) d hr s
  rw [List.append_assoc, hcut] at hlast
  rw [hcut] at hend
  refine ⟨_, (done ++ q).length, ?_, ⟨0 :: s, rfl, .inl rfl⟩⟩
  simp only [round, getElem?_at, Option.bind_eq_bind, Option.bind_some, if_true, cut_one done _ htail, hc, if_neg hne, hend,
    hlast]

theorem round_quote {s : List UInt16} (hs : 0 ∉ s)
    : Follows gParseOpts done junk DONTPARSE_CHAR (DONTPARSE_CHAR :: s) [DONTPARSE_CHAR] s := by
  have htail : 0 ∉ DONTPARSE_CHAR :: s := mt List.mem_cons.1 (not_or.2 ⟨by decide, hs⟩)
  refine ⟨done ++ (DONTPARSE_CHAR :: s ++ 0 :: 0 :: junk), done.length + 1, ?_, 0 :: junk, ?_, .inl ?_⟩
  . have hnext := getElem?_at done DONTPARSE_CHAR (s ++ 0 :: 0 :: junk)
    rw [← List.cons_append] at hnext
    simp only [round, getElem?_at, Option.bind_eq_bind, Option.bind_some, if_true, cut_one done _ htail, hnext]
  . rw [List.append_assoc]
    rfl
  . rw [List.length_append, List.length_singleton]

theorem round_takeWhile (htail : 0 ∉ tail) (hempty : tail.head? ≠ some DONTPARSE_CHAR)
    : Follows gParseOpts done junk DONTPARSE_CHAR tail (tail.takeWhile (· ≠ DONTPARSE_CHAR))
        ((tail.dropWhile (· ≠ DONTPARSE_CHAR)).drop 1) := by
  have hsplit := List.takeWhile_append_dropWhile (p := (· ≠ DONTPARSE_CHAR)) (l := tail)
  have hq : DONTPARSE_CHAR ∉ tail.takeWhile (· ≠ DONTPARSE_CHAR) := fun h => by simpa using List.mem_takeWhile_imp h
  have h0 : 0 ∉ tail.takeWhile (· ≠ DONTPARSE_CHAR) := fun h => htail ((List.takeWhile_sublist _).mem h)
  cases hdrop : tail.dropWhile (· ≠ DONTPARSE_CHAR) with
  | nil =>
    rw [hdrop, List.append_nil] at hsplit
    refine round_section gParseOpts done junk hq h0 List.not_mem_nil (.inr rfl) (s := junk) ?_ htail hempty
    rw [hsplit]
    rfl
  | cons d r =>
    have hd : d = DONTPARSE_CHAR := by
      have h := List.head_dropWhile_not (p := (· ≠ DONTPARSE_CHAR)) (l := tail) (by rw [hdrop]; exact List.cons_ne_nil d r)
      simp only [hdrop, List.head_cons] at h
      simpa using h
    have hr : 0 ∉ r := by
      intro h
      apply htail
      rw [← hsplit, hdrop]
      exact List.mem_append_right _ (List.mem_cons_of_mem d h)
    refine round_section gParseOpts done junk hq h0 hr (.inl hd) (s := 0 :: junk) ?_ htail hempty
    conv_rhs => rw [← hsplit, hdrop]
    rw [List.append_assoc]
    rfl

theorem round_cut {x s : List UInt16} (hs : 0 ∉ s) (hx : cur :: tail = x ++ s)
    (hround : round gParseOpts (done ++ cur :: (tail ++ 0 :: junk)) done.length
      = (cut (done ++ cur :: (tail ++ 0 :: junk)) done.length x.length).bind fun string => some (.again string done.length))
    : Follows gParseOpts done junk cur tail [] s := by
  have hcut := cut_append done x hs junk
  have heq : cur :: (tail ++ 0 :: junk) = x ++ (s ++ 0 :: junk) := by
    rw [← List.cons_append, hx, List.append_assoc]
  rw [← heq] at hcut
  rw [hcut, Option.bind_some] at hround
  exact ⟨_, _, hround, _, by rw [List.append_nil], .inl (by rw [List.append_nil])⟩

theorem commentEnd_last (a junk : List UInt16)
    : commentEnd (a ++ COMMENT_CHAR :: 0 :: junk) (a ++ COMMENT_CHAR :: 0 :: junk).length a.length = some (a.length + 1) := by
  have hlen : (a ++ COMMENT_CHAR :: 0 :: junk).length = a.length + junk.length + 1 + 1 := by
    simp only [List.length_append, List.length_cons]
    omega
  have hnext := wcsncmp_of_ne (c := 0) (d := CR) (a ++ [COMMENT_CHAR]) [LF] junk (by decide)
  rw [List.append_assoc, List.singleton_append, List.length_append, List.length_singleton] at hnext
  rw [hlen, commentEnd, wcsncmp_of_ne a _ _ (by decide), Option.bind_eq_bind, Option.bind_some, getElem?_at,
    Option.bind_eq_bind, Option.bind_some, if_pos (by decide), commentEnd, hnext, Option.bind_eq_bind, Option.bind_some,
    getElem?_next]
  rfl

theorem set_at (a : List UInt16) (c d : UInt16) (s : List UInt16) : (a ++ c :: s).set a.length d = a ++ d :: s := by
  rw [List.set_append_right _ _ (Nat.le_refl _), Nat.sub_self]
  rfl

theorem round_skip (hdone : 0 ∉ done) (h0 : 0 ∉ cur :: tail) (hskip : skip gParseOpts cur tail = some (out, rest))
    : Follows gParseOpts done junk cur tail out rest := by
  have htail : 0 ∉ tail := fun h => h0 (List.mem_cons_of_mem cur h)
  have hwcslen := wcslen_append [] hdone (0 :: junk)
  rw [List.nil_append, List.length_nil] at hwcslen
  have htake : (done ++ 0 :: 0 :: junk).take (done.length + 1) = done ++ [0] := by
    rw [List.take_length_add_append]
    rfl
  rw [skip] at hskip
  by_cases hq : cur = DONTPARSE_CHAR
  . rw [if_pos hq] at hskip
    subst hq
    by_cases hhead : tail.head? = some DONTPARSE_CHAR
    . rw [if_pos hhead] at hskip
      cases hskip
      obtain ⟨s, rfl⟩ := List.head?_eq_some_iff.1 hhead
      exact round_quote gParseOpts done junk fun hs => htail (List.mem_cons_of_mem _ hs)
    . rw [if_neg hhead] at hskip
      cases hskip
      exact round_takeWhile gParseOpts done junk htail hhead
  . rw [if_neg hq] at hskip
    by_cases hcrlf : cur = CR ∧ tail.head? = some LF ∧ gParseOpts.bStripEOL
    . obtain ⟨rfl, hhead, hopt⟩ := hcrlf
      obtain ⟨s, rfl⟩ := List.head?_eq_some_iff.1 hhead
      rw [if_pos (by simp [CR, LF, hopt])] at hskip
      cases hskip
      refine round_cut gParseOpts done junk (x := [CR, LF]) (fun hs => htail (List.mem_cons_of_mem _ hs)) rfl ?_
      simp only [round, getElem?_at, Option.bind_eq_bind, Option.bind_some, if_neg hq, wcsncmp_crlf]
      rw [if_pos (by simp [hopt])]
      rfl
    . have hcrlf' : ¬((!decide ¬(cur = CR ∧ tail.head? = some LF)) = true ∧ gParseOpts.bStripEOL = true) := by
        simpa [and_assoc] using hcrlf
      rw [if_neg (by simpa [CR, LF, and_assoc] using hcrlf)] at hskip
      have hround := Eq.refl (round gParseOpts (done ++ cur :: (tail ++ 0 :: junk)) done.length)
      conv_rhs at hround =>
        simp only [round, getElem?_at, Option.bind_eq_bind, Option.bind_some, if_neg hq, wcsncmp_crlf, if_neg hcrlf',
          wcsncmp_comment done cur htail]
      by_cases hblank : (cur = LF ∧ gParseOpts.bStripEOL) ∨ (cur = 0x20 ∧ gParseOpts.bStripWS)
      . rw [if_pos (by simpa [LF] using hblank)] at hskip
        cases hskip
        rw [if_pos hblank] at hround
        exact round_cut gParseOpts done junk (x := [cur]) htail rfl hround
      . rw [if_neg (by simpa [LF] using hblank)] at hskip
        rw [if_neg hblank] at hround
        by_cases hcomment : cur = COMMENT_CHAR ∧ tail = []
        . rw [if_pos (by simpa using hcomment)] at hskip
          cases hskip
          rw [if_pos (by simpa using hcomment)] at hround
          obtain ⟨rfl, rfl⟩ := hcomment
          rw [List.nil_append, commentEnd_last, Option.bind_some, getElem?_next, Option.bind_some, if_pos rfl, set_at,
            hwcslen, Option.bind_some, htake] at hround
          refine ⟨_, _, hround, [], ?_, .inr ⟨rfl, ?_⟩⟩
          . rw [List.append_nil]
            rfl
          . rw [List.append_nil]
            exact Nat.lt_succ_self _
        . rw [if_neg (by simpa using hcomment)] at hskip
          rw [if_neg (by simpa using hcomment)] at hround
          by_cases htoken : cur ≠ FIELD_CHAR ∧ cur ≠ FUNC_CHAR ∧ cur ≠ FUNC_ONCE_CHAR
          . rw [if_pos (by simpa [and_assoc] using htoken)] at hskip
            cases hskip
            rw [if_pos htoken] at hround
            by_cases hall : gParseOpts.bStripAll
            . rw [if_pos hall] at hround ⊢
              exact round_cut gParseOpts done junk (x := [cur]) htail rfl hround
            . rw [if_neg hall] at hround ⊢
              refine ⟨_, _, hround, junk, ?_, .inl ?_⟩
              . rw [List.append_assoc]
                rfl
              . rw [List.length_append, List.length_singleton]
          . rw [if_neg (by simpa [and_assoc] using htoken)] at hskip
            cases hskip

end
end

def isTokenChar (c : UInt16) : Bool := c = FIELD_CHAR || c = FUNC_CHAR || c = FUNC_ONCE_CHAR

def behindSection (s : List UInt16) : List UInt16 := (s.dropWhile (· ≠ DONTPARSE_CHAR)).drop 1

def behindComment : List UInt16 → List UInt16
  | [] => []
  | c :: s => if c = LF ∨ (c = CR ∧ s.head? = some LF) then c :: s else behindComment s

theorem length_behindSection_le (s : List UInt16) : (behindSection s).length ≤ s.length := by
  have := (List.dropWhile_sublist (p := (· ≠ DONTPARSE_CHAR)) (l := s)).length_le
  rw [behindSection, List.length_drop]
  omega

theorem length_behindComment_le (s : List UInt16) : (behindComment s).length ≤ s.length := by
  induction s with
  | nil => exact Nat.le_refl 0
  | cons c s ih =>
    rw [behindComment]
    split
    . exact Nat.le_refl _
    . exact ih.trans (Nat.le_succ _)

def text (empty : List UInt16) : List UInt16 → List UInt16
  | [] => []
  | c :: s =>
    if c = DONTPARSE_CHAR then
      (if s.head? = some DONTPARSE_CHAR then empty else s.takeWhile (· ≠ DONTPARSE_CHAR)) ++ text empty (behindSection s)
    else if c = COMMENT_CHAR then
      text empty (behindComment s)
    else
      c :: text empty s
termination_by s => s.length
decreasing_by
  . exact Nat.lt_succ_of_le (length_behindSection_le s)
  . exact Nat.lt_succ_of_le (length_behindComment_le s)
  . exact Nat.lt_succ_self _

def CommentsLast : List UInt16 → Prop
  | [] => True
  | c :: s =>
    if c = DONTPARSE_CHAR then CommentsLast (behindSection s)
    else if c = COMMENT_CHAR then s = []
    else CommentsLast s
termination_by s => s.length
decreasing_by
  . exact Nat.lt_succ_of_le (length_behindSection_le s)
  . exact Nat.lt_succ_self _

section
variable {cur : UInt16} {tail : List UInt16}

theorem skip_text (hcur : ¬isTokenChar cur) (hlast : CommentsLast (cur :: tail))
    : ∃ out rest, skip ⟨false, false, false⟩ cur tail = some (out, rest) ∧
        text [DONTPARSE_CHAR] (cur :: tail) = out ++ text [DONTPARSE_CHAR] rest ∧
        CommentsLast rest ∧ rest <:+ tail ∧ ∀ c ∈ out, c ∈ cur :: tail := by
  rw [CommentsLast] at hlast
  rw [text, skip]
  by_cases hq : cur = DONTPARSE_CHAR
  . rw [if_pos hq] at hlast
    rw [if_pos hq, if_pos hq]
    have hsuffix : behindSection tail <:+ tail := (List.drop_suffix _ _).trans (List.dropWhile_suffix _)
    by_cases hhead : tail.head? = some DONTPARSE_CHAR
    . obtain ⟨s, rfl⟩ := List.head?_eq_some_iff.1 hhead
      have hbehind : behindSection (DONTPARSE_CHAR :: s) = s := by
        rw [behindSection, List.dropWhile_cons_of_neg (by simp)]
        rfl
      rw [if_pos hhead, if_pos hhead, hbehind]
      rw [hbehind] at hlast
      refine ⟨_, _, rfl, rfl, hlast, List.suffix_cons _ s, fun c hc => ?_⟩
      rw [List.mem_singleton.1 hc, hq]
      exact List.mem_cons_self
    . rw [if_neg hhead, if_neg hhead]
      exact ⟨_, _, rfl, rfl, hlast, hsuffix, fun c hc => List.mem_cons_of_mem cur ((List.takeWhile_sublist _).mem hc)⟩
  . rw [if_neg hq] at hlast
    rw [if_neg hq, if_neg hq, if_neg (by simp), if_neg (by simp)]
    by_cases hcomment : cur = COMMENT_CHAR
    . rw [if_pos hcomment] at hlast
      subst hlast
      rw [if_pos hcomment, if_pos (by simpa using hcomment)]
      refine ⟨[], [], rfl, rfl, by rw [CommentsLast]; trivial, List.suffix_refl _, fun c hc => nomatch hc⟩
    . rw [if_neg hcomment] at hlast
      rw [if_neg hcomment, if_neg (by simp [hcomment]), if_pos (by simpa [isTokenChar, and_assoc] using hcur)]
      refine ⟨[cur], tail, rfl, rfl, hlast, List.suffix_refl _, fun c hc => ?_⟩
      rw [List.mem_singleton.1 hc]
      exact List.mem_cons_self

theorem rounds_text (n : Nat) {string done rest : List UInt16} {pos : Nat} (hholds : Holds string pos done rest)
    (hdone : 0 ∉ done) (hrest : 0 ∉ rest) (htoken : ∀ c ∈ rest, ¬isTokenChar c) (hlast : CommentsLast rest)
    (hn : rest.length < n) : rounds ⟨false, false, false⟩ n string pos = some (done ++ text [DONTPARSE_CHAR] rest) := by
  induction n generalizing string pos done rest with
  | zero => cases hn
  | succ n ih =>
    obtain ⟨junk, rfl, hpos⟩ := hholds
    have hlen : wcslen (done ++ (rest ++ 0 :: junk)) 0 = some (done ++ rest).length := by
      rw [← List.append_assoc]
      exact wcslen_append [] (mt List.mem_append.1 (not_or.2 ⟨hdone, hrest⟩)) junk
    rw [rounds, hlen, Option.bind_eq_bind, Option.bind_some]
    cases rest with
    | nil =>
      have hend : ¬pos < (done ++ []).length := by
        rw [List.append_nil]
        omega
      rw [if_neg hend, text, List.append_nil, List.nil_append, List.take_left]
    | cons cur tail =>
      obtain rfl : pos = done.length := hpos.resolve_right fun h => List.cons_ne_nil _ _ h.1
      obtain ⟨out, rest, hskip, htext, hlast', hsuffix, hout⟩ := skip_text (htoken cur List.mem_cons_self) hlast
      obtain ⟨string, pos, hround, hholds⟩ := round_skip _ done junk hdone hrest hskip
      have hlt : done.length < (done ++ cur :: tail).length := by
        rw [List.length_append, List.length_cons]
        omega
      have hmem : ∀ c ∈ rest, c ∈ cur :: tail := fun c hc => List.mem_cons_of_mem cur (hsuffix.mem hc)
      rw [if_pos hlt, List.cons_append, hround, Option.bind_eq_bind, Option.bind_some, htext, ← List.append_assoc]
      apply ih hholds
      . rw [List.mem_append]
        rintro (h | h)
        . exact hdone h
        . exact hrest (hout 0 h)
      . exact fun h => hrest (hmem 0 h)
      . exact fun c hc => htoken c (hmem c hc)
      . exact hlast'
      . have := hsuffix.length_le
        rw [List.length_cons] at hn
        omega

end

def Copies (empty : List UInt16) (szFormat : WStr) : Prop :=
  ∃ k, ∀ n, k ≤ n → replaceDynVars ⟨false, false, false⟩ n szFormat = some (text empty szFormat.chars)

theorem copies_commentsLast (s : WStr) (htoken : ∀ c ∈ s.chars, ¬isTokenChar c) (hlast : CommentsLast s.chars)
    : Copies [DONTPARSE_CHAR] s :=
  ⟨s.chars.length + 1, fun n hn =>
    rounds_text n ⟨[], rfl, .inl rfl⟩ List.not_mem_nil s.nul_notMem htoken hlast hn⟩

def unclosed : WStr := ⟨[0x61, DONTPARSE_CHAR, COMMENT_CHAR], by simp [DONTPARSE_CHAR, COMMENT_CHAR]⟩

theorem copies_unclosed : Copies [DONTPARSE_CHAR] unclosed :=
  copies_commentsLast unclosed (by simp [unclosed, isTokenChar, DONTPARSE_CHAR, COMMENT_CHAR, FIELD_CHAR, FUNC_CHAR, FUNC_ONCE_CHAR]) <| by
    simp [unclosed, CommentsLast, behindSection, DONTPARSE_CHAR, COMMENT_CHAR]

def twoQuotes : WStr := ⟨[DONTPARSE_CHAR, DONTPARSE_CHAR], by simp [DONTPARSE_CHAR]⟩

theorem not_copies_twoQuotes : ¬∀ s : WStr, (∀ c ∈ s.chars, ¬isTokenChar c) → Copies [] s := by
  intro h
  have htoken : ∀ c ∈ twoQuotes.chars, ¬isTokenChar c := by
    simp [twoQuotes, isTokenChar, DONTPARSE_CHAR, FIELD_CHAR, FUNC_CHAR, FUNC_ONCE_CHAR]
  obtain ⟨k, hk⟩ := h twoQuotes htoken
  have hholds : Holds (twoQuotes.chars ++ [0]) 0 [] twoQuotes.chars := ⟨[], rfl, .inl rfl⟩
  have hround := rounds_text (k + 3) hholds List.not_mem_nil twoQuotes.nul_notMem htoken
    (by simp [twoQuotes, CommentsLast, behindSection]) (Nat.le_add_left 3 k)
  have heq := (hk (k + 3) (Nat.le_add_right k 3)).symm.trans hround
  simp [twoQuotes, text, behindSection] at heq

end Variables.Comments
