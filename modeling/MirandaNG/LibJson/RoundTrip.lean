import MirandaNG.Data.Bytes
import MirandaNG.LibJson.Node

/-!
This module contains what the JSON library finds in what it has written: the children of a node under
their names, strings with the bytes they were made of and whole numbers.
-/

namespace LibJson

def compactName (arrayChild : Bool) (name : CStr) : List UInt8 :=
  if arrayChild then [] else 0x22 :: markString name.bytes ++ [0x22, 0x3A]

mutual
def Built.compact : Built → List UInt8
  | .string s => 0x22 :: markString s.bytes ++ [0x22]
  | .number n => itoa n
  | .bool b => boolText b
  | .node children => 0x7B :: children.compact false ++ [0x7D]
  | .array children => 0x5B :: children.compact true ++ [0x5D]
def Children.compact (arrayChild : Bool) : Children → List UInt8
  | .nil => []
  | .cons name child .nil => compactName arrayChild name ++ child.compact
  | .cons name child (.cons name' child' rest) =>
    compactName arrayChild name ++ child.compact ++
      0x2C :: (Children.cons name' child' rest).compact arrayChild
end

theorem RemoveWhiteSpace_white {c : UInt8} (h : isWhite c = true) (s : List UInt8)
    : RemoveWhiteSpace .plain (c :: s) = RemoveWhiteSpace .plain s := by
  rw [RemoveWhiteSpace]
  exact if_pos h

theorem RemoveWhiteSpace_quote (s : List UInt8)
    : RemoveWhiteSpace .plain (0x22 :: s) = 0x22 :: RemoveWhiteSpace .quoted s := by
  rw [RemoveWhiteSpace]
  rfl

theorem white_indent (n : Nat) (s : List UInt8)
    : RemoveWhiteSpace .plain (makeIndent n ++ s) = RemoveWhiteSpace .plain s := by
  unfold makeIndent
  induction n with
  | zero => rfl
  | succ n ih =>
    rw [List.replicate_succ, List.cons_append, RemoveWhiteSpace_white rfl]
    exact ih

theorem white_newLine (indent : Option Nat) (s : List UInt8)
    : RemoveWhiteSpace .plain (newLine indent ++ s) = RemoveWhiteSpace .plain s := by
  cases indent with
  | none => rfl
  | some n =>
    unfold newLine
    rw [List.cons_append, RemoveWhiteSpace_white rfl]
    exact white_indent n s

def isKept (c : UInt8) : Bool := !isWhite c && c ≠ 0x2F && c ≠ 0x23 && c ≠ 0x22 && 32 ≤ c && c ≤ 126

theorem RemoveWhiteSpace_kept {c : UInt8} (h : isKept c = true) (s : List UInt8)
    : RemoveWhiteSpace .plain (c :: s) = c :: RemoveWhiteSpace .plain s := by
  unfold isKept at h
  simp only [Bool.and_eq_true, Bool.not_eq_true', decide_eq_true_eq] at h
  obtain ⟨⟨⟨⟨⟨hwhite, hslash⟩, hhash⟩, hquote⟩, hlo⟩, hhi⟩ := h
  rw [RemoveWhiteSpace]
  simp only [hwhite, Bool.false_eq_true, if_false]
  rw [if_neg (by simpa using hslash), if_neg (by simpa using hhash), if_neg (by simpa using hquote), if_neg]
  rw [not_or, UInt8.not_lt]
  exact ⟨hlo, by rw [gt_iff_lt, UInt8.not_lt]; exact hhi⟩

theorem RemoveWhiteSpace_append {t : List UInt8} (h : ∀ c ∈ t, isKept c = true) (s : List UInt8)
    : RemoveWhiteSpace .plain (t ++ s) = t ++ RemoveWhiteSpace .plain s := by
  induction t with
  | nil => rfl
  | cons c t ih =>
    rw [List.cons_append, RemoveWhiteSpace_kept (h c List.mem_cons_self),
      ih fun c hc => h c (List.mem_cons_of_mem _ hc)]
    rfl

theorem isKept_of_isDigit {c : UInt8} (h : Decimal.isDigit c = true) : isKept c = true := by
  revert h
  apply forall_halves (p := fun c => Decimal.isDigit c = true → isKept c = true)
  decide

theorem itoa_kept (n : Int) : ∀ c ∈ itoa n, isKept c = true := by
  intro c hc
  unfold itoa at hc
  split at hc
  . cases hc with
    | head => rfl
    | tail _ hc => exact isKept_of_isDigit (Decimal.print_isDigit _ c hc)
  . exact isKept_of_isDigit (Decimal.print_isDigit _ c hc)

theorem RemoveWhiteSpace_quoted (value_t s : List UInt8)
    : RemoveWhiteSpace .plain (0x22 :: UnfixString value_t ++ 0x22 :: s)
        =
      0x22 :: markString value_t ++ 0x22 :: RemoveWhiteSpace .plain s := by
  rw [List.cons_append, RemoveWhiteSpace_quote, RemoveWhiteSpace_string]
  rfl

theorem boolText_kept (b : Bool) : ∀ c ∈ boolText b, isKept c = true := by
  cases b <;> decide +kernel

theorem RemoveWhiteSpace_name (formatted arrayChild : Bool) (name : CStr) (s : List UInt8)
    : RemoveWhiteSpace .plain (WriteName formatted arrayChild name ++ s)
        =
      compactName arrayChild name ++ RemoveWhiteSpace .plain s := by
  unfold WriteName compactName
  split
  . rfl
  . have hquoted' := RemoveWhiteSpace_quoted name.bytes (0x3A :: s)
    rw [RemoveWhiteSpace_kept rfl] at hquoted'
    have hcolon : ∀ s, RemoveWhiteSpace .plain (0x20 :: 0x3A :: 0x20 :: s)
        = 0x3A :: RemoveWhiteSpace .plain s := by
      intro s
      rw [RemoveWhiteSpace_white rfl, RemoveWhiteSpace_kept rfl, RemoveWhiteSpace_white rfl]
    have hquoted := RemoveWhiteSpace_quoted name.bytes (0x20 :: 0x3A :: 0x20 :: s)
    rw [hcolon] at hquoted
    cases formatted with
    | false => simpa using hquoted'
    | true => simpa using hquoted

mutual
theorem RemoveWhiteSpace_Write (v : Built) (indent : Option Nat) (s : List UInt8)
    : RemoveWhiteSpace .plain (v.Write indent ++ s) = v.compact ++ RemoveWhiteSpace .plain s := by
  match v with
  | .string value =>
    have hquoted := RemoveWhiteSpace_quoted value.bytes s
    simpa [Built.Write, Built.compact] using hquoted
  | .number n =>
    rw [Built.Write, Built.compact]
    exact RemoveWhiteSpace_append (itoa_kept n) s
  | .bool b =>
    rw [Built.Write, Built.compact]
    exact RemoveWhiteSpace_append (boolText_kept b) s
  | .node children =>
    have hinner := RemoveWhiteSpace_WriteChildren children false indent (0x7D :: s)
    rw [RemoveWhiteSpace_kept rfl] at hinner
    rw [Built.Write, Built.compact, List.append_assoc, List.cons_append, RemoveWhiteSpace_kept rfl]
    simp only [List.cons_append, List.nil_append, List.append_assoc]
    rw [hinner]
  | .array children =>
    have hinner := RemoveWhiteSpace_WriteChildren children true indent (0x5D :: s)
    rw [RemoveWhiteSpace_kept rfl] at hinner
    rw [Built.Write, Built.compact, List.append_assoc, List.cons_append, RemoveWhiteSpace_kept rfl]
    simp only [List.cons_append, List.nil_append, List.append_assoc]
    rw [hinner]
theorem RemoveWhiteSpace_WriteChildren (children : Children) (arrayChild : Bool) (indent : Option Nat)
    (s : List UInt8)
    : RemoveWhiteSpace .plain (children.WriteChildren arrayChild indent ++ s)
        =
      children.compact arrayChild ++ RemoveWhiteSpace .plain s := by
  match children with
  | .nil => rfl
  | .cons name child .nil =>
    rw [Children.WriteChildren, Children.compact, List.append_assoc, List.append_assoc, List.append_assoc,
      white_newLine, RemoveWhiteSpace_name, RemoveWhiteSpace_Write child, white_newLine, List.append_assoc]
  | .cons name child (.cons name' child' rest) =>
    have hrest := RemoveWhiteSpace_WriteChildren (.cons name' child' rest) arrayChild indent s
    rw [Children.WriteChildren, Children.compact, List.append_assoc, List.append_assoc, List.append_assoc,
      white_newLine, RemoveWhiteSpace_name, RemoveWhiteSpace_Write child, List.cons_append,
      RemoveWhiteSpace_kept rfl, hrest]
    simp only [List.cons_append, List.append_assoc]
end

def Passes (p : Passing) (t : List UInt8) (p' : Passing) : Prop :=
  ∀ ch, ch = 0x2C ∨ ch = 0x3A → ∀ s,
    FindNextRelevant ch p (t ++ s) = (FindNextRelevant ch p' s).map (· + t.length)

section
variable {p p' p'' : Passing} {t u : List UInt8} {c left right : UInt8} {brac : Nat}

theorem Passes.nil (p : Passing) : Passes p [] p := by
  intro ch _ s
  simp

theorem Passes.trans (h : Passes p t p') (h' : Passes p' u p'') : Passes p (t ++ u) p'' := by
  intro ch hch s
  rw [List.append_assoc, h ch hch, h' ch hch, Option.map_map, List.length_append]
  congr 1
  funext n
  simp only [Function.comp_apply]
  omega

theorem Passes.cons (h : Passes p [c] p') (h' : Passes p' u p'') : Passes p (c :: u) p'' := h.trans h'

theorem Passes.step (h : p ≠ .none) (c : UInt8) : Passes p [c] (p.step c) := by
  intro ch _ s
  cases p with
  | none => exact absurd rfl h
  | quote => rfl
  | brackets left right brac quoted => rfl

theorem Passes.step_none (h : c ≠ 0x2C ∧ c ≠ 0x3A ∧ c ≠ 0x5D ∧ c ≠ 0x7D)
    : Passes .none [c] (Passing.none.step c) := by
  intro ch hch s
  obtain ⟨hcomma, hcolon, hbracket, hbrace⟩ := h
  have hne : c ≠ ch := by
    intro heq
    rw [heq] at hcomma hcolon
    exact hch.elim hcomma hcolon
  rw [List.singleton_append, FindNextRelevant, if_neg hne, if_neg (by rw [not_or]; exact ⟨hbracket, hbrace⟩)]
  rfl

def IsPair (left right : UInt8) : Prop := (left = 0x5B ∧ right = 0x5D) ∨ (left = 0x7B ∧ right = 0x7D)

theorem Passes.quote (h : 0x22 ∉ t) : Passes .quote (t ++ [0x22]) .none := by
  induction t with
  | nil => exact Passes.step (p := .quote) (by simp) 0x22
  | cons c t ih =>
    rw [List.mem_cons, not_or] at h
    have hstep := Passes.step (p := .quote) (by simp) c
    rw [Passing.step, if_neg (Ne.symm h.1)] at hstep
    exact hstep.cons (ih h.2)

theorem Passes.quoted (h : 0x22 ∉ t)
    : Passes (.brackets left right brac true) (t ++ [0x22]) (.brackets left right brac false) := by
  induction t with
  | nil => exact Passes.step (p := .brackets left right brac true) (by simp) 0x22
  | cons c t ih =>
    rw [List.mem_cons, not_or] at h
    have hstep := Passes.step (p := .brackets left right brac true) (by simp) c
    have htrue : decide (c ≠ 0x22) = true := by simpa using Ne.symm h.1
    rw [Passing.step, htrue] at hstep
    exact hstep.cons (ih h.2)

theorem passes_string (h : 0x22 ∉ t) : Passes .none (0x22 :: (t ++ [0x22])) .none := by
  have hstep := Passes.step_none (c := 0x22) (by decide)
  exact hstep.cons (Passes.quote h)

theorem passes_string_inside (hpair : IsPair left right) (h : 0x22 ∉ t)
    : Passes (.brackets left right brac false) (0x22 :: (t ++ [0x22])) (.brackets left right brac false) := by
  have hstep := Passes.step (p := .brackets left right brac false) (by simp) 0x22
  have hto : (Passing.brackets left right brac false).step 0x22 = .brackets left right brac true := by
    rcases hpair with ⟨rfl, rfl⟩ | ⟨rfl, rfl⟩ <;> rfl
  rw [hto] at hstep
  exact hstep.cons (Passes.quoted h)

def isInert (c : UInt8) : Bool :=
  c ≠ 0x2C && c ≠ 0x3A && c ≠ 0x5B && c ≠ 0x5D && c ≠ 0x7B && c ≠ 0x7D && c ≠ 0x22

theorem passes_inert (h : ∀ c ∈ t, isInert c = true) : Passes .none t .none := by
  induction t with
  | nil => exact Passes.nil _
  | cons c t ih =>
    have hc := h c List.mem_cons_self
    unfold isInert at hc
    simp only [Bool.and_eq_true, decide_eq_true_eq] at hc
    obtain ⟨⟨⟨⟨⟨⟨hcomma, hcolon⟩, hleft⟩, hright⟩, hopen⟩, hclose⟩, hquote⟩ := hc
    have hstep := Passes.step_none ⟨hcomma, hcolon, hright, hclose⟩
    rw [Passing.step, if_neg hleft, if_neg hopen, if_neg hquote] at hstep
    exact hstep.cons (ih fun c hc => h c (List.mem_cons_of_mem _ hc))

theorem passes_plain_inside (h : ∀ c ∈ t, c ≠ left ∧ c ≠ right ∧ c ≠ 0x22)
    : Passes (.brackets left right brac false) t (.brackets left right brac false) := by
  induction t with
  | nil => exact Passes.nil _
  | cons c t ih =>
    obtain ⟨hleft, hright, hquote⟩ := h c List.mem_cons_self
    have hstep := Passes.step (p := .brackets left right brac false) (by simp) c
    have hfalse : decide (c = 0x22) = false := by simpa using hquote
    rw [Passing.step, if_neg hright, if_neg hleft, hfalse] at hstep
    exact hstep.cons (ih fun c hc => h c (List.mem_cons_of_mem _ hc))

theorem isInert_of_isDigit (h : Decimal.isDigit c = true) : isInert c = true := by
  revert h
  apply forall_halves (p := fun c => Decimal.isDigit c = true → isInert c = true)
  decide

theorem itoa_inert (n : Int) : ∀ c ∈ itoa n, isInert c = true := by
  intro c hc
  unfold itoa at hc
  split at hc
  . cases hc with
    | head => rfl
    | tail _ hc => exact isInert_of_isDigit (Decimal.print_isDigit _ c hc)
  . exact isInert_of_isDigit (Decimal.print_isDigit _ c hc)

theorem boolText_inert (b : Bool) : ∀ c ∈ boolText b, isInert c = true := by
  cases b <;> decide +kernel

theorem inert_ne (hpair : IsPair left right) (h : isInert c = true) : c ≠ left ∧ c ≠ right ∧ c ≠ 0x22 := by
  unfold isInert at h
  simp only [Bool.and_eq_true, decide_eq_true_eq] at h
  rcases hpair with ⟨rfl, rfl⟩ | ⟨rfl, rfl⟩
  . exact ⟨h.1.1.1.1.2, h.1.1.1.2, h.2⟩
  . exact ⟨h.1.1.2, h.1.2, h.2⟩

theorem passes_enclosed {open_ close : UInt8} (hpair : IsPair left right) (hown : IsPair open_ close)
    (hbrac : 0 < brac)
    (h : ∀ brac, 0 < brac →
      Passes (.brackets left right brac false) t (.brackets left right brac false))
    : Passes (.brackets left right brac false) (open_ :: (t ++ [close])) (.brackets left right brac false) := by
  by_cases hsame : open_ = left
  . have hclose : close = right := by
      rcases hpair with ⟨rfl, rfl⟩ | ⟨rfl, rfl⟩ <;> rcases hown with ⟨rfl, rfl⟩ | ⟨rfl, rfl⟩ <;> simp_all
    have hne : left ≠ right := by
      rcases hpair with ⟨rfl, rfl⟩ | ⟨rfl, rfl⟩ <;> decide
    have hdown := Passes.step (p := .brackets left right brac false) (by simp) left
    rw [Passing.step, if_neg hne, if_pos rfl] at hdown
    have hup := Passes.step (p := .brackets left right (brac + 1) false) (by simp) right
    rw [Passing.step, if_pos rfl, if_neg (by omega), Nat.add_sub_cancel] at hup
    rw [hsame, hclose]
    exact hdown.cons ((h (brac + 1) (by omega)).trans hup)
  . have hne : ∀ c ∈ [open_, close], c ≠ left ∧ c ≠ right ∧ c ≠ 0x22 := by
      rcases hpair with ⟨rfl, rfl⟩ | ⟨rfl, rfl⟩ <;> rcases hown with ⟨rfl, rfl⟩ | ⟨rfl, rfl⟩ <;> simp_all
    have hdown := @passes_plain_inside [open_] left right brac (by simpa using hne open_ (by simp))
    have hup := @passes_plain_inside [close] left right brac (by simpa using hne close (by simp))
    exact hdown.cons ((h brac hbrac).trans hup)

theorem passes_name_inside (hpair : IsPair left right) (arrayChild : Bool) (name : CStr)
    : Passes (.brackets left right brac false) (compactName arrayChild name)
        (.brackets left right brac false) := by
  unfold compactName
  split
  . exact Passes.nil _
  . have hstring := @passes_string_inside _ left right brac hpair (quote_not_mem_markString name.bytes)
    have hcolon := @passes_plain_inside [0x3A] left right brac
      (by rcases hpair with ⟨rfl, rfl⟩ | ⟨rfl, rfl⟩ <;> simp)
    have hboth := hstring.trans hcolon
    simpa using hboth

end

mutual
theorem passes_inside (v : Built) (left right : UInt8) (brac : Nat) (hpair : IsPair left right)
    (hbrac : 0 < brac)
    : Passes (.brackets left right brac false) v.compact (.brackets left right brac false) := by
  match v with
  | .string s => exact passes_string_inside hpair (quote_not_mem_markString s.bytes)
  | .number n => exact passes_plain_inside fun c hc => inert_ne hpair (itoa_inert n c hc)
  | .bool b => exact passes_plain_inside fun c hc => inert_ne hpair (boolText_inert b c hc)
  | .node children =>
    exact passes_enclosed hpair (.inr ⟨rfl, rfl⟩) hbrac fun brac hbrac =>
      passes_children_inside children false left right brac hpair hbrac
  | .array children =>
    exact passes_enclosed hpair (.inl ⟨rfl, rfl⟩) hbrac fun brac hbrac =>
      passes_children_inside children true left right brac hpair hbrac
theorem passes_children_inside (children : Children) (arrayChild : Bool) (left right : UInt8) (brac : Nat)
    (hpair : IsPair left right) (hbrac : 0 < brac)
    : Passes (.brackets left right brac false) (children.compact arrayChild)
        (.brackets left right brac false) := by
  match children with
  | .nil => exact Passes.nil _
  | .cons name child .nil =>
    exact (passes_name_inside hpair arrayChild name).trans (passes_inside child left right brac hpair hbrac)
  | .cons name child (.cons name' child' rest) =>
    have hchild := (@passes_name_inside left right brac hpair arrayChild name).trans
      (passes_inside child left right brac hpair hbrac)
    have hcomma := @passes_plain_inside [0x2C] left right brac
      (by rcases hpair with ⟨rfl, rfl⟩ | ⟨rfl, rfl⟩ <;> simp)
    exact hchild.trans (hcomma.cons
      (passes_children_inside (.cons name' child' rest) arrayChild left right brac hpair hbrac))
end

theorem passes_compact (v : Built) : Passes .none v.compact .none := by
  cases v with
  | string s => exact passes_string (quote_not_mem_markString s.bytes)
  | number n => exact passes_inert (itoa_inert n)
  | bool b => exact passes_inert (boolText_inert b)
  | node children =>
    have hopen := Passes.step_none (c := 0x7B) (by decide)
    have hclose := Passes.step (p := .brackets 0x7B 0x7D 1 false) (by simp) 0x7D
    exact hopen.cons ((passes_children_inside children false 0x7B 0x7D 1 (.inr ⟨rfl, rfl⟩)
      Nat.one_pos).trans hclose)
  | array children =>
    have hopen := Passes.step_none (c := 0x5B) (by decide)
    have hclose := Passes.step (p := .brackets 0x5B 0x5D 1 false) (by simp) 0x5D
    exact hopen.cons ((passes_children_inside children true 0x5B 0x5D 1 (.inl ⟨rfl, rfl⟩)
      Nat.one_pos).trans hclose)

theorem find_behind (v : Built) {ch : UInt8} (hch : ch = 0x2C ∨ ch = 0x3A) (s : List UInt8)
    : FindNextRelevant ch .none (v.compact ++ ch :: s) = some v.compact.length := by
  rw [passes_compact v ch hch, FindNextRelevant, if_pos rfl]
  simp

theorem find_last (v : Built) {ch close : UInt8} (hch : ch = 0x2C ∨ ch = 0x3A)
    (hclose : close = 0x5D ∨ close = 0x7D)
    : FindNextRelevant ch .none (v.compact ++ [close]) = none := by
  have hne : close ≠ ch := by
    rcases hch with rfl | rfl <;> rcases hclose with rfl | rfl <;> decide
  rw [passes_compact v ch hch, FindNextRelevant, if_neg hne, if_pos hclose]
  rfl

theorem find_none (v : Built) {ch : UInt8} (hch : ch = 0x2C ∨ ch = 0x3A)
    : FindNextRelevant ch .none v.compact = none := by
  have hpass := passes_compact v ch hch []
  rw [List.append_nil, FindNextRelevant] at hpass
  exact hpass

def Children.nodes (arrayChild : Bool) : Children → List JSONNode
  | .nil => []
  | .cons name child rest => ⟨if arrayChild then [] else name.bytes, child.compact⟩ :: rest.nodes arrayChild

def Children.size : Children → Nat
  | .nil => 0
  | .cons _ _ rest => rest.size + 1

theorem compact_ne_nil (v : Built) : v.compact ≠ [] := by
  cases v with
  | string s => simp [Built.compact]
  | number n =>
    unfold Built.compact itoa
    split
    . simp
    . exact Decimal.print_ne_nil _
  | bool b => cases b <;> simp [Built.compact, boolText]
  | node children => simp [Built.compact]
  | array children => simp [Built.compact]

theorem size_le_length (children : Children) (arrayChild : Bool)
    : children.size ≤ (children.compact arrayChild).length := by
  match children with
  | .nil => exact Nat.le_refl _
  | .cons name child .nil =>
    have hchild := List.length_pos_iff.mpr (compact_ne_nil child)
    simp only [Children.size, Children.compact, List.length_append]
    omega
  | .cons name child (.cons name' child' rest) =>
    have hrest := size_le_length (.cons name' child' rest) arrayChild
    rw [Children.compact, List.length_append, List.length_cons]
    rw [Children.size]
    omega

theorem find_colon (name : CStr) (s : List UInt8)
    : FindNextRelevant 0x3A .none (compactName false name ++ s)
        =
      some ((markString name.bytes).length + 2) := by
  have hpass := passes_string (quote_not_mem_markString name.bytes) 0x3A (.inr rfl) (0x3A :: s)
  rw [FindNextRelevant, if_pos rfl] at hpass
  have htext : compactName false name ++ s = 0x22 :: (markString name.bytes ++ [0x22]) ++ 0x3A :: s := by
    unfold compactName
    simp
  rw [htext, hpass]
  simp

theorem take_name (name : CStr) (s : List UInt8)
    : (compactName false name ++ s).take ((markString name.bytes).length + 2 - 1)
        =
      0x22 :: markString name.bytes := by
  unfold compactName
  simp

theorem drop_name (name : CStr) (k : Nat) (s : List UInt8)
    : (compactName false name ++ s).drop ((markString name.bytes).length + 2 + k) = (0x3A :: s).drop k := by
  rw [← List.drop_drop]
  congr 1
  unfold compactName
  simp

theorem NewNode_name (name : CStr) (value : List UInt8)
    : NewNode (0x22 :: markString name.bytes) value = ⟨name.bytes, value⟩ := by
  unfold NewNode
  rw [List.drop_one, List.tail_cons, FixString_markString]

theorem find_from_colon (s : List UInt8)
    : FindNextRelevant 0x2C .none (0x3A :: s) = (FindNextRelevant 0x2C .none s).map (· + 1) := by
  rw [FindNextRelevant, if_neg (by decide), if_neg (by decide)]
  rfl

theorem nodeRounds_compact (children : Children) (hne : children ≠ .nil) (n : Nat) (hn : children.size ≤ n)
    : nodeRounds n (children.compact false ++ [0x7D]) = children.nodes false := by
  match children, n with
  | .nil, _ => exact absurd rfl hne
  | .cons _ _ _, 0 => exact absurd hn (Nat.not_succ_le_zero _)
  | .cons name child .nil, n + 1 =>
    rw [Children.compact, List.append_assoc, nodeRounds, find_colon]
    simp only []
    have hcolon := drop_name name 0 (child.compact ++ [0x7D])
    rw [Nat.add_zero, List.drop_zero] at hcolon
    rw [take_name, hcolon, find_from_colon, find_last child (.inl rfl) (.inr rfl), drop_name, NewNode_name]
    simp [Children.nodes]
  | .cons name child (.cons name' child' rest), n + 1 =>
    have hrest := nodeRounds_compact (.cons name' child' rest) (by simp) n (Nat.le_of_succ_le_succ hn)
    rw [Children.compact, List.append_assoc, List.append_assoc, List.cons_append, nodeRounds, find_colon]
    simp only []
    have hcolon := drop_name name 0
      (child.compact ++ 0x2C :: (Children.compact false (.cons name' child' rest) ++ [0x7D]))
    rw [Nat.add_zero, List.drop_zero] at hcolon
    rw [take_name, hcolon, find_from_colon, find_behind child (.inl rfl)]
    simp only [Option.map_some]
    rw [drop_name, Nat.add_assoc ((markString name.bytes).length + 2), drop_name, NewNode_name,
      List.drop_one, List.tail_cons, List.drop_succ_cons, Nat.add_sub_cancel, List.take_left]
    rw [← List.drop_drop, List.drop_left, List.drop_one, List.tail_cons, hrest]
    rfl

theorem DoNode_compact (children : Children)
    : DoNode (Built.node children).compact = children.nodes false := by
  match children with
  | .nil => rfl
  | .cons name child rest =>
    have hsize := size_le_length (.cons name child rest) false
    have hpos : 1 ≤ (Children.cons name child rest).size := by
      rw [Children.size]
      omega
    unfold DoNode Built.compact
    have hlen : ¬(0x7B :: (Children.cons name child rest).compact false ++ [0x7D]).length ≤ 2 := by
      rw [List.length_append, List.length_cons, List.length_singleton]
      omega
    rw [if_neg hlen, List.drop_one, List.cons_append, List.tail_cons]
    apply nodeRounds_compact _ (by simp)
    simp
    omega

theorem arrayRounds_compact (children : Children) (hne : children ≠ .nil) (n : Nat) (hn : children.size ≤ n)
    : arrayRounds n (children.compact true ++ [0x5D]) = children.nodes true := by
  match children, n with
  | .nil, _ => exact absurd rfl hne
  | .cons _ _ _, 0 => exact absurd hn (Nat.not_succ_le_zero _)
  | .cons name child .nil, n + 1 =>
    rw [Children.compact, arrayRounds]
    unfold compactName
    simp only [if_true, List.nil_append]
    rw [find_last child (.inl rfl) (.inl rfl)]
    simp only [List.dropLast_concat]
    rw [find_none child (.inr rfl)]
    rfl
  | .cons name child (.cons name' child' rest), n + 1 =>
    have hrest := arrayRounds_compact (.cons name' child' rest) (by simp) n (Nat.le_of_succ_le_succ hn)
    rw [Children.compact, arrayRounds]
    unfold compactName
    simp only [if_true, List.nil_append, List.append_assoc, List.cons_append]
    rw [find_behind child (.inl rfl)]
    simp only []
    rw [List.take_left, find_none child (.inr rfl), if_pos rfl, ← List.drop_drop, List.drop_left,
      List.drop_one, List.tail_cons, hrest]
    rfl

theorem DoArray_compact (children : Children)
    : DoArray (Built.array children).compact = children.nodes true := by
  match children with
  | .nil => rfl
  | .cons name child rest =>
    have hsize := size_le_length (.cons name child rest) true
    have hpos : 1 ≤ (Children.cons name child rest).size := by
      rw [Children.size]
      omega
    unfold DoArray Built.compact
    have hlen : ¬(0x5B :: (Children.cons name child rest).compact true ++ [0x5D]).length ≤ 2 := by
      rw [List.length_append, List.length_cons, List.length_singleton]
      omega
    rw [if_neg hlen, List.drop_one, List.cons_append, List.tail_cons]
    apply arrayRounds_compact _ (by simp)
    simp
    omega

theorem typeOf_string (s : CStr) : typeOf (Built.string s).compact = .JSON_STRING := by
  unfold typeOf Built.compact
  rw [List.getLast?_concat]
  rfl

theorem typeOf_node (children : Children) : typeOf (Built.node children).compact = .JSON_NODE := by
  unfold typeOf Built.compact
  rw [List.getLast?_concat]
  rfl

theorem typeOf_array (children : Children) : typeOf (Built.array children).compact = .JSON_ARRAY := by
  unfold typeOf Built.compact
  rw [List.getLast?_concat]
  rfl

theorem isNumeric_of_isDigit {c : UInt8} (h : Decimal.isDigit c = true) : isNumeric c = true := by
  unfold isNumeric
  rw [h]
  rfl

theorem typeOf_digits {s : List UInt8} (hne : s ≠ []) (h : ∀ c ∈ s, Decimal.isDigit c = true)
    : typeOf s = .JSON_NUMBER := by
  cases s with
  | nil => exact absurd rfl hne
  | cons c s =>
    have hc := h c List.mem_cons_self
    have hfirst : c ≠ 0x22 ∧ c ≠ 0x7B ∧ c ≠ 0x5B ∧ c ≠ 0x74 ∧ c ≠ 0x66 ∧ c ≠ 0x6E := by
      revert hc
      apply forall_uint8 (p := fun c => Decimal.isDigit c = true →
        c ≠ 0x22 ∧ c ≠ 0x7B ∧ c ≠ 0x5B ∧ c ≠ 0x74 ∧ c ≠ 0x66 ∧ c ≠ 0x6E)
      decide +kernel
    obtain ⟨hquote, hbrace, hbracket, ht, hf, hn⟩ := hfirst
    have hall : (c :: s).all isNumeric = true := by
      rw [List.all_eq_true]
      intro d hd
      exact isNumeric_of_isDigit (h d hd)
    unfold typeOf
    simp only [List.head?_cons]
    rw [if_neg hquote, if_neg hbrace, if_neg hbracket, if_neg ht, if_neg hf, if_neg hn, if_pos hall]

namespace JSONNode

theorem as_string_string (name : List UInt8) (s : CStr)
    : (⟨name, (Built.string s).compact⟩ : JSONNode).as_string = s.bytes := by
  unfold as_string type
  simp only [typeOf_string]
  unfold Built.compact
  rw [List.drop_one, List.cons_append, List.tail_cons, List.dropLast_concat, FixString_markString]

theorem as_string_nullNode : nullNode.as_string = [] := rfl

theorem as_int_compact (name : List UInt8) (n : Nat)
    : (⟨name, (Built.number n).compact⟩ : JSONNode).as_int = if n < 2 ^ 31 then some (n : Int) else none := by
  have hitoa : (Built.number n).compact = Decimal.print n := by
    unfold Built.compact itoa
    rw [if_neg (by omega), Int.natAbs_natCast]
  have hdigits := Decimal.print_isDigit n
  unfold as_int type
  rw [hitoa]
  simp only [typeOf_digits (Decimal.print_ne_nil n) hdigits]
  split
  . next digits hminus =>
    rw [hminus] at hdigits
    exact absurd (hdigits 0x2D List.mem_cons_self) (by decide)
  . have hall : (Decimal.print n).all Decimal.isDigit = true := List.all_eq_true.mpr hdigits
    rw [Decimal.value_print]
    by_cases h : n < 2 ^ 31
    . rw [if_pos ⟨hall, h⟩, if_pos h]
    . rw [if_neg fun hboth => h hboth.2, if_neg h]

theorem as_int_number (name : List UInt8) {n : Nat} (h : n < 2 ^ 31)
    : (⟨name, (Built.number n).compact⟩ : JSONNode).as_int = some (n : Int) :=
  (as_int_compact name n).trans (if_pos h)

theorem children_node (name : List UInt8) (children : Children)
    : (⟨name, (Built.node children).compact⟩ : JSONNode).children = children.nodes false := by
  unfold JSONNode.children type
  simp only [typeOf_node, DoNode_compact]

theorem children_array (name : List UInt8) (children : Children)
    : (⟨name, (Built.array children).compact⟩ : JSONNode).children = children.nodes true := by
  unfold JSONNode.children type
  simp only [typeOf_array, DoArray_compact]

theorem nodes_ofList (l : List (CStr × Built)) (arrayChild : Bool)
    : (Children.ofList l).nodes arrayChild
        =
      l.map fun c => ⟨if arrayChild then [] else c.1.bytes, c.2.compact⟩ := by
  induction l with
  | nil => rfl
  | cons c l ih =>
    obtain ⟨name, child⟩ := c
    rw [Children.ofList, Children.nodes, ih, List.map_cons]

theorem children_array_ofList (name : List UInt8) (l : List (CStr × Built))
    : (⟨name, (Built.array (.ofList l)).compact⟩ : JSONNode).children = l.map fun c => ⟨[], c.2.compact⟩ := by
  rw [children_array, nodes_ofList]
  rfl

theorem at_ofList_eq (name name_t : List UInt8) (l : List (CStr × Built))
    : (⟨name, (Built.node (.ofList l)).compact⟩ : JSONNode).at_ name_t
        =
      ((l.find? fun c => c.1.bytes = name_t).map fun c => ⟨c.1.bytes, c.2.compact⟩).getD nullNode := by
  unfold at_
  rw [children_node, nodes_ofList, List.find?_map]
  rfl

theorem at_ofList (name : List UInt8) {l : List (CStr × Built)} {name_t : CStr} {child : Built}
    (h : l.find? (fun c => c.1.bytes = name_t.bytes) = some (name_t, child))
    : (⟨name, (Built.node (.ofList l)).compact⟩ : JSONNode).at_ name_t.bytes = ⟨name_t.bytes, child.compact⟩ := by
  rw [at_ofList_eq, h]
  rfl

end JSONNode

theorem escape_ne_zero {c : UInt8} (h : c ≠ 0) : 0 ∉ escape c := by
  unfold escape
  split_ifs <;> simp_all [eq_comm]

theorem UnfixString_ne_zero (s : CStr) : 0 ∉ UnfixString s.bytes := by
  unfold UnfixString
  rw [List.mem_flatMap]
  intro ⟨c, hc, hzero⟩
  apply escape_ne_zero _ hzero
  intro hc0
  rw [hc0] at hc
  exact s.nul_notMem hc

theorem itoa_ne_zero (n : Int) : 0 ∉ itoa n := by
  intro h
  exact absurd (itoa_kept n 0 h) (by decide)

theorem indent_ne_zero (n : Nat) : 0 ∉ makeIndent n := by
  unfold makeIndent
  rw [List.mem_replicate]
  intro ⟨_, h⟩
  exact absurd h (by decide)

theorem newLine_ne_zero (indent : Option Nat) : 0 ∉ newLine indent := by
  cases indent with
  | none => simp [newLine]
  | some n =>
    have hn := indent_ne_zero n
    simp [newLine, hn]

theorem WriteName_ne_zero (formatted arrayChild : Bool) (name : CStr) : 0 ∉ WriteName formatted arrayChild name := by
  unfold WriteName
  have hname := UnfixString_ne_zero name
  cases formatted <;> split <;> simp_all

mutual
theorem Write_ne_zero (v : Built) (indent : Option Nat) : 0 ∉ v.Write indent := by
  match v with
  | .string s =>
    have hs := UnfixString_ne_zero s
    rw [Built.Write]
    simp_all
  | .number n =>
    rw [Built.Write]
    exact itoa_ne_zero n
  | .bool b =>
    rw [Built.Write]
    cases b <;> decide
  | .node children =>
    have hchildren := WriteChildren_ne_zero children false indent
    rw [Built.Write]
    simp_all
  | .array children =>
    have hchildren := WriteChildren_ne_zero children true indent
    rw [Built.Write]
    simp_all
theorem WriteChildren_ne_zero (children : Children) (arrayChild : Bool) (indent : Option Nat)
    : 0 ∉ children.WriteChildren arrayChild indent := by
  match children with
  | .nil => simp [Children.WriteChildren]
  | .cons name child .nil =>
    have hname := WriteName_ne_zero indent.isSome arrayChild name
    have hchild := Write_ne_zero child (indent.map (· + 1))
    have hin := newLine_ne_zero (indent.map (· + 1))
    have hout := newLine_ne_zero indent
    rw [Children.WriteChildren]
    simp_all
  | .cons name child (.cons name' child' rest) =>
    have hname := WriteName_ne_zero indent.isSome arrayChild name
    have hchild := Write_ne_zero child (indent.map (· + 1))
    have hin := newLine_ne_zero (indent.map (· + 1))
    have hrest := WriteChildren_ne_zero (.cons name' child' rest) arrayChild indent
    rw [Children.WriteChildren]
    simp_all
end

theorem RemoveWhiteSpace_nil : RemoveWhiteSpace .plain [] = [] := rfl

theorem json_parse_compact {json : CStr} {children : Children}
    (h : RemoveWhiteSpace .plain json.bytes = (Built.node children).compact)
    : json_parse json = ⟨[], (Built.node children).compact⟩ := by
  unfold json_parse
  rw [h]
  unfold Built.compact
  simp only []
  rw [List.getLast?_concat]
  rfl

theorem json_parse_Write {json : CStr} {children : Children} {indent : Option Nat}
    (h : json.bytes = (Built.node children).Write indent)
    : json_parse json = ⟨[], (Built.node children).compact⟩ := by
  apply json_parse_compact
  have hclean := RemoveWhiteSpace_Write (.node children) indent []
  rw [List.append_nil, RemoveWhiteSpace_nil, List.append_nil] at hclean
  rw [h, hclean]

mutual
def Built.ReadAs (node : JSONNode) : Built → Prop
  | .string s => node.type = .JSON_STRING ∧ node.as_string = s.bytes
  | .number n => node.type = .JSON_NUMBER ∧ (-2 ^ 31 ≤ n ∧ n < 2 ^ 31 → node.as_int = some n)
  | .bool b => node.type = .JSON_BOOL ∧ node.as_bool = b
  | .node children => node.type = .JSON_NODE ∧ children.ReadAs false node.children
  | .array children => node.type = .JSON_ARRAY ∧ children.ReadAs true node.children
def Children.ReadAs (arrayChild : Bool) (nodes : List JSONNode) : Children → Prop
  | .nil => nodes = []
  | .cons name child rest =>
    ∃ node nodes', nodes = node :: nodes' ∧ node.name = (if arrayChild then [] else name.bytes) ∧
      child.ReadAs node ∧ rest.ReadAs arrayChild nodes'
end

theorem number_readAs (name : List UInt8) (n : Int) : (Built.number n).ReadAs ⟨name, (Built.number n).compact⟩ := by
  have hdigits := Decimal.print_isDigit n.natAbs
  have hne := Decimal.print_ne_nil n.natAbs
  by_cases hneg : n < 0
  . have htext : (Built.number n).compact = 0x2D :: Decimal.print n.natAbs := by
      rw [Built.compact, itoa, if_pos hneg]
    have hall : (Decimal.print n.natAbs).all isNumeric = true :=
      List.all_eq_true.2 fun c hc => isNumeric_of_isDigit (hdigits c hc)
    have htype : typeOf (0x2D :: Decimal.print n.natAbs) = .JSON_NUMBER := by
      simp [typeOf, hall, isNumeric]
    rw [htext]
    refine ⟨htype, fun hrange => ?_⟩
    unfold JSONNode.as_int JSONNode.type
    simp only [htype, Decimal.value_print]
    rw [if_pos ⟨List.all_eq_true.2 hdigits, by omega⟩]
    exact congrArg some (by omega)
  . obtain ⟨m, rfl⟩ := Int.eq_ofNat_of_zero_le (not_lt.1 hneg)
    have htext : (Built.number (m : Int)).compact = Decimal.print m := by
      rw [Built.compact, itoa, if_neg hneg, Int.natAbs_natCast]
    refine ⟨?_, fun hrange => JSONNode.as_int_number name (by omega)⟩
    rw [htext]
    exact typeOf_digits (Decimal.print_ne_nil m) (Decimal.print_isDigit m)

mutual
theorem readAs_compact (v : Built) (name : List UInt8) : v.ReadAs ⟨name, v.compact⟩ := by
  match v with
  | .string s => exact ⟨typeOf_string s, JSONNode.as_string_string name s⟩
  | .number n => exact number_readAs name n
  | .bool b => cases b <;> exact ⟨rfl, rfl⟩
  | .node children =>
    refine ⟨typeOf_node children, ?_⟩
    rw [JSONNode.children_node]
    exact readAs_nodes children false
  | .array children =>
    refine ⟨typeOf_array children, ?_⟩
    rw [JSONNode.children_array]
    exact readAs_nodes children true
theorem readAs_nodes (children : Children) (arrayChild : Bool)
    : children.ReadAs arrayChild (children.nodes arrayChild) := by
  match children with
  | .nil => rfl
  | .cons name child rest => exact ⟨_, _, rfl, rfl, readAs_compact child _, readAs_nodes rest arrayChild⟩
end

/--
What is written comes back, with or without indentation: the types, strings, numbers and truth values, and the
children under their names.
-/
theorem json_parse_write_readAs (children : Children) (indent : Option Nat)
    : (Built.node children).ReadAs (json_parse (.ofMem ((Built.node children).Write indent))) ∧
      (Built.array children).ReadAs (json_parse (.ofMem ((Built.array children).Write indent))) := by
  have hbytes (v : Built) : (CStr.ofMem (v.Write indent)).bytes = v.Write indent :=
    CStr.takeWhile_bytes ⟨v.Write indent, Write_ne_zero v indent⟩
  have hclean (v : Built) : RemoveWhiteSpace .plain (CStr.ofMem (v.Write indent)).bytes = v.compact := by
    have h := RemoveWhiteSpace_Write v indent []
    rwa [List.append_nil, RemoveWhiteSpace_nil, List.append_nil, ← hbytes v] at h
  refine ⟨?_, ?_⟩
  . rw [json_parse_compact (hclean (.node children))]
    exact readAs_compact (.node children) []
  . have hparse : json_parse (.ofMem ((Built.array children).Write indent)) = ⟨[], (Built.array children).compact⟩ := by
      unfold json_parse
      rw [hclean]
      unfold Built.compact
      simp only []
      rw [List.getLast?_concat]
      rfl
    rw [hparse]
    exact readAs_compact (.array children) []

end LibJson
