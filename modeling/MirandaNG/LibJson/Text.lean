import MirandaNG.Core.UtfText
import MirandaNG.LibJson.RoundTrip

/-!
This module contains facts about all bytes of a written node: that they are UTF-8 if its strings are, which of them
come from the strings, and what is left of the text when it is cut.
-/

namespace LibJson

mutual
def Built.All (p : CStr → Prop) : Built → Prop
  | .string s => p s
  | .number _ => True
  | .bool _ => True
  | .node children => children.All p false
  | .array children => children.All p true
def Children.All (p : CStr → Prop) (arrayChild : Bool) : Children → Prop
  | .nil => True
  | .cons name child rest => (arrayChild = false → p name) ∧ child.All p ∧ rest.All p arrayChild
end

theorem all_ofList (p : CStr → Prop) (arrayChild : Bool) (l : List (CStr × Built))
    : (Children.ofList l).All p arrayChild ↔ ∀ c ∈ l, (arrayChild = false → p c.1) ∧ c.2.All p := by
  induction l with
  | nil => simp [Children.ofList, Children.All]
  | cons c l ih =>
    obtain ⟨name, child⟩ := c
    rw [Children.ofList, Children.All, ih, List.forall_mem_cons, and_assoc]

theorem isText_escape (b : UInt8) (hzero : b ≠ 0) (hlow : b < 0x80) : Utf.IsText (escape b) := by
  apply Utf.IsText.of_ascii
  unfold escape
  split_ifs <;> simp
  exact ⟨hzero, hlow⟩

theorem isText_UnfixString {s : CStr} (h : Utf.IsText s.bytes) : Utf.IsText (UnfixString s.bytes) := by
  apply h.flatMap
  . intro b hb
    have hne : ∀ c : UInt8, c < 0x80 → b ≠ c := by
      rintro c hc rfl
      exact absurd hb (UInt8.not_le.mpr hc)
    unfold escape
    rw [if_neg (hne _ (by decide)), if_neg (hne _ (by decide)), if_neg (hne _ (by decide)),
      if_neg (hne _ (by decide)), if_neg (hne _ (by decide)), if_neg (hne _ (by decide)),
      if_neg (hne _ (by decide)), if_neg (hne _ (by decide)), if_neg (hne _ (by decide))]
  . exact isText_escape

theorem isText_quote : Utf.IsText [0x22] := .ascii (by decide) (by decide)

theorem isText_digits (n : Nat) : Utf.IsText (Decimal.print n) := by
  apply Utf.IsText.of_ascii
  intro c hc
  have hdigit := Decimal.print_isDigit n c hc
  revert hdigit
  apply forall_halves (p := fun c => Decimal.isDigit c = true → c ≠ 0 ∧ c < 0x80)
  decide

theorem isText_itoa (n : Int) : Utf.IsText (itoa n) := by
  unfold itoa
  split
  . have hminus : Utf.IsText [0x2D] := .ascii (by decide) (by decide)
    exact hminus.append (isText_digits _)
  . apply isText_digits

theorem isText_newLine (indent : Option Nat) : Utf.IsText (newLine indent) := by
  cases indent with
  | none => exact .nil
  | some n =>
    apply Utf.IsText.of_ascii
    intro c hc
    unfold newLine makeIndent at hc
    rw [List.mem_cons, List.mem_replicate] at hc
    obtain rfl | ⟨_, rfl⟩ := hc <;> decide

theorem isText_WriteName (formatted : Bool) {arrayChild : Bool} {name : CStr}
    (h : arrayChild = false → Utf.IsText name.bytes)
    : Utf.IsText (WriteName formatted arrayChild name) := by
  unfold WriteName
  have hcolon : ∀ formatted : Bool,
      Utf.IsText (if formatted = true then [0x22, 0x20, 0x3A, 0x20] else [0x22, 0x3A]) := by
    intro formatted
    apply Utf.IsText.of_ascii
    cases formatted <;> decide +kernel
  split
  . exact .nil
  . next harray =>
    have hname := isText_quote.append (isText_UnfixString (h (by simpa using harray)))
    exact hname.append (hcolon formatted)

mutual
theorem isText_Write (v : Built) (h : v.All fun s => Utf.IsText s.bytes) (indent : Option Nat)
    : Utf.IsText (v.Write indent) := by
  match v with
  | .string s =>
    rw [Built.Write]
    exact (isText_quote.append (isText_UnfixString h)).append isText_quote
  | .number n =>
    rw [Built.Write]
    exact isText_itoa n
  | .bool b =>
    rw [Built.Write]
    apply Utf.IsText.of_ascii
    cases b <;> decide +kernel
  | .node children =>
    have hopen : Utf.IsText [0x7B] := .ascii (by decide) (by decide)
    have hclose : Utf.IsText [0x7D] := .ascii (by decide) (by decide)
    rw [Built.Write]
    exact (hopen.append (isText_WriteChildren children h indent)).append hclose
  | .array children =>
    have hopen : Utf.IsText [0x5B] := .ascii (by decide) (by decide)
    have hclose : Utf.IsText [0x5D] := .ascii (by decide) (by decide)
    rw [Built.Write]
    exact (hopen.append (isText_WriteChildren children h indent)).append hclose
theorem isText_WriteChildren (children : Children) {arrayChild : Bool}
    (h : children.All (fun s => Utf.IsText s.bytes) arrayChild) (indent : Option Nat)
    : Utf.IsText (children.WriteChildren arrayChild indent) := by
  match children with
  | .nil =>
    rw [Children.WriteChildren]
    exact .nil
  | .cons name child .nil =>
    have hname := (isText_newLine (indent.map (· + 1))).append (isText_WriteName indent.isSome h.1)
    have hchild := hname.append (isText_Write child h.2.1 (indent.map (· + 1)))
    rw [Children.WriteChildren]
    exact hchild.append (isText_newLine indent)
  | .cons name child (.cons name' child' rest) =>
    have hname := (isText_newLine (indent.map (· + 1))).append (isText_WriteName indent.isSome h.1)
    have hchild := hname.append (isText_Write child h.2.1 (indent.map (· + 1)))
    have hcomma : Utf.IsText [0x2C] := .ascii (by decide) (by decide)
    have hrest := hcomma.append (isText_WriteChildren (.cons name' child' rest) h.2.2 indent)
    rw [Children.WriteChildren]
    exact hchild.append hrest
end

section

variable {P : UInt8 → Prop}

theorem forall_name (hquote : P 0x22) (hcolon : P 0x3A) (arrayChild : Bool) (name : CStr)
    : (∀ c ∈ WriteName false arrayChild name, P c) ↔ (arrayChild = false → ∀ c ∈ UnfixString name.bytes, P c) := by
  unfold WriteName
  cases arrayChild with
  | true => simp
  | false => simp [or_imp, forall_and, hquote, hcolon]

mutual
theorem forall_Write (hkept : ∀ c, isKept c = true → P c) (hquote : P 0x22) (v : Built)
    : (∀ c ∈ v.Write none, P c) ↔ v.All fun s => ∀ c ∈ UnfixString s.bytes, P c := by
  match v with
  | .string s =>
    rw [Built.Write, Built.All]
    simp [or_imp, forall_and, hquote]
  | .number n =>
    rw [Built.Write, Built.All, iff_true]
    intro c hc
    exact hkept c (itoa_kept n c hc)
  | .bool b =>
    rw [Built.Write, Built.All, iff_true]
    intro c hc
    exact hkept c (boolText_kept b c hc)
  | .node children =>
    rw [Built.Write, Built.All, ← forall_WriteChildren hkept hquote children false]
    simp [or_imp, forall_and, hkept 0x7B rfl, hkept 0x7D rfl]
  | .array children =>
    rw [Built.Write, Built.All, ← forall_WriteChildren hkept hquote children true]
    simp [or_imp, forall_and, hkept 0x5B rfl, hkept 0x5D rfl]
theorem forall_WriteChildren (hkept : ∀ c, isKept c = true → P c) (hquote : P 0x22) (children : Children)
    (arrayChild : Bool)
    : (∀ c ∈ children.WriteChildren arrayChild none, P c)
        ↔
      children.All (fun s => ∀ c ∈ UnfixString s.bytes, P c) arrayChild := by
  match children with
  | .nil =>
    rw [Children.WriteChildren, Children.All]
    simp
  | .cons name child .nil =>
    rw [Children.WriteChildren, Children.All, Children.All, ← forall_Write hkept hquote child,
      ← forall_name hquote (hkept 0x3A rfl) arrayChild name]
    simp [or_imp, forall_and, newLine]
  | .cons name child (.cons name' child' rest) =>
    rw [Children.WriteChildren, Children.All, ← forall_Write hkept hquote child,
      ← forall_WriteChildren hkept hquote (.cons name' child' rest) arrayChild,
      ← forall_name hquote (hkept 0x3A rfl) arrayChild name]
    simp [or_imp, forall_and, newLine, hkept 0x2C rfl]
end

end

theorem not_mem_UnfixString {c : UInt8} (s : List UInt8) (h : ∀ b, b ≠ c → c ∉ escape b) (hself : c ∈ escape c)
    : c ∉ UnfixString s ↔ c ∉ s := by
  unfold UnfixString
  rw [List.mem_flatMap]
  constructor
  . intro hnot hmem
    exact hnot ⟨c, hmem, hself⟩
  . rintro hnot ⟨b, hb, hc⟩
    apply h b _ hc
    intro heq
    exact hnot (heq ▸ hb)

inductive Reads where
  | plain
  | quoted
  | escaped

def Reads.place : Reads → Place
  | .plain => .plain
  | .quoted => .quoted
  | .escaped => .escaped

def walk : Reads → List UInt8 → Option Reads
  | p, [] => some p
  | .plain, c :: s => if c = 0x22 then walk .quoted s else if isKept c then walk .plain s else none
  | .quoted, c :: s => walk (if c = 0x22 then .plain else if c = 0x5C then .escaped else .quoted) s
  | .escaped, _ :: s => walk .quoted s

theorem walk_append (p : Reads) (t s : List UInt8) : walk p (t ++ s) = (walk p t).bind (walk · s) := by
  fun_induction walk p t with
  | case1 => rfl
  | case2 s' ih => rw [List.cons_append, walk, if_pos rfl, ih]
  | case3 c s' hquote hkept ih => rw [List.cons_append, walk, if_neg hquote, if_pos hkept, ih]
  | case4 c s' hquote hkept =>
    rw [List.cons_append, walk, if_neg hquote, if_neg hkept]
    rfl
  | case5 c s' ih => rw [List.cons_append, walk, ih]
  | case6 c s' ih => rw [List.cons_append, walk, ih]

theorem walk_trans {p p' : Reads} {t s : List UInt8} (h : walk p t = some p')
    : walk p (t ++ s) = walk p' s := by
  rw [walk_append, h, Option.bind_some]

theorem walk_kept {t : List UInt8} (h : ∀ c ∈ t, isKept c = true) : walk .plain t = some .plain := by
  induction t with
  | nil => rfl
  | cons c t ih =>
    have hc := h c List.mem_cons_self
    have hquote : c ≠ 0x22 := by
      rintro rfl
      cases hc
    rw [walk, if_neg hquote, if_pos hc, ih fun d hd => h d (List.mem_cons_of_mem c hd)]

theorem walk_escape (b : UInt8) : (walk .quoted (escape b)).map Reads.place = some .quoted := by
  apply forall_halves (p := fun b => (walk .quoted (escape b)).map Reads.place = some .quoted)
  decide

theorem walk_UnfixString (s : List UInt8) : walk .quoted (UnfixString s) = some .quoted := by
  unfold UnfixString
  induction s with
  | nil => rfl
  | cons b s ih =>
    have hb : walk .quoted (escape b) = some .quoted := by
      have hplace := walk_escape b
      cases hwalk : walk .quoted (escape b) with
      | none =>
        rw [hwalk] at hplace
        cases hplace
      | some p =>
        rw [hwalk] at hplace
        cases p with
        | quoted => rfl
        | plain => cases hplace
        | escaped => cases hplace
    rw [List.flatMap_cons, walk_trans hb, ih]

theorem walk_quoted (s rest : List UInt8)
    : walk .plain (0x22 :: (UnfixString s ++ 0x22 :: rest)) = walk .plain rest := by
  rw [walk, if_pos rfl, walk_trans (walk_UnfixString s), walk, if_pos rfl]

theorem walk_cons {c : UInt8} (h : isKept c = true) (s : List UInt8) : walk .plain (c :: s) = walk .plain s :=
  walk_trans (t := [c]) (walk_kept (by simpa using h))

theorem walk_name (arrayChild : Bool) (name : CStr) (s : List UInt8)
    : walk .plain (WriteName false arrayChild name ++ s) = walk .plain s := by
  unfold WriteName
  cases arrayChild with
  | true => rfl
  | false =>
    have hquoted := walk_quoted name.bytes (0x3A :: s)
    rw [walk_cons (c := 0x3A) rfl] at hquoted
    simpa using hquoted

mutual
theorem walk_Write (v : Built) (s : List UInt8) : walk .plain (v.Write none ++ s) = walk .plain s := by
  match v with
  | .string value =>
    have hquoted := walk_quoted value.bytes s
    simpa [Built.Write] using hquoted
  | .number n => exact walk_trans (walk_kept (itoa_kept n))
  | .bool b => exact walk_trans (walk_kept (boolText_kept b))
  | .node children =>
    have hinner := walk_WriteChildren children false (0x7D :: s)
    rw [walk_cons rfl] at hinner
    rw [Built.Write, List.append_assoc, List.cons_append, walk_cons rfl]
    exact hinner
  | .array children =>
    have hinner := walk_WriteChildren children true (0x5D :: s)
    rw [walk_cons rfl] at hinner
    rw [Built.Write, List.append_assoc, List.cons_append, walk_cons rfl]
    exact hinner
theorem walk_WriteChildren (children : Children) (arrayChild : Bool) (s : List UInt8)
    : walk .plain (children.WriteChildren arrayChild none ++ s) = walk .plain s := by
  match children with
  | .nil => rfl
  | .cons name child .nil =>
    rw [Children.WriteChildren]
    simp only [newLine, Option.map_none, Option.isSome_none, List.nil_append, List.append_nil, List.append_assoc]
    rw [walk_name, walk_Write child]
  | .cons name child (.cons name' child' rest) =>
    have hrest := walk_WriteChildren (.cons name' child' rest) arrayChild s
    rw [Children.WriteChildren]
    simp only [newLine, Option.map_none, Option.isSome_none, List.nil_append, List.append_assoc, List.cons_append]
    rw [walk_name, walk_Write child, walk_cons rfl, hrest]
end

theorem RemoveWhiteSpace_walk {p p' : Reads} {t : List UInt8} (h : walk p t = some p')
    : ∃ out, ∀ s, RemoveWhiteSpace p.place (t ++ s) = out ++ RemoveWhiteSpace p'.place s := by
  fun_induction walk p t with
  | case1 p =>
    cases h
    exact ⟨[], fun s => rfl⟩
  | case2 t ih =>
    obtain ⟨out, hout⟩ := ih h
    refine ⟨0x22 :: out, fun s => ?_⟩
    rw [List.cons_append, Reads.place, RemoveWhiteSpace_quote, List.cons_append, ← hout s]
    rfl
  | case3 c t hquote hkept ih =>
    obtain ⟨out, hout⟩ := ih h
    refine ⟨c :: out, fun s => ?_⟩
    rw [List.cons_append, Reads.place, RemoveWhiteSpace_kept hkept, List.cons_append, ← hout s]
    rfl
  | case4 => cases h
  | case5 c t ih =>
    obtain ⟨out, hout⟩ := ih h
    refine ⟨c :: out, fun s => ?_⟩
    rw [List.cons_append, List.cons_append, ← hout s, Reads.place, RemoveWhiteSpace]
    split_ifs with hquote hslash
    . rw [hquote]
      rfl
    . rw [hslash]
      rfl
    . rfl
  | case6 c t ih =>
    obtain ⟨out, hout⟩ := ih h
    refine ⟨(if c = 0x22 then 1 else c) :: out, fun s => ?_⟩
    rw [List.cons_append, List.cons_append, ← hout s]
    simp only [Reads.place]
    rw [RemoveWhiteSpace]

theorem RemoveWhiteSpace_letters (p : Reads) (n : Nat)
    : RemoveWhiteSpace p.place (List.replicate n 0x78) = List.replicate n 0x78 := by
  induction n generalizing p with
  | zero => cases p <;> rfl
  | succ n ih =>
    rw [List.replicate_succ]
    cases p with
    | plain =>
      have hrest := ih .plain
      simp only [Reads.place] at hrest ⊢
      rw [RemoveWhiteSpace_kept rfl, hrest]
    | quoted =>
      have hrest := ih .quoted
      simp only [Reads.place] at hrest ⊢
      rw [RemoveWhiteSpace, if_neg (by decide), if_neg (by decide), hrest]
    | escaped =>
      have hrest := ih .quoted
      simp only [Reads.place] at hrest ⊢
      rw [RemoveWhiteSpace, if_neg (by decide), hrest]

theorem json_parse_cut {v : Built} {t rest : List UInt8} {json : CStr} (ht : v.Write none = t ++ rest) (n : Nat)
    (hjson : json.bytes = t ++ List.replicate (n + 1) 0x78)
    : json_parse json = nullNode := by
  have hwhole := walk_Write v []
  rw [List.append_nil, ht, walk_append] at hwhole
  obtain ⟨p, hp, _⟩ := Option.bind_eq_some_iff.mp hwhole
  obtain ⟨out, hout⟩ := RemoveWhiteSpace_walk hp
  have hclean := hout (List.replicate (n + 1) 0x78)
  rw [RemoveWhiteSpace_letters] at hclean
  have hlast : (RemoveWhiteSpace .plain json.bytes).getLast? = some 0x78 := by
    have hplace : Reads.plain.place = .plain := rfl
    rw [hjson, ← hplace, hclean, List.replicate_succ', ← List.append_assoc, List.getLast?_concat]
  unfold json_parse
  simp only []
  rw [hlast]
  split
  . next heq => cases heq
  . next heq => cases heq
  . rfl

end LibJson
