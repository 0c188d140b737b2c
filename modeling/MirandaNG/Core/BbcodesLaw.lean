import Mathlib.Logic.Relation
import MirandaNG.Core.Bbcodes

/-!
This module proves for which texts `RemoveBbcodes` ends and leaves no tag behind.
-/

namespace Bbcodes

open CMString

variable {bStripUrl : Bool} {it : BBCode} {pre text tail result p : List UInt16} {i : Nat} {c : UInt16}

def BeginsWithTag (bStripUrl : Bool) (text : List UInt16) : Prop :=
  ∃ it ∈ bbcodes, it.isHandled bStripUrl ∧ it.pStart <+: text ∧
    (it.isOpen → closeBracket ∈ text.drop it.pStart.length)

def NoTag (bStripUrl : Bool) (text : List UInt16) : Prop := ∀ s, s <:+ text → ¬BeginsWithTag bStripUrl s

inductive Completes (bStripUrl : Bool) : List UInt16 → Bool → List UInt16 → Prop where
  | done {text : List UInt16} : Completes bStripUrl [] false text
  | closed {text : List UInt16} : Completes bStripUrl [] true (closeBracket :: text)
  | skip {c : UInt16} {text : List UInt16} (hc : c ≠ openBracket) (h : Completes bStripUrl [] true text)
      : Completes bStripUrl [] true (c :: text)
  | bracket {text : List UInt16} (hnone : findCode bStripUrl (openBracket :: text) = none)
      (h : Completes bStripUrl [] true text)
      : Completes bStripUrl [] true (openBracket :: text)
  | char {c : UInt16} {p text : List UInt16} {isOpen : Bool} (hc : c ≠ openBracket)
      (h : Completes bStripUrl p isOpen text)
      : Completes bStripUrl (c :: p) isOpen (c :: text)
  | code {it : BBCode} {p text : List UInt16} {isOpen : Bool} (hcode : findCode bStripUrl text = some it)
      (h : Completes bStripUrl p isOpen (strip it text))
      : Completes bStripUrl p isOpen text

inductive Next (bStripUrl : Bool) : List UInt16 → List UInt16 → Prop where
  | char {c : UInt16} {text : List UInt16} (hc : c ≠ openBracket) : Next bStripUrl (c :: text) text
  | bracket {text : List UInt16} (hnone : findCode bStripUrl (openBracket :: text) = none)
      : Next bStripUrl (openBracket :: text) text
  | code {it : BBCode} {text : List UInt16} (hcode : findCode bStripUrl text = some it)
      : Next bStripUrl text (strip it text)

structure CleanHere (bStripUrl : Bool) (text : List UInt16) : Prop where
  closed : ∀ it, findCode bStripUrl text = some it → it.isOpen → it.isUrl ∨ closeBracket ∈ text.drop it.pStart.length
  free : ∀ tail, text = openBracket :: tail → findCode bStripUrl text = none →
    ∀ it ∈ bbcodes, it.isHandled bStripUrl → ¬Completes bStripUrl it.pStart.tail it.isOpen tail

def Clean (bStripUrl : Bool) (text : List UInt16) : Prop :=
  ∀ s, Relation.ReflTransGen (Next bStripUrl) text s → CleanHere bStripUrl s

theorem clean_iff : Clean bStripUrl text ↔ CleanHere bStripUrl text ∧ ∀ s, Next bStripUrl text s → Clean bStripUrl s := by
  constructor
  . intro h
    exact ⟨h text .refl, fun s hs t ht => h t (.head hs ht)⟩
  . rintro ⟨hhere, hnext⟩ s hs
    rcases hs.cases_head with rfl | ⟨t, ht, hts⟩
    . exact hhere
    . exact hnext t ht s hts

theorem BBCode.WellFormed.pStart_eq (h : it.WellFormed) : it.pStart = openBracket :: it.pStart.tail := by
  have hhead := h.head
  cases hstart : it.pStart with
  | nil =>
    rw [hstart] at hhead
    cases hhead
  | cons c p =>
    rw [hstart] at hhead
    rw [Option.some_inj.1 hhead]
    rfl

theorem noTag_nil : NoTag bStripUrl [] := by
  intro s hs
  rw [List.suffix_nil.1 hs]
  rintro ⟨it, hmem, -, hstart, -⟩
  have hhead := (wellFormed_of_mem it hmem).head
  rw [List.prefix_nil.1 hstart] at hhead
  cases hhead

theorem noTag_cons : NoTag bStripUrl (c :: text) ↔ ¬BeginsWithTag bStripUrl (c :: text) ∧ NoTag bStripUrl text := by
  unfold NoTag
  simp only [List.suffix_cons_iff, or_imp, forall_and, forall_eq]

theorem beginsWithTag_bracket
    : BeginsWithTag bStripUrl (openBracket :: text) ↔
        ∃ it ∈ bbcodes, it.isHandled bStripUrl ∧ it.pStart.tail <+: text ∧
          (it.isOpen → closeBracket ∈ text.drop it.pStart.tail.length) := by
  apply exists_congr
  intro it
  apply and_congr_right
  intro hmem
  rw [(wellFormed_of_mem it hmem).pStart_eq, List.prefix_cons_inj, List.length_cons, List.drop_succ_cons, List.tail_cons]

theorem not_beginsWithTag_of_ne (hc : c ≠ openBracket) : ¬BeginsWithTag bStripUrl (c :: text) := by
  rintro ⟨it, hmem, -, ⟨tail, htail⟩, -⟩
  rw [(wellFormed_of_mem it hmem).pStart_eq] at htail
  cases htail
  exact hc rfl

theorem Completes.prefix_of_scan {isOpen : Bool} (h : Completes bStripUrl p isOpen text)
    (hscan : Scan bStripUrl text result)
    : p <+: result ∧ (isOpen → closeBracket ∈ result.drop p.length) := by
  induction h generalizing result with
  | done => exact ⟨List.nil_prefix, nofun⟩
  | closed =>
    cases hscan with
    | char hc hscan => exact ⟨List.nil_prefix, fun _ => List.mem_cons_self⟩
    | code hcode => exact absurd (findCode_head hcode) (by decide)
  | skip hc h ih =>
    cases hscan with
    | char _ hscan => exact ⟨List.nil_prefix, fun ho => List.mem_cons_of_mem _ ((ih hscan).2 ho)⟩
    | bracket => exact absurd rfl hc
    | code hcode => exact absurd (findCode_head hcode) hc
  | bracket hnone h ih =>
    cases hscan with
    | char hc => exact absurd rfl hc
    | bracket _ hscan => exact ⟨List.nil_prefix, fun ho => List.mem_cons_of_mem _ ((ih hscan).2 ho)⟩
    | code hcode =>
      rw [hnone] at hcode
      cases hcode
  | char hc h ih =>
    cases hscan with
    | char _ hscan => exact ⟨(List.prefix_cons_inj _).2 (ih hscan).1, (ih hscan).2⟩
    | bracket => exact absurd rfl hc
    | code hcode => exact absurd (findCode_head hcode) hc
  | code hcode h ih =>
    cases hscan with
    | nil =>
      rw [findCode_nil] at hcode
      cases hcode
    | char hc => exact absurd (findCode_head hcode) hc
    | bracket hnone =>
      rw [hnone] at hcode
      cases hcode
    | code hcode' hscan =>
      rw [hcode] at hcode'
      cases hcode'
      exact ih hscan

theorem Completes.of_scan {isOpen : Bool} (h : Scan bStripUrl text result) (hp : openBracket ∉ p)
    (hstart : p <+: result) (hclosed : isOpen → closeBracket ∈ result.drop p.length)
    : Completes bStripUrl p isOpen text := by
  induction h generalizing p with
  | nil =>
    obtain rfl := List.prefix_nil.1 hstart
    cases isOpen with
    | false => exact .done
    | true => exact absurd (hclosed rfl) List.not_mem_nil
  | @char c text result hc h ih =>
    cases p with
    | nil =>
      cases isOpen with
      | false => exact .done
      | true =>
        rcases List.mem_cons.1 (hclosed rfl) with rfl | hmem
        . exact .closed
        . exact .skip hc (ih List.not_mem_nil List.nil_prefix fun _ => hmem)
    | cons c' p =>
      rw [List.mem_cons, not_or] at hp
      obtain ⟨rfl, hstart'⟩ := List.cons_prefix_cons.1 hstart
      exact .char hc (ih hp.2 hstart' hclosed)
  | @bracket text result hnone h ih =>
    cases p with
    | nil =>
      cases isOpen with
      | false => exact .done
      | true =>
        rcases List.mem_cons.1 (hclosed rfl) with hbracket | hmem
        . exact absurd hbracket (by decide)
        . exact .bracket hnone (ih List.not_mem_nil List.nil_prefix fun _ => hmem)
    | cons c' p =>
      rw [List.mem_cons, not_or] at hp
      exact absurd (List.cons_prefix_cons.1 hstart).1.symm hp.1
  | code hcode h ih => exact .code hcode (ih hp hstart hclosed)

theorem closeUrl_length (tail : List UInt16) : (closeUrl tail).length = tail.length := by
  unfold closeUrl
  split
  . rfl
  . exact List.length_set

theorem stripEnd_length_le (it : BBCode) (text : List UInt16) : (stripEnd it text).length ≤ text.length := by
  unfold stripEnd removeFirst
  split
  . exact Nat.le_refl _
  . split
    . exact Nat.le_refl _
    . rw [List.length_append, List.length_take, List.length_drop]
      omega

theorem strip_length_lt (hcode : findCode bStripUrl text = some it)
    (hclosed : it.isOpen → it.isUrl ∨ closeBracket ∈ text.drop it.pStart.length)
    : (strip it text).length < text.length := by
  obtain ⟨-, hit, -, tail, rfl⟩ := findCode_spec hcode
  have hpos : 0 < it.pStart.length := by
    rw [hit.pStart_eq]
    exact Nat.succ_pos _
  have hle := stripEnd_length_le it (stripStart it (it.pStart ++ tail))
  rw [List.drop_left] at hclosed
  unfold strip
  unfold stripStart at hle ⊢
  rw [List.drop_left] at hle ⊢
  rw [List.length_append]
  cases hu : it.isUrl with
  | true =>
    have hlength := (hit.opened (hit.url.1 hu).1).2
    rw [hu, if_pos rfl, closeUrl_length] at hle
    rw [if_pos rfl, if_pos rfl, List.length_cons]
    omega
  | false =>
    rw [hu, if_neg Bool.false_ne_true] at hle
    rw [if_neg Bool.false_ne_true, if_neg Bool.false_ne_true]
    cases ho : it.isOpen with
    | false =>
      rw [ho, if_neg Bool.false_ne_true] at hle
      rw [if_neg Bool.false_ne_true]
      omega
    | true =>
      rw [ho, if_pos rfl] at hle
      rw [if_pos rfl]
      cases hfind : tail.idxOf? closeBracket with
      | none =>
        rw [hu] at hclosed
        exact absurd ((hclosed ho).resolve_left Bool.false_ne_true) (List.idxOf?_eq_none_iff.1 hfind)
      | some i =>
        rw [hfind] at hle
        dsimp only at hle ⊢
        rw [List.length_drop] at hle
        omega

theorem Clean.exists_scan (h : Clean bStripUrl text)
    : ∃ result, Scan bStripUrl text result ∧ NoTag bStripUrl result := by
  induction hlength : text.length using Nat.strong_induction_on generalizing text with
  | _ n ih =>
    obtain ⟨hhere, hnext⟩ := clean_iff.1 h
    cases hcode : findCode bStripUrl text with
    | some it =>
      have hlt := strip_length_lt hcode (hhere.closed it hcode)
      obtain ⟨result, hscan, hno⟩ := ih _ (hlength ▸ hlt) (hnext _ (.code hcode)) rfl
      exact ⟨result, .code hcode hscan, hno⟩
    | none =>
      cases text with
      | nil => exact ⟨[], .nil, noTag_nil⟩
      | cons c text =>
        rw [List.length_cons] at hlength
        by_cases hc : c = openBracket
        . subst hc
          obtain ⟨result, hscan, hno⟩ := ih _ (by omega) (hnext _ (.bracket hcode)) rfl
          refine ⟨_, .bracket hcode hscan, noTag_cons.2 ⟨?_, hno⟩⟩
          rw [beginsWithTag_bracket]
          rintro ⟨it, hmem, hhandled, hstart, hclosed⟩
          exact hhere.free text rfl hcode it hmem hhandled
            (.of_scan hscan (wellFormed_of_mem it hmem).tail hstart hclosed)
        . obtain ⟨result, hscan, hno⟩ := ih _ (by omega) (hnext _ (.char hc)) rfl
          exact ⟨_, .char hc hscan, noTag_cons.2 ⟨not_beginsWithTag_of_ne hc, hno⟩⟩

theorem strip_of_unclosed (hcode : findCode bStripUrl text = some it) (ho : it.isOpen) (hu : it.isUrl = false)
    (hclosed : closeBracket ∉ text.drop it.pStart.length)
    : strip it text = text := by
  obtain ⟨-, hit, -, tail, rfl⟩ := findCode_spec hcode
  rw [List.drop_left] at hclosed
  have hstart : stripStart it (it.pStart ++ tail) = it.pStart ++ tail := by
    unfold stripStart
    rw [List.drop_left, hu, if_neg Bool.false_ne_true, if_pos ho, List.idxOf?_eq_none_iff.2 hclosed]
  unfold strip
  rw [hu, if_neg Bool.false_ne_true, hstart]
  unfold stripEnd
  cases hend : it.pEnd with
  | none => rfl
  | some pEnd =>
    unfold removeFirst
    dsimp only
    cases hfind : strstr pEnd (it.pStart ++ tail) with
    | none => rfl
    | some i =>
      have hmem := mem_of_strstr hfind (hit.ending pEnd hend).1
      rcases List.mem_append.1 hmem with hmem | hmem
      . exact absurd hmem (hit.opened ho).1
      . exact absurd hmem hclosed

theorem Clean.of_scan (h : Scan bStripUrl text result) (hno : NoTag bStripUrl result) : Clean bStripUrl text := by
  induction h with
  | nil =>
    refine clean_iff.2 ⟨⟨fun it hcode => ?_, nofun⟩, fun s hs => ?_⟩
    . rw [findCode_nil] at hcode
      cases hcode
    . cases hs with
      | code hcode =>
        rw [findCode_nil] at hcode
        cases hcode
  | char hc h ih =>
    refine clean_iff.2 ⟨⟨fun it hcode => absurd (findCode_head hcode) hc, fun tail htail => ?_⟩, fun s hs => ?_⟩
    . cases htail
      exact absurd rfl hc
    . cases hs with
      | char => exact ih (noTag_cons.1 hno).2
      | bracket => exact absurd rfl hc
      | code hcode => exact absurd (findCode_head hcode) hc
  | bracket hnone h ih =>
    refine clean_iff.2 ⟨⟨fun it hcode => ?_, fun tail htail _ it hmem hhandled hcompletes => ?_⟩, fun s hs => ?_⟩
    . rw [hnone] at hcode
      cases hcode
    . cases htail
      exact (noTag_cons.1 hno).1 (beginsWithTag_bracket.2 ⟨it, hmem, hhandled, hcompletes.prefix_of_scan h⟩)
    . cases hs with
      | char hc => exact absurd rfl hc
      | bracket => exact ih (noTag_cons.1 hno).2
      | code hcode =>
        rw [hnone] at hcode
        cases hcode
  | @code it text result hcode h ih =>
    by_cases hclosed : it.isOpen → it.isUrl ∨ closeBracket ∈ text.drop it.pStart.length
    . refine clean_iff.2 ⟨⟨fun it' hcode' => ?_, fun tail _ hnone => ?_⟩, fun s hs => ?_⟩
      . rw [hcode] at hcode'
        cases hcode'
        exact hclosed
      . rw [hcode] at hnone
        cases hnone
      . cases hs with
        | char hc => exact absurd (findCode_head hcode) hc
        | bracket hnone =>
          rw [hcode] at hnone
          cases hnone
        | code hcode' =>
          rw [hcode] at hcode'
          cases hcode'
          exact ih hno
    . -- the loop would come to this very text again
      push Not at hclosed
      obtain ⟨ho, hu, hmem⟩ := hclosed
      have hclean := ih hno
      rw [strip_of_unclosed hcode ho (Bool.not_eq_true _ ▸ hu) hmem] at hclean
      exact hclean

inductive Step (bStripUrl : Bool) : List UInt16 → List UInt16 → Prop where
  | start {it : BBCode} {pre tail : List UInt16} (hmem : it ∈ bbcodes) (hhandled : it.isHandled bStripUrl)
      (ho : it.isOpen = false)
      : Step bStripUrl (pre ++ (it.pStart ++ tail)) (pre ++ tail)
  | value {it : BBCode} {pre value tail : List UInt16} (hmem : it ∈ bbcodes) (hhandled : it.isHandled bStripUrl)
      (ho : it.isOpen) (hvalue : closeBracket ∉ value)
      : Step bStripUrl (pre ++ (it.pStart ++ (value ++ closeBracket :: tail))) (pre ++ tail)
  | url {it : BBCode} {pre value tail : List UInt16} (hmem : it ∈ bbcodes) (hhandled : it.isHandled bStripUrl)
      (hu : it.isUrl) (hvalue : closeBracket ∉ value)
      : Step bStripUrl (pre ++ (it.pStart ++ (value ++ closeBracket :: tail))) (pre ++ (space :: (value ++ space :: tail)))
  | opener {it : BBCode} {pre tail : List UInt16} (hmem : it ∈ bbcodes) (hhandled : it.isHandled bStripUrl)
      (hu : it.isUrl) (hopen : closeBracket ∉ tail)
      : Step bStripUrl (pre ++ (it.pStart ++ tail)) (pre ++ (space :: tail))
  | ending {it : BBCode} {pEnd pre tail : List UInt16} (hmem : it ∈ bbcodes) (hhandled : it.isHandled bStripUrl)
      (hend : pEnd ∈ it.pEnd)
      : Step bStripUrl (pre ++ (pEnd ++ tail)) (pre ++ tail)

def Kept (bStripUrl : Bool) : List UInt16 → List UInt16 → Prop := Relation.ReflTransGen (Step bStripUrl)

theorem kept_stripEnd (hmem : it ∈ bbcodes) (hhandled : it.isHandled bStripUrl) (pre text : List UInt16)
    : Kept bStripUrl (pre ++ text) (pre ++ stripEnd it text) := by
  unfold stripEnd
  cases hend : it.pEnd with
  | none => exact .refl
  | some pEnd =>
    unfold removeFirst
    dsimp only
    cases hfind : strstr pEnd text with
    | none => exact .refl
    | some i =>
      obtain ⟨tail, htail⟩ := strstr_eq_some hfind
      have hstep : Step bStripUrl (pre ++ text.take i ++ (pEnd ++ tail)) (pre ++ text.take i ++ tail) :=
        .ending hmem hhandled hend
      rw [htail, List.append_assoc, List.take_append_drop] at hstep
      have hdrop : text.drop (i + pEnd.length) = tail := by
        rw [← List.drop_drop, ← htail, List.drop_left]
      dsimp only
      rw [hdrop, ← List.append_assoc]
      exact .single hstep

theorem split_of_idxOf? {ch : UInt16} (h : tail.idxOf? ch = some i)
    : tail = tail.take i ++ ch :: tail.drop (i + 1) ∧ ch ∉ tail.take i := by
  obtain ⟨hi, hch, hbefore⟩ := List.idxOf?_eq_some_iff.1 h
  constructor
  . conv_lhs => rw [← List.take_append_drop i tail, List.drop_eq_getElem_cons hi, hch]
  . intro hmem
    obtain ⟨j, hj, hget⟩ := List.mem_iff_getElem.1 hmem
    rw [List.length_take] at hj
    rw [List.getElem_take] at hget
    exact hbefore j (by omega) hget

theorem kept_strip (hcode : findCode bStripUrl text = some it) (pre : List UInt16)
    : Kept bStripUrl (pre ++ text) (pre ++ strip it text) := by
  obtain ⟨hmem, hit, hhandled, tail, rfl⟩ := findCode_spec hcode
  unfold strip stripStart
  rw [List.drop_left]
  cases hu : it.isUrl with
  | true =>
    rw [if_pos rfl, if_pos rfl]
    have hend := kept_stripEnd hmem hhandled (pre ++ [space]) (closeUrl tail)
    rw [List.append_assoc, List.append_assoc, List.singleton_append, List.singleton_append] at hend
    refine Relation.ReflTransGen.head ?_ hend
    unfold closeUrl
    cases hfind : tail.idxOf? closeBracket with
    | none => exact .opener hmem hhandled hu (List.idxOf?_eq_none_iff.1 hfind)
    | some i =>
      obtain ⟨hsplit, hvalue⟩ := split_of_idxOf? hfind
      have hset : tail.set i space = tail.take i ++ space :: tail.drop (i + 1) :=
        List.set_eq_take_append_cons_drop.trans (if_pos (List.idxOf?_eq_some_iff.1 hfind).1)
      dsimp only
      rw [hset]
      nth_rewrite 1 [hsplit]
      exact .url hmem hhandled hu hvalue
  | false =>
    rw [if_neg Bool.false_ne_true, if_neg Bool.false_ne_true]
    cases ho : it.isOpen with
    | false => exact .head (.start hmem hhandled ho) (kept_stripEnd hmem hhandled pre tail)
    | true =>
      rw [if_pos rfl]
      cases hfind : tail.idxOf? closeBracket with
      | none => exact kept_stripEnd hmem hhandled pre _
      | some i =>
        obtain ⟨hsplit, hvalue⟩ := split_of_idxOf? hfind
        have hstep : Step bStripUrl (pre ++ (it.pStart ++ (tail.take i ++ closeBracket :: tail.drop (i + 1))))
            (pre ++ tail.drop (i + 1)) :=
          .value hmem hhandled ho hvalue
        rw [← hsplit] at hstep
        exact .head hstep (kept_stripEnd hmem hhandled pre _)

theorem Scan.kept (h : Scan bStripUrl text result) (pre : List UInt16) : Kept bStripUrl (pre ++ text) (pre ++ result) := by
  induction h generalizing pre with
  | nil => exact .refl
  | @char c text result hc h ih =>
    have hkept := ih (pre ++ [c])
    rw [List.append_assoc, List.append_assoc] at hkept
    exact hkept
  | @bracket text result hnone h ih =>
    have hkept := ih (pre ++ [openBracket])
    rw [List.append_assoc, List.append_assoc] at hkept
    exact hkept
  | code hcode h ih => exact (kept_strip hcode pre).trans (ih pre)

def Removes (bStripUrl : Bool) (wszText : WStr) : Prop :=
  ∃ n result, RemoveBbcodes bStripUrl n wszText.chars 0 = some result ∧ NoTag bStripUrl result ∧
    Kept bStripUrl wszText.chars result

theorem removes_iff (bStripUrl : Bool) (wszText : WStr) : Removes bStripUrl wszText ↔ Clean bStripUrl wszText.chars := by
  constructor
  . rintro ⟨n, result, hn, hno, -⟩
    have hrounds : RemoveBbcodes bStripUrl n ([] ++ wszText.chars) ([] : List UInt16).length = some result := hn
    obtain ⟨result, hscan, rfl⟩ := scan_of_rounds hrounds
    exact .of_scan hscan hno
  . intro h
    obtain ⟨result, hscan, hno⟩ := h.exists_scan
    obtain ⟨n, hn⟩ := exists_rounds_of_scan hscan []
    exact ⟨n, result, hn, hno, hscan.kept []⟩

-- An open tag without a closing bracket is met again and again.
theorem not_removes : ¬∀ bStripUrl wszText, Removes bStripUrl wszText := by
  intro h
  obtain ⟨n, result, hn, -⟩ := h true (WStr.lit "[color=red")
  have hloop : ∀ n, RemoveBbcodes true n (WStr.lit "[color=red").chars 0 = none := by
    intro n
    induction n with
    | zero => rfl
    | succ n ih =>
      rw [RemoveBbcodes, show Find (WStr.lit "[color=red").chars openBracket 0 = 0 by decide +kernel,
        if_neg (by decide),
        show findCode true ((WStr.lit "[color=red").chars.drop (0 : Int).toNat) = some (bbcode "[color=" (some "[/color]")) by
          decide +kernel]
      dsimp only
      rw [show removeCode (WStr.lit "[color=red").chars 0 (bbcode "[color=" (some "[/color]")) =
        (WStr.lit "[color=red").chars by decide +kernel]
      exact ih
  rw [hloop n] at hn
  cases hn

end Bbcodes
