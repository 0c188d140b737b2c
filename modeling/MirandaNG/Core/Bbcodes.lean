import MirandaNG.Core.CMString
import MirandaNG.Data.WStr

/-!
This module contains `RemoveBbcodes`, and what it does to the text behind its position: what stands before
the position is never looked at again.

It describes what `RemoveBbcodes` does without positions: what becomes of a tag, and what the loop
makes of the text behind its position.
-/

namespace Bbcodes

open CMString

def openBracket : UInt16 := 0x5B
def closeBracket : UInt16 := 0x5D
def equalsSign : UInt16 := 0x3D
def space : UInt16 := 0x20

structure BBCode where
  pStart : List UInt16
  pEnd : Option (List UInt16)
deriving DecidableEq

def bbcode (pStart : String) (pEnd : Option String) : BBCode where
  pStart := (WStr.lit pStart).chars
  pEnd := pEnd.map fun s => (WStr.lit s).chars

def bbcodes : List BBCode := [
  bbcode "[b]" none,
  bbcode "[/b]" none,
  bbcode "[i]" none,
  bbcode "[/i]" none,
  bbcode "[u]" none,
  bbcode "[/u]" none,
  bbcode "[s]" none,
  bbcode "[/s]" none,

  bbcode "[color=" (some "[/color]"),
  bbcode "[bkcolor=" (some "[/bkcolor]"),

  bbcode "[c0]" none,
  bbcode "[c1]" none,
  bbcode "[c2]" none,
  bbcode "[c3]" none,
  bbcode "[c4]" none,
  bbcode "[c5]" none,
  bbcode "[c6]" none,

  bbcode "[$hicon=" (some "$]"),

  bbcode "[url]" (some "[/url]"),
  bbcode "[url=" (some "[/url]"),
  bbcode "[img]" (some "[/img]"),
  bbcode "[img=" (some "[/img]")
]

-- Codes with a closing tag are left alone unless `bStripUrl` is set.
def BBCode.isHandled (bStripUrl : Bool) (it : BBCode) : Bool :=
  bStripUrl || !(it.pEnd.any fun pEnd => pEnd.head? = some openBracket)

def BBCode.matches (bStripUrl : Bool) (text : List UInt16) (it : BBCode) : Bool :=
  it.pStart.isPrefixOf text && it.isHandled bStripUrl

def findCode (bStripUrl : Bool) (text : List UInt16) : Option BBCode := bbcodes.find? (·.matches bStripUrl text)

def deleteEnd (wszText : List UInt16) (idx : Int) (it : BBCode) : List UInt16 :=
  match it.pEnd with
  | none => wszText
  | some pEnd => DeleteFirst wszText pEnd idx

def removeCode (wszText : List UInt16) (idx : Int) (it : BBCode) : List UInt16 :=
  let lIndex := idx + it.pStart.length
  let isOpen := wszText.getD (lIndex - 1).toNat 0 = equalsSign
  let rIndex := Find wszText closeBracket lIndex
  let isUrl := isOpen ∧ Mid wszText (idx + 1) 3 = (WStr.lit "url").chars
  let wszText := if isUrl then SetAt wszText rIndex space else wszText
  let rIndex := if isOpen ∧ ¬isUrl then rIndex - (lIndex - 1) else 0
  let wszText := Delete wszText idx (it.pStart.length + rIndex)
  let wszText := deleteEnd wszText idx it
  if isUrl then Insert wszText idx [space] else wszText

def RemoveBbcodes (bStripUrl : Bool) : Nat → List UInt16 → Int → Option (List UInt16)
  | 0, _, _ => none
  | n + 1, wszText, iStart =>
    let idx := Find wszText openBracket iStart
    if idx = -1 then
      some wszText
    else
      match findCode bStripUrl (wszText.drop idx.toNat) with
      | some it => RemoveBbcodes bStripUrl n (removeCode wszText idx it) idx
      | none => RemoveBbcodes bStripUrl n wszText (idx + 1)

example : RemoveBbcodes true 20 (WStr.lit "a[b]x[/b] [url=y]z[/url]").chars 0 = some (WStr.lit "ax  y z").chars := by
  decide

example : RemoveBbcodes true 20 (WStr.lit "[[b]b]").chars 0 = some (WStr.lit "[b]").chars := by
  decide

end Bbcodes

namespace Bbcodes

open CMString

variable {bStripUrl : Bool} {it : BBCode} {pre text tail result p l : List UInt16} {i n : Nat} {c : UInt16}

namespace BBCode

def isOpen (it : BBCode) : Bool := it.pStart.getLast? = some equalsSign

def isUrl (it : BBCode) : Bool := it.pStart = (WStr.lit "[url=").chars

structure WellFormed (it : BBCode) : Prop where
  head : it.pStart.head? = some openBracket
  tail : openBracket ∉ it.pStart.tail
  opened : it.isOpen → closeBracket ∉ it.pStart ∧ 4 ≤ it.pStart.length
  url : it.isUrl ↔ it.isOpen ∧ (it.pStart.drop 1).take 3 = (WStr.lit "url").chars
  ending : ∀ pEnd ∈ it.pEnd, closeBracket ∈ pEnd ∧ space ∉ pEnd

instance (it : BBCode) : Decidable it.WellFormed :=
  decidable_of_iff
    (it.pStart.head? = some openBracket ∧ openBracket ∉ it.pStart.tail ∧
      (it.isOpen → closeBracket ∉ it.pStart ∧ 4 ≤ it.pStart.length) ∧
      (it.isUrl ↔ it.isOpen ∧ (it.pStart.drop 1).take 3 = (WStr.lit "url").chars) ∧
      ∀ pEnd ∈ it.pEnd, closeBracket ∈ pEnd ∧ space ∉ pEnd)
    ⟨fun ⟨h₁, h₂, h₃, h₄, h₅⟩ => ⟨h₁, h₂, h₃, h₄, h₅⟩, fun h => ⟨h.head, h.tail, h.opened, h.url, h.ending⟩⟩

end BBCode

theorem wellFormed_of_mem : ∀ it ∈ bbcodes, it.WellFormed := by
  decide

def closeUrl (tail : List UInt16) : List UInt16 :=
  match tail.idxOf? closeBracket with
  | none => tail
  | some i => tail.set i space

def stripStart (it : BBCode) (text : List UInt16) : List UInt16 :=
  let tail := text.drop it.pStart.length
  if it.isUrl then
    closeUrl tail
  else if it.isOpen then
    match tail.idxOf? closeBracket with
    | none => text
    | some i => tail.drop (i + 1)
  else
    tail

def stripEnd (it : BBCode) (text : List UInt16) : List UInt16 :=
  match it.pEnd with
  | none => text
  | some pEnd => removeFirst pEnd text

def strip (it : BBCode) (text : List UInt16) : List UInt16 :=
  if it.isUrl then space :: stripEnd it (stripStart it text) else stripEnd it (stripStart it text)

theorem findCode_spec (h : findCode bStripUrl text = some it)
    : it ∈ bbcodes ∧ it.WellFormed ∧ it.isHandled bStripUrl ∧ ∃ tail, text = it.pStart ++ tail := by
  have hmem := List.mem_of_find?_eq_some h
  have hmatches := List.find?_some h
  unfold BBCode.matches at hmatches
  rw [Bool.and_eq_true, List.isPrefixOf_iff_prefix] at hmatches
  obtain ⟨⟨tail, htail⟩, hhandled⟩ := hmatches
  exact ⟨hmem, wellFormed_of_mem it hmem, hhandled, tail, htail.symm⟩

theorem deleteEnd_append (pre text : List UInt16) (it : BBCode)
    : deleteEnd (pre ++ text) pre.length it = pre ++ stripEnd it text := by
  unfold deleteEnd stripEnd
  cases it.pEnd with
  | none => rfl
  | some pEnd => exact DeleteFirst_append pre text pEnd

theorem removeCode_append (pre : List UInt16) (h : findCode bStripUrl text = some it)
    : removeCode (pre ++ text) pre.length it = pre ++ strip it text := by
  obtain ⟨-, hit, -, tail, rfl⟩ := findCode_spec h
  have hpos : 0 < it.pStart.length := by
    rw [List.length_pos_iff]
    intro hnil
    have hhead := hit.head
    rw [hnil] at hhead
    cases hhead
  have hlIndex : ((pre.length : Int) + it.pStart.length) = ((pre ++ it.pStart).length : Int) := by
    rw [List.length_append, Int.natCast_add]
  have hlast : (pre ++ (it.pStart ++ tail)).getD ((pre.length : Int) + it.pStart.length - 1).toNat 0 = equalsSign ↔
      it.isOpen := by
    unfold BBCode.isOpen
    rw [show ((pre.length : Int) + it.pStart.length - 1).toNat = pre.length + (it.pStart.length - 1) by omega,
      List.getD_eq_getElem?_getD, List.getElem?_append_right (Nat.le_add_right _ _), Nat.add_sub_cancel_left,
      List.getElem?_append_left (by omega), ← List.getLast?_eq_getElem?, decide_eq_true_iff]
    obtain ⟨c, hc⟩ := List.getLast?_isSome.2 (List.length_pos_iff.1 hpos) |> Option.isSome_iff_exists.1
    rw [hc, Option.getD_some, Option.some_inj]
  have hurl : (it.isOpen ∧ Mid (pre ++ (it.pStart ++ tail)) (pre.length + 1) 3 = (WStr.lit "url").chars) ↔ it.isUrl := by
    rw [hit.url]
    apply and_congr_right
    intro hisOpen
    have hlength := (hit.opened hisOpen).2
    unfold Mid
    rw [show (max ((pre.length : Int) + 1) 0).toNat = pre.length + 1 by omega, show (max (3 : Int) 0).toNat = 3 from rfl,
      ← List.drop_drop, List.drop_left, List.drop_append_of_le_length (by omega),
      List.take_append_of_le_length (by rw [List.length_drop]; omega)]
  have hfind : Find (pre ++ (it.pStart ++ tail)) closeBracket (pre.length + it.pStart.length) =
      match tail.idxOf? closeBracket with
      | none => -1
      | some i => (pre.length : Int) + it.pStart.length + i := by
    rw [hlIndex, ← List.append_assoc]
    exact Find_append _ _ _
  have hdrop : (it.pStart ++ tail).drop it.pStart.length = tail := List.drop_left
  unfold removeCode strip stripStart
  simp only [hlast, hurl, hfind, hdrop]
  cases hisUrl : it.isUrl with
  | true =>
    have hset : SetAt (pre ++ (it.pStart ++ tail))
        (match tail.idxOf? closeBracket with
          | none => -1
          | some i => (pre.length : Int) + it.pStart.length + i) space =
        pre ++ (it.pStart ++ closeUrl tail) := by
      unfold SetAt closeUrl
      cases tail.idxOf? closeBracket with
      | none => rfl
      | some i =>
        dsimp only
        rw [if_neg (by omega), show ((pre.length : Int) + it.pStart.length + i).toNat = pre.length + (it.pStart.length + i) by
            omega, List.set_append_right _ _ (Nat.le_add_right _ _), Nat.add_sub_cancel_left,
          List.set_append_right _ _ (Nat.le_add_right _ _), Nat.add_sub_cancel_left]
    simp only [if_true, not_true_eq_false, and_false, if_false, add_zero]
    rw [hset, Delete_append, List.drop_left, deleteEnd_append, Insert_append]
    rfl
  | false =>
    have hdelete : Delete (pre ++ (it.pStart ++ tail)) pre.length
        (it.pStart.length + if it.isOpen then
          (match tail.idxOf? closeBracket with
            | none => -1
            | some i => (pre.length : Int) + it.pStart.length + i) - ((pre.length : Int) + it.pStart.length - 1)
        else 0) =
        pre ++ if it.isOpen then
          match tail.idxOf? closeBracket with
          | none => it.pStart ++ tail
          | some i => tail.drop (i + 1)
        else
          tail := by
      cases it.isOpen with
      | true =>
        rw [if_pos rfl, if_pos rfl]
        cases tail.idxOf? closeBracket with
        | none =>
          dsimp only
          exact Delete_of_nonpos _ _ (by omega)
        | some i =>
          dsimp only
          rw [show ((it.pStart.length : Int) + (pre.length + it.pStart.length + i - (pre.length + it.pStart.length - 1))) =
            ((it.pStart.length + (i + 1) : Nat) : Int) by omega, Delete_append, ← List.drop_drop, hdrop]
      | false =>
        rw [if_neg Bool.false_ne_true, if_neg Bool.false_ne_true, add_zero, Delete_append, hdrop]
    simp only [Bool.false_eq_true, if_false, not_false_eq_true, and_true]
    rw [hdelete, deleteEnd_append]

inductive Scan (bStripUrl : Bool) : List UInt16 → List UInt16 → Prop where
  | nil : Scan bStripUrl [] []
  | char {c : UInt16} {text result : List UInt16} (hc : c ≠ openBracket) (h : Scan bStripUrl text result)
      : Scan bStripUrl (c :: text) (c :: result)
  | bracket {text result : List UInt16} (hnone : findCode bStripUrl (openBracket :: text) = none)
      (h : Scan bStripUrl text result)
      : Scan bStripUrl (openBracket :: text) (openBracket :: result)
  | code {it : BBCode} {text result : List UInt16} (hcode : findCode bStripUrl text = some it)
      (h : Scan bStripUrl (strip it text) result)
      : Scan bStripUrl text result

theorem findCode_head (h : findCode bStripUrl (c :: text) = some it) : c = openBracket := by
  obtain ⟨-, hit, -, tail, htail⟩ := findCode_spec h
  have hhead := hit.head
  cases hstart : it.pStart with
  | nil =>
    rw [hstart] at hhead
    cases hhead
  | cons c' p =>
    rw [hstart] at hhead htail
    cases htail
    exact Option.some_inj.1 hhead

theorem findCode_nil : findCode bStripUrl [] = none := by
  cases h : findCode bStripUrl [] with
  | none => rfl
  | some it =>
    obtain ⟨-, hit, -, tail, htail⟩ := findCode_spec h
    have hhead := hit.head
    rw [(List.append_eq_nil_iff.1 htail.symm).1] at hhead
    cases hhead

theorem RemoveBbcodes_nil (n : Nat) : RemoveBbcodes bStripUrl (n + 1) (pre ++ []) pre.length = some (pre ++ []) := by
  rw [RemoveBbcodes, Find_append]
  rfl

theorem RemoveBbcodes_char (n : Nat) (hc : c ≠ openBracket)
    : RemoveBbcodes bStripUrl n (pre ++ c :: text) pre.length =
        RemoveBbcodes bStripUrl n ((pre ++ [c]) ++ text) (pre ++ [c]).length := by
  cases n with
  | zero => rfl
  | succ n =>
    have hfind : Find (pre ++ c :: text) openBracket pre.length =
        Find ((pre ++ [c]) ++ text) openBracket (pre ++ [c]).length := by
      rw [Find_append, Find_append, List.idxOf?_cons, if_neg (by simpa using hc)]
      cases text.idxOf? openBracket with
      | none => rfl
      | some i =>
        dsimp only [Option.map_some]
        rw [List.length_append, List.length_singleton]
        push_cast
        ring
    rw [RemoveBbcodes, RemoveBbcodes, hfind, List.append_assoc, List.singleton_append]

theorem RemoveBbcodes_bracket (n : Nat)
    : RemoveBbcodes bStripUrl (n + 1) (pre ++ openBracket :: text) pre.length =
        match findCode bStripUrl (openBracket :: text) with
        | some it => RemoveBbcodes bStripUrl n (pre ++ strip it (openBracket :: text)) pre.length
        | none => RemoveBbcodes bStripUrl n ((pre ++ [openBracket]) ++ text) (pre ++ [openBracket]).length := by
  have hfind : Find (pre ++ openBracket :: text) openBracket pre.length = pre.length := by
    rw [Find_append, List.idxOf?_cons, beq_self_eq_true]
    exact Int.add_zero _
  rw [RemoveBbcodes, hfind, if_neg (by omega), Int.toNat_natCast, List.drop_left]
  cases hcode : findCode bStripUrl (openBracket :: text) with
  | none =>
    dsimp only
    rw [List.append_assoc, List.singleton_append, List.length_append, List.length_singleton]
    rfl
  | some it =>
    dsimp only
    rw [removeCode_append pre hcode]

theorem exists_rounds_of_scan (h : Scan bStripUrl text result) (pre : List UInt16)
    : ∃ n, RemoveBbcodes bStripUrl n (pre ++ text) pre.length = some (pre ++ result) := by
  induction h generalizing pre with
  | nil => exact ⟨1, RemoveBbcodes_nil 0⟩
  | @char c text result hc h ih =>
    obtain ⟨n, hn⟩ := ih (pre ++ [c])
    refine ⟨n, ?_⟩
    rw [RemoveBbcodes_char n hc, hn, List.append_assoc, List.singleton_append]
  | @bracket text result hnone h ih =>
    obtain ⟨n, hn⟩ := ih (pre ++ [openBracket])
    refine ⟨n + 1, ?_⟩
    rw [RemoveBbcodes_bracket n, hnone]
    dsimp only
    rw [hn, List.append_assoc, List.singleton_append]
  | @code it text result hcode h ih =>
    obtain ⟨n, hn⟩ := ih pre
    cases text with
    | nil =>
      rw [findCode_nil] at hcode
      cases hcode
    | cons c text =>
      obtain rfl := findCode_head hcode
      refine ⟨n + 1, ?_⟩
      rw [RemoveBbcodes_bracket n, hcode]
      exact hn

theorem scan_of_rounds {l : List UInt16} (h : RemoveBbcodes bStripUrl n (pre ++ text) pre.length = some l)
    : ∃ result, Scan bStripUrl text result ∧ l = pre ++ result := by
  induction n generalizing pre text with
  | zero => cases h
  | succ n ih =>
    induction text generalizing pre with
    | nil =>
      rw [RemoveBbcodes_nil] at h
      cases h
      exact ⟨[], .nil, rfl⟩
    | cons c text ih' =>
      by_cases hc : c = openBracket
      . subst hc
        rw [RemoveBbcodes_bracket] at h
        cases hcode : findCode bStripUrl (openBracket :: text) with
        | none =>
          rw [hcode] at h
          obtain ⟨result, hscan, rfl⟩ := ih h
          exact ⟨_, .bracket hcode hscan, by rw [List.append_assoc, List.singleton_append]⟩
        | some it =>
          rw [hcode] at h
          obtain ⟨result, hscan, rfl⟩ := ih h
          exact ⟨_, .code hcode hscan, rfl⟩
      . rw [RemoveBbcodes_char _ hc] at h
        obtain ⟨result, hscan, rfl⟩ := ih' h
        exact ⟨_, .char hc hscan, by rw [List.append_assoc, List.singleton_append]⟩

end Bbcodes
