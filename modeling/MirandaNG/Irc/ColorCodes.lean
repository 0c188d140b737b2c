import Mathlib.Tactic
import MirandaNG.Data.WStr

/-!
This module contains `DoColorCodes`, which turns the formatting codes of IRC into tags. A code switches something
on or off, a tag opens or closes it: it proves where the two say the same of a character.
-/

namespace Irc.Formatting

def BOLD : UInt16 := 0x02
def COLOR : UInt16 := 0x03
def RESET : UInt16 := 0x0F
def ITALICS : UInt16 := 0x1D
def UNDERLINE : UInt16 := 0x1F

def comma : UInt16 := 0x2C

def isDigit (c : UInt16) : Bool := 0x30 ≤ c && c ≤ 0x39

def mapIrc2srmm : List Nat := [15, 0, 1, 4, 14, 6, 3, 5, 13, 12, 2, 10, 9, 11, 7, 8]

def colorTable : List Nat :=
  [0x000000, 0x000080, 0x008080, 0x800080, 0x008000, 0x808000, 0x800000, 0x808080,
   0xc0c0c0, 0x0000ff, 0x00ffff, 0xff00ff, 0x00ff00, 0xffff00, 0xff0000, 0xffffff]

def mapColor (res : Nat) : Option Nat := mapIrc2srmm[res]?

def DoEnterNumber : List UInt16 → Option Nat × List UInt16
  | [] => (none, [])
  | c :: text =>
    if isDigit c then
      match text with
      | [] => (mapColor (c.toNat - 0x30), [])
      | c' :: text =>
        if isDigit c' then
          (mapColor ((c.toNat - 0x30) * 10 + (c'.toNat - 0x30)), text)
        else
          (mapColor (c.toNat - 0x30), c' :: text)
    else
      (none, c :: text)

def lit (s : String) : List UInt16 := s.toList.map fun c => c.toNat.toUInt16

def hexDigit (n : Nat) : UInt16 := if n < 10 then (0x30 + n).toUInt16 else (0x37 + n).toUInt16

def print08X (n : Nat) : List UInt16 := (List.range 8).map fun i => hexDigit (n / 16 ^ (7 - i) % 16)

structure ColorCodes where
  bBold : Bool := false
  bUnderline : Bool := false
  bItalics : Bool := false
  iFG : Option Nat := none
  iBG : Option Nat := none
deriving DecidableEq

namespace ColorCodes

def numColors : Nat := colorTable.length

def colorTag (opening closing : String) (iFG : Option Nat) : List UInt16 :=
  match iFG with
  | none => lit closing
  | some n => if n < numColors then lit opening ++ print08X (colorTable.getD n 0) ++ lit "]" else []

def enterColors (st : ColorCodes) (text : List UInt16) : ColorCodes × List UInt16 :=
  match DoEnterNumber text with
  | (iFG, c :: text) =>
    if c = comma then
      match DoEnterNumber text with
      | (iBG, text) => ({ st with iFG, iBG }, text)
    else
      ({ st with iFG, iBG := none }, c :: text)
  | (iFG, []) => ({ st with iFG, iBG := none }, [])

-- What is appended for a character of the text, what the variables are behind it, and where the text goes on
def next (bStrip : Bool) (st : ColorCodes) (c : UInt16) (text : List UInt16)
    : List UInt16 × ColorCodes × List UInt16 :=
  if c = BOLD then
    let st := { st with bBold := !st.bBold }
    (if !bStrip then (if st.bBold then lit "[b]" else lit "[/b]") else [], st, text)
  else if c = RESET then
    ([], { st with bUnderline := false, bItalics := false, bBold := false }, text)
  else if c = ITALICS then
    let st := { st with bItalics := !st.bItalics }
    (if !bStrip then (if st.bItalics then lit "[i]" else lit "[/i]") else [], st, text)
  else if c = UNDERLINE then
    let st := { st with bUnderline := !st.bUnderline }
    (if !bStrip then (if st.bUnderline then lit "[u]" else lit "[/u]") else [], st, text)
  else if c = COLOR then
    match st.enterColors text with
    | (st', text) =>
      (if !bStrip then
        (if st'.iFG ≠ st.iFG then colorTag "[color=" "[/color]" st'.iFG else []) ++
          (if st'.iBG ≠ st.iBG then colorTag "[bkcolor=" "[/bkcolor]" st'.iFG else [])
      else [], st', text)
  else
    ([c], st, text)

theorem suffix_DoEnterNumber (text : List UInt16) : (DoEnterNumber text).2 <:+ text := by
  unfold DoEnterNumber
  split
  . exact List.suffix_refl _
  . split
    . split
      . exact List.nil_suffix
      . split
        . exact (List.suffix_cons _ _).trans (List.suffix_cons _ _)
        . exact List.suffix_cons _ _
    . exact List.suffix_refl _

theorem suffix_enterColors (st : ColorCodes) (text : List UInt16) : (st.enterColors text).2 <:+ text := by
  have hfirst := suffix_DoEnterNumber text
  unfold enterColors
  split
  . next iFG c rest heq =>
    rw [heq] at hfirst
    split
    . exact (suffix_DoEnterNumber rest).trans ((List.suffix_cons _ _).trans hfirst)
    . exact hfirst
  . exact List.nil_suffix

theorem suffix_next (bStrip : Bool) (st : ColorCodes) (c : UInt16) (text : List UInt16)
    : (next bStrip st c text).2.2 <:+ text := by
  unfold next
  split
  . exact List.suffix_refl _
  . split
    . exact List.suffix_refl _
    . split
      . exact List.suffix_refl _
      . split
        . exact List.suffix_refl _
        . split
          . exact suffix_enterColors st text
          . exact List.suffix_refl _

def loop (bStrip : Bool) (st : ColorCodes) : List UInt16 → List UInt16
  | [] => []
  | c :: text =>
    (next bStrip st c text).1 ++ loop bStrip (next bStrip st c text).2.1 (next bStrip st c text).2.2
termination_by text => text.length
decreasing_by
  exact Nat.lt_succ_of_le (suffix_next bStrip st c text).length_le

end ColorCodes

def DoColorCodes (text : WStr) (bStrip : Bool) : List UInt16 := ColorCodes.loop bStrip {} text.chars

structure Style where
  bold : Bool := false
  italics : Bool := false
  underline : Bool := false
  foreground : Option (List UInt16) := none
  background : Option (List UInt16) := none
deriving DecidableEq

def scanNumber : List UInt16 → Option (Nat × List UInt16)
  | [] => none
  | c :: text =>
    if isDigit c then
      match text with
      | [] => some (c.toNat - 0x30, [])
      | c' :: text =>
        if isDigit c' then some ((c.toNat - 0x30) * 10 + (c'.toNat - 0x30), text)
        else some (c.toNat - 0x30, c' :: text)
    else none

def shownColor (n : Nat) : Option (List UInt16) := (mapColor n).map fun i => print08X (colorTable.getD i 0)

-- A colour code without a number ends both colours. One with a number names the foreground, and the background
-- too if a comma and another number follow.
def scanColors (st : Style) (text : List UInt16) : Style × List UInt16 :=
  match scanNumber text with
  | none => ({ st with foreground := none, background := none }, text)
  | some (fg, text) =>
    let st := { st with foreground := shownColor fg }
    match text with
    | [] => (st, [])
    | c :: text =>
      if c = comma then
        match scanNumber text with
        | none => (st, c :: text)
        | some (bg, text) => ({ st with background := shownColor bg }, text)
      else
        (st, c :: text)

structure History where
  style : Style := {}
  boldLeft : Bool := false
  italicsLeft : Bool := false
  underlineLeft : Bool := false
  iFG : Option Nat := none
  colorsLeft : Bool := false

namespace History

def code (h : History) (c : UInt16) (text : List UInt16) : Option (History × List UInt16) :=
  if c = BOLD then
    some ({ h with style.bold := !h.style.bold }, text)
  else if c = RESET then
    some ({ h with style := {}
                   boldLeft := h.boldLeft || h.style.bold
                   italicsLeft := h.italicsLeft || h.style.italics
                   underlineLeft := h.underlineLeft || h.style.underline }, text)
  else if c = ITALICS then
    some ({ h with style.italics := !h.style.italics }, text)
  else if c = UNDERLINE then
    some ({ h with style.underline := !h.style.underline }, text)
  else if c = COLOR then
    let iFG := (scanNumber text).bind fun number => mapColor number.1
    some ({ h with style := (scanColors h.style text).1
                   iFG := iFG
                   colorsLeft := h.colorsLeft || (h.iFG.isSome && iFG.isSome && h.iFG ≠ iFG) },
      (scanColors h.style text).2)
  else
    none

theorem suffix_scanNumber {text rest : List UInt16} {n : Nat} (h : scanNumber text = some (n, rest)) : rest <:+ text := by
  unfold scanNumber at h
  split at h
  . exact absurd h (by simp)
  . split at h
    . split at h
      . simp only [Option.some.injEq, Prod.mk.injEq] at h
        rw [← h.2]
        exact List.nil_suffix
      . split at h
        . simp only [Option.some.injEq, Prod.mk.injEq] at h
          rw [← h.2]
          exact (List.suffix_cons _ _).trans (List.suffix_cons _ _)
        . simp only [Option.some.injEq, Prod.mk.injEq] at h
          rw [← h.2]
          exact List.suffix_cons _ _
    . exact absurd h (by simp)

theorem suffix_scanColors (st : Style) (text : List UInt16) : (scanColors st text).2 <:+ text := by
  unfold scanColors
  split
  . exact List.suffix_refl _
  . next fg rest hfg =>
    have hfirst := suffix_scanNumber hfg
    dsimp only
    split
    . exact List.nil_suffix
    . split
      . split
        . exact hfirst
        . next hbg => exact (suffix_scanNumber hbg).trans ((List.suffix_cons _ _).trans hfirst)
      . exact hfirst

theorem suffix_code {h h' : History} {c : UInt16} {text text' : List UInt16} (hcode : h.code c text = some (h', text'))
    : text' <:+ text := by
  unfold code at hcode
  split at hcode
  . simp_all
  . split at hcode
    . simp_all
    . split at hcode
      . simp_all
      . split at hcode
        . simp_all
        . split at hcode
          . simp only [Option.some.injEq, Prod.mk.injEq] at hcode
            rw [← hcode.2]
            exact suffix_scanColors _ _
          . exact absurd hcode (by simp)

def trace (h : History) : List UInt16 → List (UInt16 × History)
  | [] => []
  | c :: text =>
    match hcode : h.code c text with
    | some (h', text') => trace h' text'
    | none => (c, h) :: trace h text
termination_by text => text.length
decreasing_by
  . exact Nat.lt_succ_of_le (suffix_code hcode).length_le
  . exact Nat.lt_succ_self _

end History

def formatted (text : WStr) : List (UInt16 × Style) := (History.trace {} text.chars).map fun it => (it.1, it.2.style)

def visible (text : WStr) : List UInt16 := (History.trace {} text.chars).map Prod.fst

inductive Tag where
  | bold (on : Bool)
  | italics (on : Bool)
  | underline (on : Bool)
  | color (digits : Option (List UInt16))
  | bkcolor (digits : Option (List UInt16))

namespace Tag

def body : Tag → List UInt16
  | bold on => if on then lit "b" else lit "/b"
  | italics on => if on then lit "i" else lit "/i"
  | underline on => if on then lit "u" else lit "/u"
  | color digits => digits.elim (lit "/color") (lit "color=" ++ ·)
  | bkcolor digits => digits.elim (lit "/bkcolor") (lit "bkcolor=" ++ ·)

def text (t : Tag) : List UInt16 := 0x5B :: (t.body ++ [0x5D])

def isHex (c : UInt16) : Bool := (0x30 ≤ c && c ≤ 0x39) || (0x41 ≤ c && c ≤ 0x46)

def Valid : Tag → Prop
  | color (some digits) => digits.length = 8 ∧ ∀ c ∈ digits, isHex c = true
  | bkcolor (some digits) => digits.length = 8 ∧ ∀ c ∈ digits, isHex c = true
  | _ => True

end Tag

structure Marks where
  bold : Nat := 0
  italics : Nat := 0
  underline : Nat := 0
  colors : List (List UInt16) := []
  bkcolors : List (List UInt16) := []

namespace Marks

def apply (m : Marks) : Tag → Marks
  | .bold on => { m with bold := if on then m.bold + 1 else m.bold - 1 }
  | .italics on => { m with italics := if on then m.italics + 1 else m.italics - 1 }
  | .underline on => { m with underline := if on then m.underline + 1 else m.underline - 1 }
  | .color digits => { m with colors := digits.elim m.colors.tail (· :: m.colors) }
  | .bkcolor digits => { m with bkcolors := digits.elim m.bkcolors.tail (· :: m.bkcolors) }

def style (m : Marks) : Style where
  bold := m.bold ≠ 0
  italics := m.italics ≠ 0
  underline := m.underline ≠ 0
  foreground := m.colors.head?
  background := m.bkcolors.head?

end Marks

inductive Reads : Marks → List UInt16 → List (UInt16 × Style) → Prop where
  | nil (m : Marks) : Reads m [] []
  | tag {m : Marks} {t : Tag} {text : List UInt16} {shown : List (UInt16 × Style)} (hvalid : t.Valid)
      (htext : Reads (m.apply t) text shown) : Reads m (t.text ++ text) shown
  | char {m : Marks} {c : UInt16} {text : List UInt16} {shown : List (UInt16 × Style)}
      (hchar : ∀ t : Tag, t.Valid → ¬t.text <+: c :: text) (htext : Reads m text shown)
      : Reads m (c :: text) ((c, m.style) :: shown)

structure Translates (text : WStr) : Prop where
  tags : Reads {} (DoColorCodes text false) (formatted text)
  strip : DoColorCodes text true = visible text

-- What is shown does not look like a tag, and there is no comma behind a colour code.
structure Plain (text : WStr) : Prop where
  noTag : ∀ t : Tag, t.Valid → ¬t.text <:+: visible text
  noComma : ∀ behind, COLOR :: behind <:+ text.chars → (DoEnterNumber behind).2.head? ≠ some comma

structure History.Agrees (h : History) : Prop where
  bold : h.style.bold = true ∨ h.boldLeft = false
  italics : h.style.italics = true ∨ h.italicsLeft = false
  underline : h.style.underline = true ∨ h.underlineLeft = false
  foreground : h.style.foreground = h.iFG.map fun n => print08X (colorTable.getD n 0)
  colors : h.iFG = none → h.colorsLeft = false

namespace Tag

theorem bracket_notMem_body (t : Tag) (hvalid : t.Valid) {c : UInt16} (hc : c = 0x5B ∨ c = 0x5D) : c ∉ t.body := by
  have hdigits : ∀ digits : List UInt16, (∀ c ∈ digits, isHex c = true) → c ∉ digits := by
    intro digits hhex hmem
    have hhex := hhex c hmem
    rcases hc with rfl | rfl <;> exact absurd hhex (by decide)
  cases t with
  | bold on => cases on <;> rcases hc with rfl | rfl <;> simp [body, lit]
  | italics on => cases on <;> rcases hc with rfl | rfl <;> simp [body, lit]
  | underline on => cases on <;> rcases hc with rfl | rfl <;> simp [body, lit]
  | color digits =>
    cases digits with
    | none => rcases hc with rfl | rfl <;> simp [body, lit]
    | some digits =>
      have hdigits := hdigits digits hvalid.2
      rcases hc with rfl | rfl <;> simpa [body, lit] using hdigits
  | bkcolor digits =>
    cases digits with
    | none => rcases hc with rfl | rfl <;> simp [body, lit]
    | some digits =>
      have hdigits := hdigits digits hvalid.2
      rcases hc with rfl | rfl <;> simpa [body, lit] using hdigits

theorem body_injective {t t' : Tag} (h : t.body = t'.body) : t = t' := by
  cases t with
  | bold on => cases on <;> rcases t' with (_ | _) | (_ | _) | (_ | _) | (_ | _) | (_ | _) <;> simp_all [body, lit]
  | italics on => cases on <;> rcases t' with (_ | _) | (_ | _) | (_ | _) | (_ | _) | (_ | _) <;> simp_all [body, lit]
  | underline on => cases on <;> rcases t' with (_ | _) | (_ | _) | (_ | _) | (_ | _) | (_ | _) <;> simp_all [body, lit]
  | color digits => cases digits <;> rcases t' with (_ | _) | (_ | _) | (_ | _) | (_ | _) | (_ | _) <;> simp_all [body, lit]
  | bkcolor digits => cases digits <;> rcases t' with (_ | _) | (_ | _) | (_ | _) | (_ | _) | (_ | _) <;> simp_all [body, lit]

theorem append_closing {s s' r r' : List UInt16} (hs : 0x5D ∉ s) (hs' : 0x5D ∉ s') (h : s ++ 0x5D :: r = s' ++ 0x5D :: r')
    : s = s' ∧ r = r' := by
  induction s generalizing s' with
  | nil =>
    match s' with
    | [] => exact ⟨rfl, List.cons_inj_right _ |>.mp h⟩
    | c :: s' =>
      rw [List.nil_append, List.cons_append, List.cons_eq_cons] at h
      exact absurd (h.1 ▸ List.mem_cons_self) hs'
  | cons c s ih =>
    match s' with
    | [] =>
      rw [List.nil_append, List.cons_append, List.cons_eq_cons] at h
      exact absurd (h.1 ▸ List.mem_cons_self) hs
    | c' :: s' =>
      rw [List.cons_append, List.cons_append, List.cons_eq_cons] at h
      obtain ⟨hrest, hr⟩ := ih (fun hmem => hs (List.mem_cons_of_mem _ hmem))
        (fun hmem => hs' (List.mem_cons_of_mem _ hmem)) h.2
      exact ⟨by rw [h.1, hrest], hr⟩

theorem text_append_inj {t t' : Tag} {r r' : List UInt16} (hvalid : t.Valid) (hvalid' : t'.Valid)
    (h : t.text ++ r = t'.text ++ r') : t = t' ∧ r = r' := by
  unfold text at h
  rw [List.cons_append, List.cons_append, List.cons_eq_cons, List.append_assoc, List.append_assoc] at h
  obtain ⟨hbody, hr⟩ := append_closing (bracket_notMem_body t hvalid (.inr rfl)) (bracket_notMem_body t' hvalid' (.inr rfl)) h.2
  exact ⟨body_injective hbody, hr⟩

end Tag

theorem reads_unique {m : Marks} {text : List UInt16} {shown shown' : List (UInt16 × Style)} (h : Reads m text shown)
    (h' : Reads m text shown') : shown = shown' := by
  induction h generalizing shown' with
  | nil m =>
    generalize htext : ([] : List UInt16) = text at h'
    cases h' with
    | nil => rfl
    | tag => exact absurd htext (by simp [Tag.text])
    | char => exact absurd htext (by simp)
  | @tag m t text shown hvalid htext ih =>
    generalize hwhole : t.text ++ text = whole at h'
    cases h' with
    | nil => exact absurd hwhole (by simp [Tag.text])
    | tag hvalid' htext' =>
      obtain ⟨ht, hrest⟩ := Tag.text_append_inj hvalid hvalid' hwhole
      subst ht hrest
      exact ih htext'
    | char hchar' _ => exact absurd ⟨text, hwhole⟩ (hchar' t hvalid)
  | @char m c text shown hchar htext ih =>
    generalize hwhole : c :: text = whole at h'
    cases h' with
    | nil => exact absurd hwhole (by simp)
    | @tag _ t' text' _ hvalid' htext' => exact absurd ⟨text', hwhole.symm⟩ (hchar t' hvalid')
    | char hchar' htext' =>
      rw [List.cons_eq_cons] at hwhole
      obtain ⟨hc, hrest⟩ := hwhole
      subst hc hrest
      rw [ih htext']

theorem DoEnterNumber_eq (text : List UInt16)
    : DoEnterNumber text = ((scanNumber text).bind fun number => mapColor number.1, (scanNumber text).elim text Prod.snd) := by
  unfold DoEnterNumber scanNumber
  split
  . rfl
  . split
    . split
      . rfl
      . split <;> rfl
    . rfl

theorem mapColor_lt {res n : Nat} (h : mapColor res = some n) : n < ColorCodes.numColors := by
  have hall : ∀ n ∈ mapIrc2srmm, n < ColorCodes.numColors := by decide
  exact hall n (List.mem_of_getElem? h)

def printColor (n : Nat) : List UInt16 := print08X (colorTable.getD n 0)

theorem valid_color (n : Nat) : (Tag.color (some (printColor n))).Valid := by
  refine ⟨by unfold printColor print08X; rw [List.length_map, List.length_range], ?_⟩
  intro c hc
  unfold printColor print08X at hc
  obtain ⟨i, -, rfl⟩ := List.mem_map.mp hc
  have hmod : colorTable.getD n 0 / 16 ^ (7 - i) % 16 < 16 := Nat.mod_lt _ (by decide)
  generalize colorTable.getD n 0 / 16 ^ (7 - i) % 16 = d at hmod ⊢
  interval_cases d <;> decide

theorem colors_eq (st : ColorCodes) (style : Style) {text : List UInt16} (hcomma : (DoEnterNumber text).2.head? ≠ some comma)
    : st.enterColors text = ({ st with iFG := (DoEnterNumber text).1, iBG := none }, (DoEnterNumber text).2) ∧
        (scanColors style text).2 = (DoEnterNumber text).2 ∧
        ((scanColors style text).1 = { style with foreground := (DoEnterNumber text).1.map printColor } ∨
          (scanColors style text).1 =
            { style with foreground := (DoEnterNumber text).1.map printColor, background := none }) := by
  constructor
  . unfold ColorCodes.enterColors
    split
    . next iFG c rest heq =>
      rw [heq] at hcomma ⊢
      rw [if_neg (fun hc => hcomma (congrArg some hc))]
    . next heq => rw [heq]
  . rw [DoEnterNumber_eq] at hcomma ⊢
    unfold scanColors
    cases hnumber : scanNumber text with
    | none => exact ⟨rfl, .inr rfl⟩
    | some number =>
      rcases number with ⟨fg, rest⟩
      rw [hnumber] at hcomma
      match rest with
      | [] => exact ⟨rfl, .inl rfl⟩
      | c :: rest =>
        dsimp only
        rw [if_neg (fun hc => hcomma (congrArg some hc))]
        exact ⟨rfl, .inl rfl⟩

structure Opened (open_ : Nat) (on left : Bool) : Prop where
  on_le : on.toNat ≤ open_
  left_iff : left = false ↔ open_ = on.toNat

structure Simulates (st : ColorCodes) (h : History) (m : Marks) : Prop where
  bBold : st.bBold = h.style.bold
  bItalics : st.bItalics = h.style.italics
  bUnderline : st.bUnderline = h.style.underline
  iFG : st.iFG = h.iFG
  iBG : st.iBG = none
  foreground : h.style.foreground = none ∨ h.style.foreground = h.iFG.map printColor
  background : h.style.background = none
  bold : Opened m.bold h.style.bold h.boldLeft
  italics : Opened m.italics h.style.italics h.italicsLeft
  underline : Opened m.underline h.style.underline h.underlineLeft
  colors : ∃ left, m.colors = (h.iFG.map printColor).toList ++ left ∧ (h.colorsLeft = false ↔ left = [])
  bkcolors : m.bkcolors = []

theorem Opened.shown_iff {open_ : Nat} {on left : Bool} (h : Opened open_ on left)
    : decide (open_ ≠ 0) = on ↔ on = true ∨ left = false := by
  obtain ⟨hle, hleft⟩ := h
  rw [hleft]
  cases on with
  | true =>
    have hpos : open_ ≠ 0 := by
      rw [Bool.toNat_true] at hle
      omega
    simp [hpos]
  | false => simp

theorem Opened.toggle {open_ : Nat} {on left : Bool} (h : Opened open_ on left)
    : Opened (if !on then open_ + 1 else open_ - 1) (!on) left := by
  obtain ⟨hle, hleft⟩ := h
  cases on with
  | true =>
    rw [Bool.toNat_true] at hle hleft
    exact ⟨Nat.zero_le _, by rw [hleft]; simp; omega⟩
  | false => exact ⟨by simp, by rw [hleft]; simp⟩

theorem Opened.reset {open_ : Nat} {on left : Bool} (h : Opened open_ on left) : Opened open_ false (left || on) := by
  obtain ⟨hle, hleft⟩ := h
  refine ⟨Nat.zero_le _, ?_⟩
  cases on with
  | true =>
    rw [Bool.toNat_true] at hle
    simp
    omega
  | false => simpa using hleft

theorem style_eq_iff {st : ColorCodes} {h : History} {m : Marks} (hsim : Simulates st h m)
    : m.style = h.style ↔ h.Agrees := by
  obtain ⟨left, hcolors, hleft⟩ := hsim.colors
  have hforeground : m.colors.head? = h.style.foreground ↔
      h.style.foreground = h.iFG.map printColor ∧ (h.iFG = none → h.colorsLeft = false) := by
    rw [hcolors, hleft]
    rcases hsim.foreground with hnone | hnamed
    . rw [hnone]
      cases h.iFG with
      | none => simp [List.head?_eq_none_iff]
      | some n => simp
    . rw [hnamed]
      cases h.iFG with
      | none => simp [List.head?_eq_none_iff]
      | some n => simp
  constructor
  . intro hstyle
    obtain ⟨hnamed, hlast⟩ := hforeground.mp (congrArg Style.foreground hstyle)
    exact ⟨hsim.bold.shown_iff.mp (congrArg Style.bold hstyle), hsim.italics.shown_iff.mp (congrArg Style.italics hstyle),
      hsim.underline.shown_iff.mp (congrArg Style.underline hstyle), hnamed, hlast⟩
  . intro hagrees
    have hbold := hsim.bold.shown_iff.mpr hagrees.bold
    have hitalics := hsim.italics.shown_iff.mpr hagrees.italics
    have hunderline := hsim.underline.shown_iff.mpr hagrees.underline
    have hcolor := hforeground.mpr ⟨hagrees.foreground, hagrees.colors⟩
    have hbackground : m.bkcolors.head? = h.style.background := by
      rw [hsim.bkcolors, hsim.background]
      rfl
    unfold Marks.style
    rw [hbold, hitalics, hunderline, hcolor, hbackground]

theorem simulates_color {st : ColorCodes} {h : History} {m : Marks} {text : List UInt16} (hsim : Simulates st h m)
    (hcomma : (DoEnterNumber text).2.head? ≠ some comma)
    : ∃ h' st' m', h.code COLOR text = some (h', (DoEnterNumber text).2) ∧
        st.enterColors text = (st', (DoEnterNumber text).2) ∧ Simulates st' h' m' ∧
        (st'.iFG = st.iFG ∧ m' = m ∨
          st'.iFG ≠ st.iFG ∧ ∃ t : Tag, t.Valid ∧ ColorCodes.colorTag "[color=" "[/color]" st'.iFG = t.text ∧ m' = m.apply t) ∧
        st'.iBG = st.iBG := by
  obtain ⟨hvars, hrest, hstyle⟩ := colors_eq st h.style hcomma
  have hnumber : (DoEnterNumber text).1 = (scanNumber text).bind fun number => mapColor number.1 := by
    rw [DoEnterNumber_eq]
  obtain ⟨left, hcolors, hleft⟩ := hsim.colors
  have hcode : h.code COLOR text = some ({ h with
      style := (scanColors h.style text).1
      iFG := (DoEnterNumber text).1
      colorsLeft := h.colorsLeft ||
        (h.iFG.isSome && (DoEnterNumber text).1.isSome && h.iFG ≠ (DoEnterNumber text).1) }, (DoEnterNumber text).2) := by
    unfold History.code
    rw [if_neg (by decide), if_neg (by decide), if_neg (by decide), if_neg (by decide), if_pos rfl, ← hrest, hnumber]
  have hsame : (scanColors h.style text).1.bold = h.style.bold ∧ (scanColors h.style text).1.italics = h.style.italics ∧
      (scanColors h.style text).1.underline = h.style.underline ∧
      (scanColors h.style text).1.foreground = (DoEnterNumber text).1.map printColor ∧
      (scanColors h.style text).1.background = none := by
    have hbackground := hsim.background
    rcases hstyle with hstyle | hstyle
    . rw [hstyle]
      exact ⟨rfl, rfl, rfl, rfl, hbackground⟩
    . rw [hstyle]
      exact ⟨rfl, rfl, rfl, rfl, rfl⟩
  obtain ⟨hbold, hitalics, hunderline, hforeground, hbackground⟩ := hsame
  have hafter : ∀ colors, (∃ left, colors = ((DoEnterNumber text).1.map printColor).toList ++ left ∧
      ((h.colorsLeft || (h.iFG.isSome && (DoEnterNumber text).1.isSome && h.iFG ≠ (DoEnterNumber text).1)) = false ↔
        left = [])) →
      Simulates { st with iFG := (DoEnterNumber text).1, iBG := none }
        { h with
          style := (scanColors h.style text).1
          iFG := (DoEnterNumber text).1
          colorsLeft := h.colorsLeft ||
            (h.iFG.isSome && (DoEnterNumber text).1.isSome && h.iFG ≠ (DoEnterNumber text).1) } { m with colors } := by
    intro colors hopen
    refine ⟨hsim.bBold.trans hbold.symm, hsim.bItalics.trans hitalics.symm, hsim.bUnderline.trans hunderline.symm, rfl,
      rfl, .inr hforeground, hbackground, ?_, ?_, ?_, hopen, hsim.bkcolors⟩
    . dsimp only
      rw [hbold]
      exact hsim.bold
    . dsimp only
      rw [hitalics]
      exact hsim.italics
    . dsimp only
      rw [hunderline]
      exact hsim.underline
  have hiFG := hsim.iFG
  by_cases hunchanged : (DoEnterNumber text).1 = st.iFG
  . -- no tag
    refine ⟨_, _, _, hcode, hvars, hafter m.colors ⟨left, ?_, ?_⟩, .inl ⟨hunchanged, rfl⟩, hsim.iBG.symm⟩
    . rw [hcolors, hunchanged, hiFG]
    . rw [hunchanged, hiFG]
      simpa using hleft
  . rw [hiFG] at hunchanged
    cases hnew : (DoEnterNumber text).1 with
    | none =>
      rw [hnew] at hafter hcode hvars hunchanged
      cases hold : h.iFG with
      | none => exact absurd hold.symm hunchanged
      | some n =>
        rw [hold] at hcolors hafter hcode
        refine ⟨_, _, _, hcode, hvars, hafter left ⟨left, rfl, ?_⟩, .inr ⟨?_, .color none, trivial, ?_, ?_⟩, hsim.iBG.symm⟩
        . simpa using hleft
        . rw [hiFG, hold]
          simp
        . simp [ColorCodes.colorTag, Tag.text, Tag.body, lit]
        . unfold Marks.apply
          rw [hcolors]
          rfl
    | some n =>
      have hsmall : n < ColorCodes.numColors := by
        rw [hnumber] at hnew
        obtain ⟨number, -, hmap⟩ := Option.bind_eq_some_iff.mp hnew
        exact mapColor_lt hmap
      rw [hnew] at hafter hcode hvars hunchanged
      refine ⟨_, _, _, hcode, hvars, hafter (printColor n :: m.colors) ⟨m.colors, rfl, ?_⟩,
        .inr ⟨?_, .color (some (printColor n)), valid_color n, ?_, rfl⟩, hsim.iBG.symm⟩
      . rw [hcolors]
        cases hold : h.iFG with
        | none => simpa using hleft
        | some old =>
          rw [hold] at hunchanged
          simpa using fun _ h => hunchanged (congrArg some h.symm)
      . rw [hiFG]
        exact hunchanged
      . unfold ColorCodes.colorTag
        dsimp only
        rw [if_pos hsmall]
        simp [Tag.text, Tag.body, lit, printColor]

theorem simulates_next {st : ColorCodes} {h : History} {m : Marks} {c : UInt16} {text : List UInt16}
    (hsim : Simulates st h m) (hcomma : c = COLOR → (DoEnterNumber text).2.head? ≠ some comma)
    : (h.code c text = none ∧ ∀ bStrip, ColorCodes.next bStrip st c text = ([c], st, text)) ∨
      ∃ h' st' m' text', h.code c text = some (h', text') ∧ Simulates st' h' m' ∧
        ColorCodes.next true st c text = ([], st', text') ∧
        (ColorCodes.next false st c text = ([], st', text') ∧ m' = m ∨
          ∃ t : Tag, t.Valid ∧ ColorCodes.next false st c text = (t.text, st', text') ∧ m' = m.apply t) := by
  by_cases hbold : c = BOLD
  . subst hbold
    refine .inr ⟨_, { st with bBold := !st.bBold }, m.apply (.bold (!h.style.bold)), text, rfl, ?_, rfl,
      .inr ⟨.bold (!h.style.bold), trivial, ?_, rfl⟩⟩
    . exact ⟨congrArg Bool.not hsim.bBold, hsim.bItalics, hsim.bUnderline, hsim.iFG, hsim.iBG, hsim.foreground,
        hsim.background, hsim.bold.toggle, hsim.italics, hsim.underline, hsim.colors, hsim.bkcolors⟩
    . rw [← hsim.bBold]
      cases hst : st.bBold <;> simp [ColorCodes.next, hst, Tag.text, Tag.body, lit]
  by_cases hreset : c = RESET
  . subst hreset
    refine .inr ⟨_, { st with bUnderline := false, bItalics := false, bBold := false }, m, text, rfl, ?_, rfl, .inl ⟨rfl, rfl⟩⟩
    exact ⟨rfl, rfl, rfl, hsim.iFG, hsim.iBG, .inl rfl, rfl, hsim.bold.reset, hsim.italics.reset, hsim.underline.reset,
      hsim.colors, hsim.bkcolors⟩
  by_cases hitalics : c = ITALICS
  . subst hitalics
    refine .inr ⟨_, { st with bItalics := !st.bItalics }, m.apply (.italics (!h.style.italics)), text, rfl, ?_, rfl,
      .inr ⟨.italics (!h.style.italics), trivial, ?_, rfl⟩⟩
    . exact ⟨hsim.bBold, congrArg Bool.not hsim.bItalics, hsim.bUnderline, hsim.iFG, hsim.iBG, hsim.foreground,
        hsim.background, hsim.bold, hsim.italics.toggle, hsim.underline, hsim.colors, hsim.bkcolors⟩
    . rw [← hsim.bItalics]
      cases hst : st.bItalics <;> simp [ColorCodes.next, hst, hbold, hreset, Tag.text, Tag.body, lit]
  by_cases hunderline : c = UNDERLINE
  . subst hunderline
    refine .inr ⟨_, { st with bUnderline := !st.bUnderline }, m.apply (.underline (!h.style.underline)), text, rfl, ?_, rfl,
      .inr ⟨.underline (!h.style.underline), trivial, ?_, rfl⟩⟩
    . exact ⟨hsim.bBold, hsim.bItalics, congrArg Bool.not hsim.bUnderline, hsim.iFG, hsim.iBG, hsim.foreground,
        hsim.background, hsim.bold, hsim.italics, hsim.underline.toggle, hsim.colors, hsim.bkcolors⟩
    . rw [← hsim.bUnderline]
      cases hst : st.bUnderline <;> simp [ColorCodes.next, hst, hbold, hreset, hitalics, Tag.text, Tag.body, lit]
  by_cases hcolor : c = COLOR
  . obtain ⟨h', st', m', hcode, hvars, hsim', htag, hiBG⟩ := simulates_color hsim (hcomma hcolor)
    have hnext : ∀ bStrip, ColorCodes.next bStrip st c text =
        (if !bStrip then (if st'.iFG ≠ st.iFG then ColorCodes.colorTag "[color=" "[/color]" st'.iFG else []) ++ [] else [],
          st', (DoEnterNumber text).2) := by
      intro bStrip
      unfold ColorCodes.next
      rw [if_neg hbold, if_neg hreset, if_neg hitalics, if_neg hunderline, if_pos hcolor, hvars]
      simp only [hiBG, ne_eq, not_true_eq_false, if_false]
    rw [hcolor] at hnext ⊢
    refine .inr ⟨h', st', m', (DoEnterNumber text).2, hcode, hsim', hnext true, ?_⟩
    rcases htag with ⟨hsame, hm⟩ | ⟨hchanged, t, hvalid, htext, hm⟩
    . refine .inl ⟨?_, hm⟩
      rw [hnext false, hsame]
      simp
    . refine .inr ⟨t, hvalid, ?_, hm⟩
      rw [hnext false, if_pos hchanged, htext]
      simp
  . left
    constructor
    . unfold History.code
      rw [if_neg hbold, if_neg hreset, if_neg hitalics, if_neg hunderline, if_neg hcolor]
    . intro bStrip
      unfold ColorCodes.next
      rw [if_neg hbold, if_neg hreset, if_neg hitalics, if_neg hunderline, if_neg hcolor]

theorem trace_shown {h : History} {c : UInt16} {text : List UInt16} (hcode : h.code c text = none)
    : h.trace (c :: text) = (c, h) :: h.trace text := by
  rw [History.trace]
  split
  . next hcode' => exact absurd (hcode'.symm.trans hcode) (by simp)
  . rfl

theorem trace_code {h h' : History} {c : UInt16} {text text' : List UInt16} (hcode : h.code c text = some (h', text'))
    : h.trace (c :: text) = h'.trace text' := by
  rw [History.trace]
  split
  . next hcode' =>
    rw [hcode] at hcode'
    cases hcode'
    rfl
  . next hcode' => exact absurd (hcode.symm.trans hcode') (by simp)

theorem shown_of_prefix {st : ColorCodes} {h : History} {m : Marks} (text : List UInt16) (hsim : Simulates st h m)
    (hcomma : ∀ behind, COLOR :: behind <:+ text → (DoEnterNumber behind).2.head? ≠ some comma) {w : List UInt16}
    (hw : 0x5B ∉ w) (hstart : w <+: ColorCodes.loop false st text) : w <+: (h.trace text).map Prod.fst := by
  match text with
  | [] =>
    rw [ColorCodes.loop] at hstart
    rw [List.prefix_nil.mp hstart]
    exact List.nil_prefix
  | c :: text =>
    rw [ColorCodes.loop] at hstart
    rcases simulates_next hsim (fun hc => hcomma text (hc ▸ List.suffix_refl _)) with
      ⟨hcode, hnext⟩ | ⟨h', st', m', text', hcode, hsim', -, ⟨hnext, hm⟩ | ⟨t, hvalid, hnext, hm⟩⟩
    . rw [hnext] at hstart
      rw [trace_shown hcode]
      match w with
      | [] => exact List.nil_prefix
      | c' :: w =>
        rw [List.singleton_append, List.cons_prefix_cons] at hstart
        rw [List.map_cons, List.cons_prefix_cons]
        exact ⟨hstart.1, shown_of_prefix text hsim (fun behind hb => hcomma behind (hb.trans (List.suffix_cons _ _)))
          (fun hmem => hw (List.mem_cons_of_mem _ hmem)) hstart.2⟩
    . have hsuffix := History.suffix_code hcode
      rw [hnext] at hstart
      rw [trace_code hcode]
      exact shown_of_prefix text' hsim' (fun behind hb => hcomma behind (hb.trans (hsuffix.trans (List.suffix_cons _ _)))) hw
        hstart
    . -- a tag starts with a bracket
      rw [hnext] at hstart
      match w with
      | [] => exact List.nil_prefix
      | c' :: w =>
        unfold Tag.text at hstart
        rw [List.cons_append, List.cons_prefix_cons] at hstart
        exact absurd (hstart.1 ▸ List.mem_cons_self) hw
termination_by text.length
decreasing_by
  . exact Nat.lt_succ_self _
  . exact Nat.lt_succ_of_le (History.suffix_code hcode).length_le

theorem reads_loop {st : ColorCodes} {h : History} {m : Marks} (text : List UInt16) (hsim : Simulates st h m)
    (hcomma : ∀ behind, COLOR :: behind <:+ text → (DoEnterNumber behind).2.head? ≠ some comma)
    (htag : ∀ t : Tag, t.Valid → ¬t.text <:+: (h.trace text).map Prod.fst)
    : ∃ shown, Reads m (ColorCodes.loop false st text) shown ∧
        (shown = ((h.trace text).map fun it => (it.1, it.2.style)) ↔ ∀ it ∈ h.trace text, it.2.Agrees) := by
  match text with
  | [] =>
    rw [ColorCodes.loop, History.trace]
    exact ⟨[], .nil m, by simp⟩
  | c :: text =>
    rw [ColorCodes.loop]
    rcases simulates_next hsim (fun hc => hcomma text (hc ▸ List.suffix_refl _)) with
      ⟨hcode, hnext⟩ | ⟨h', st', m', text', hcode, hsim', -, hnext⟩
    . have hcomma' : ∀ behind, COLOR :: behind <:+ text → (DoEnterNumber behind).2.head? ≠ some comma :=
        fun behind hb => hcomma behind (hb.trans (List.suffix_cons _ _))
      rw [trace_shown hcode] at htag ⊢
      rw [hnext, List.singleton_append]
      rw [List.map_cons] at htag
      obtain ⟨shown, hreads, hiff⟩ := reads_loop text hsim hcomma'
        (fun t hvalid hinner => htag t hvalid (hinner.trans (List.suffix_cons _ _).isInfix))
      refine ⟨(c, m.style) :: shown, .char ?_ hreads, ?_⟩
      . intro t hvalid hstart
        have hshown : t.text <+: c :: (h.trace text).map Prod.fst := by
          unfold Tag.text at hstart ⊢
          rw [List.cons_prefix_cons] at hstart ⊢
          refine ⟨hstart.1, shown_of_prefix text hsim hcomma' ?_ hstart.2⟩
          rw [List.mem_append]
          rintro (hmem | hmem)
          . exact Tag.bracket_notMem_body t hvalid (.inl rfl) hmem
          . exact absurd hmem (by decide)
        exact htag t hvalid hshown.isInfix
      . rw [List.map_cons, List.forall_mem_cons, List.cons_eq_cons, Prod.mk.injEq, hiff, style_eq_iff hsim]
        simp
    . have hcomma' : ∀ behind, COLOR :: behind <:+ text' → (DoEnterNumber behind).2.head? ≠ some comma :=
        fun behind hb => hcomma behind (hb.trans ((History.suffix_code hcode).trans (List.suffix_cons _ _)))
      rw [trace_code hcode] at htag ⊢
      obtain ⟨shown, hreads, hiff⟩ := reads_loop text' hsim' hcomma' htag
      refine ⟨shown, ?_, hiff⟩
      rcases hnext with ⟨hnext, hm⟩ | ⟨t, hvalid, hnext, hm⟩
      . rw [hnext, List.nil_append, ← hm]
        exact hreads
      . rw [hnext]
        exact .tag hvalid (hm ▸ hreads)
termination_by text.length
decreasing_by
  . exact Nat.lt_succ_self _
  . exact Nat.lt_succ_of_le (History.suffix_code hcode).length_le

theorem strip_loop {st : ColorCodes} {h : History} {m : Marks} (text : List UInt16) (hsim : Simulates st h m)
    (hcomma : ∀ behind, COLOR :: behind <:+ text → (DoEnterNumber behind).2.head? ≠ some comma)
    : ColorCodes.loop true st text = (h.trace text).map Prod.fst := by
  match text with
  | [] =>
    rw [ColorCodes.loop, History.trace]
    rfl
  | c :: text =>
    rw [ColorCodes.loop]
    rcases simulates_next hsim (fun hc => hcomma text (hc ▸ List.suffix_refl _)) with
      ⟨hcode, hnext⟩ | ⟨h', st', m', text', hcode, hsim', hnext, -⟩
    . rw [hnext, trace_shown hcode, List.map_cons,
        strip_loop text hsim (fun behind hb => hcomma behind (hb.trans (List.suffix_cons _ _)))]
      rfl
    . rw [hnext, trace_code hcode, List.nil_append]
      exact strip_loop text' hsim'
        (fun behind hb => hcomma behind (hb.trans ((History.suffix_code hcode).trans (List.suffix_cons _ _))))
termination_by text.length
decreasing_by
  . exact Nat.lt_succ_self _
  . exact Nat.lt_succ_of_le (History.suffix_code hcode).length_le

theorem simulates_start : Simulates {} {} {} :=
  ⟨rfl, rfl, rfl, rfl, rfl, .inl rfl, rfl, ⟨Nat.le_refl _, by simp⟩, ⟨Nat.le_refl _, by simp⟩, ⟨Nat.le_refl _, by simp⟩,
    ⟨[], rfl, by simp⟩, rfl⟩

theorem reads_formatted_iff {text : WStr} (hplain : Plain text)
    : Reads {} (DoColorCodes text false) (formatted text) ↔ ∀ it ∈ History.trace {} text.chars, it.2.Agrees := by
  obtain ⟨shown, hreads, hiff⟩ := reads_loop text.chars simulates_start hplain.noComma hplain.noTag
  rw [← hiff]
  constructor
  . intro hformatted
    exact reads_unique hreads hformatted
  . intro hshown
    have hformatted : formatted text = shown := hshown.symm
    rw [hformatted]
    exact hreads

theorem plain_short {text : WStr} (hcolor : COLOR ∉ text.chars)
    (hvisible : (visible text).length < 3) : Plain text := by
  refine ⟨?_, fun behind hb => absurd (hb.subset List.mem_cons_self) hcolor⟩
  intro t _ hinner
  have hlength := hinner.length_le
  have hbody : t.body ≠ [] := by
    cases t with
    | bold on => cases on <;> simp [Tag.body, lit]
    | italics on => cases on <;> simp [Tag.body, lit]
    | underline on => cases on <;> simp [Tag.body, lit]
    | color digits => cases digits <;> simp [Tag.body, lit]
    | bkcolor digits => cases digits <;> simp [Tag.body, lit]
  have hpos := List.length_pos_iff.mpr hbody
  unfold Tag.text at hlength
  rw [List.length_cons, List.length_append, List.length_singleton] at hlength
  omega

def boldLetter : WStr := ⟨[BOLD, 0x61, BOLD, 0x62], by decide⟩

theorem trace_boldLetter
    : History.trace {} boldLetter.chars = [(0x61, { style.bold := true }), (0x62, {})] := by
  unfold boldLetter
  rw [trace_code (h := {}) (c := BOLD) rfl, trace_shown rfl, trace_code (c := BOLD) rfl, trace_shown rfl, History.trace]
  rfl

def resetLetter : WStr := ⟨[BOLD, 0x61, RESET, 0x62], by decide⟩

theorem trace_resetLetter
    : History.trace {} resetLetter.chars = [(0x61, { style.bold := true }), (0x62, { boldLeft := true })] := by
  unfold resetLetter
  rw [trace_code (h := {}) (c := BOLD) rfl, trace_shown rfl, trace_code (c := RESET) rfl, trace_shown rfl, History.trace]
  rfl

end Irc.Formatting
